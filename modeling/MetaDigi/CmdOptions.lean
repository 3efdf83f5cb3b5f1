import MetaDigi.Getopt
import MetaDigi.TextScan
import Mathlib.Algebra.Group.Int.Defs

/-!
# The command line parser of the library

`cmdOptParse` builds the two tables of `getopt_long` from one table of
entries, stores every option in the variable of an entry, and gives the first
operands to the entries without an option character. A long option is known
by the index of its entry, which travels as a negative value through a
`signed char`.
-/

namespace MetaDigi.CmdOptions

open CStrings TextScan Getopt

/-- `CmdOptTypes`. -/
inductive CmdOptTypes where
  | cotBool | cotInt | cotString | cotMore | cotMoreOpt | cotNone
deriving DecidableEq

/-- The variables that pointers of entries lead to. The first two are local to
`cmdOptParse`. -/
inductive Var where
  | cPrintVersion | cPrintHelp | logLevel | named (name : Bytes)
deriving DecidableEq

/-- What a variable holds. -/
inductive Value where
  | char (c : Int8) | int (i : Int32) | string (s : Option Bytes)
deriving DecidableEq

/-- The variables of the program. -/
abbrev Memory := Var → Value

/-- An assignment. -/
def Memory.set (mem : Memory) (v : Var) (x : Value) : Memory := Function.update mem v x

/-- `CmdOptEntry`. The text of the help is only printed. -/
structure CmdOptEntry where
  /-- How the argument is stored. -/
  type : CmdOptTypes
  /-- The option character, 0 for a mandatory argument, -1 for none. -/
  cOptChar : Int8
  /-- The variable that takes the value. -/
  vValuePtr : Option Var
  /-- The name of the long option. -/
  szLabelStr : Bytes
  /-- The flag that says whether the entry was given. -/
  pbPresent : Option Var
deriving DecidableEq

/-- How the parser ends without returning. -/
inductive Stop where
  /-- `exit( EXIT_FAILURE )`: too many command line options. -/
  | tooManyOptions
  /-- `exit( EXIT_FAILURE )`: too long command line. -/
  | tooLongLine
  /-- `usageAndExit`. -/
  | usage (cWrongNumber : Bool)
  /-- `exit( EXIT_SUCCESS )` behind the version. -/
  | version
  /-- An access through `NULL` or behind a table. -/
  | fault
  /-- The bound on the calls of the scanner was too small. -/
  | outOfFuel
deriving DecidableEq

/-- `MAX_ENTRIES`. -/
def maxEntries : ℕ := 32

/-- `BUFFER_SIZE`. -/
def bufferSize : ℕ := 1024

/-- `--version`. -/
def coePrintVersion : CmdOptEntry := ⟨.cotBool, -1, some .cPrintVersion, text "version", none⟩

/-- `-h` and `--help`. -/
def coePrintHelp : CmdOptEntry := ⟨.cotBool, 104, some .cPrintHelp, text "help", none⟩

/-- `-l` and `--log-level`. -/
def coeLogLevel : CmdOptEntry := ⟨.cotInt, 108, some .logLevel, text "log-level", none⟩

/-- The global default arguments in front of the table. -/
def libraryEntries : List CmdOptEntry := [coePrintVersion, coePrintHelp, coeLogLevel]

/-- Copies the entries in front of `COT_NONE` to the static table. -/
def copyEntries : List CmdOptEntry → ℕ → Except Stop (List CmdOptEntry)
  | entries, nOptIndexStatic =>
    if nOptIndexStatic = maxEntries then .error .tooManyOptions
    else
      match entries with
      | [] => .error .fault
      | e :: entries =>
        if e.type = .cotNone then .ok []
        else do
          let copied ← copyEntries entries (nOptIndexStatic + 1)
          return e :: copied

/-- The parameters of `getopt_long`. -/
structure Lists where
  /-- The short options. -/
  szOptLine : Bytes
  /-- The long options. -/
  axLongOptions : List LongOption

/-- The entry is one of the kinds that end a table. -/
def CmdOptEntry.endsTable (e : CmdOptEntry) : Bool := e.type = .cotMore ∨ e.type = .cotMoreOpt

/-- The entry takes an argument. -/
def CmdOptEntry.hasArg (e : CmdOptEntry) : Bool := e.type ≠ .cotBool

/-- `*pbPresent = 0`. -/
def clearPresent (e : CmdOptEntry) (mem : Memory) : Memory :=
  match e.pbPresent with
  | some flag => mem.set flag (.char 0)
  | none => mem

/-- The loop that builds the parameters and clears the flags. -/
def listEntries : List CmdOptEntry → ℕ → Lists → Memory → Except Stop (Lists × Memory)
  | [], _, lists, mem => .ok (lists, mem)
  | e :: entries, nSize, lists, mem =>
    let axLongOptions :=
      if e.endsTable then lists.axLongOptions
      else lists.axLongOptions ++ [⟨e.szLabelStr, e.hasArg, -2 - nSize⟩]
    let mem := clearPresent e mem
    if e.cOptChar = 0 then listEntries entries (nSize + 1) ⟨lists.szOptLine, axLongOptions⟩ mem
    else if bufferSize - 2 ≤ lists.szOptLine.length then .error .tooLongLine
    else if e.cOptChar = -1 then
      listEntries entries (nSize + 1) ⟨lists.szOptLine, axLongOptions⟩ mem
    else
      let szOptLine := lists.szOptLine ++ [e.cOptChar.toUInt8] ++ (if e.hasArg then [colon] else [])
      listEntries entries (nSize + 1) ⟨szOptLine, axLongOptions⟩ mem

/-- `atoi` with 32 bits: a number that is too big stays at the limit. -/
def atoi (s : Bytes) : Int32 :=
  let (negative, s) := scanSign (s.dropWhile isSpace)
  let value := ((scanDigits 10 s 0 0).map Prod.fst).getD 0
  Int32.ofInt (if negative then max (-2 ^ 31) (-(value : ℤ)) else min (2 ^ 31 - 1) value)

/-- What `COT_INT` stores, or nothing when `sscanf` converts nothing. -/
def intValue (szStr : Bytes) : Option Int32 :=
  if 2 < (Int32.ofNat szStr.length).toInt ∧ szStr.head? = some 48 ∧
      (szStr[1]? = some 120 ∨ szStr[1]? = some 88) then
    (scanHex 32 (szStr.drop 2)).map (fun n => Int32.ofNat n.1)
  else some (atoi szStr)

/-- A store through a pointer. -/
def storeThrough (ptr : Option Var) (x : Value) (mem : Memory) : Except Stop Memory :=
  match ptr with
  | some v => .ok (mem.set v x)
  | none => .error .fault

/-- The store of `updateVar`, by the kind of the entry. -/
def storeValue (e : CmdOptEntry) (szStr : Option Bytes) (mem : Memory) : Except Stop Memory :=
  match e.type with
  | .cotBool => storeThrough e.vValuePtr (.char 1) mem
  | .cotInt =>
    match szStr with
    | none => .error .fault
    | some s =>
      match intValue s with
      | some i => storeThrough e.vValuePtr (.int i) mem
      | none => .ok mem
  | .cotString => storeThrough e.vValuePtr (.string szStr) mem
  | .cotMore => .ok mem
  | .cotMoreOpt => .ok mem
  | .cotNone => .ok mem

/-- `updateVar`. -/
def updateVar (e : CmdOptEntry) (szStr : Option Bytes) (mem : Memory) : Except Stop Memory := do
  let mem ← storeValue e szStr mem
  return match e.pbPresent with
    | some flag => mem.set flag (.char 1)
    | none => mem

/-- The search for a short option goes through all entries. -/
def updateMatching (cOptChar : Int8) (optarg : Option Bytes) :
    List CmdOptEntry → Bool → Memory → Except Stop (Bool × Memory)
  | [], cFound, mem => .ok (cFound, mem)
  | e :: entries, cFound, mem =>
    if e.cOptChar = cOptChar then do
      let mem ← updateVar e optarg mem
      updateMatching cOptChar optarg entries true mem
    else updateMatching cOptChar optarg entries cFound mem

/-- The body of the loop over the options. -/
def parseOption (entries : List CmdOptEntry) (mem : Memory) (r : Reply) : Except Stop Memory :=
  let cOptChar := Int8.ofInt r.value
  if cOptChar < 0 then
    match entries[(-2 - cOptChar.toInt).toNat]? with
    | some e => updateVar e r.optarg mem
    | none => .error .fault
  else do
    let (cFound, mem) ← updateMatching cOptChar r.optarg entries false mem
    if cFound then return mem else .error (.usage false)

/-- The loop over the options, with a bound on the calls. -/
def parseOptions (t : Tables) (entries : List CmdOptEntry) :
    ℕ → Scanner → Memory → Except Stop (Scanner × Memory)
  | 0, _, _ => .error .outOfFuel
  | fuel + 1, s, mem =>
    let (r, s) := getoptLong t s
    if Int8.ofInt r.value = -1 then .ok (s, mem)
    else do
      let mem ← parseOption entries mem r
      parseOptions t entries fuel s mem

/-- The loop over the mandatory arguments. -/
def parseMandatory (argv : List Bytes) :
    List CmdOptEntry → ℕ → Memory → Except Stop (ℤ × Memory)
  | [], optind, mem =>
    if (argv.length : ℤ) - optind ≠ 0 then .error (.usage true) else .ok (0, mem)
  | e :: entries, optind, mem =>
    if e.cOptChar ≠ 0 then parseMandatory argv entries optind mem
    else if e.type = .cotMoreOpt then .ok (optind, mem)
    else if (argv.length : ℤ) - optind = 0 then .error (.usage true)
    else if e.type = .cotMore then .ok (optind, mem)
    else do
      let mem ← updateVar e argv[optind]? mem
      parseMandatory argv entries (optind + 1) mem

/-- What the parser leaves. -/
structure Parsed where
  /-- The value returned. -/
  result : ℤ
  /-- The arguments in the order in which the scanner left them. -/
  argv : List Bytes
  /-- The variables. -/
  mem : Memory

/-- Enough calls for the scanner: one for each character and the last one. -/
def enoughCalls (args : List Bytes) : ℕ := (args.map List.length).sum + 1

/-- `cmdOptParse` on the name of the program, its arguments and the table. -/
def cmdOptParse (posixlyCorrect : Bool) (name : Bytes) (args : List Bytes)
    (entries : List CmdOptEntry) (mem : Memory) : Except Stop Parsed := do
  let copied ← copyEntries entries libraryEntries.length
  let cmdOptEntries := libraryEntries ++ copied
  let mem := (mem.set .cPrintVersion (.char 0)).set .cPrintHelp (.char 0)
  let (lists, mem) ← listEntries cmdOptEntries 0 ⟨[], []⟩ mem
  let (s, mem) ← parseOptions ⟨lists.szOptLine, lists.axLongOptions, posixlyCorrect⟩ cmdOptEntries
    (enoughCalls args) (Scanner.start args) mem
  if mem .cPrintVersion ≠ .char 0 then .error .version
  else if mem .cPrintHelp ≠ .char 0 then .error (.usage false)
  else do
    let argv := name :: s.argv
    let (result, mem) ← parseMandatory argv cmdOptEntries (s.scanned.length + 1) mem
    return ⟨result, argv, mem⟩

end MetaDigi.CmdOptions
