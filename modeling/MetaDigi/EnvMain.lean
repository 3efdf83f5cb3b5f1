import MetaDigi.Crc32
import MetaDigi.EnvFuncs
import MetaDigi.SystemProgram

/-!
# The environment tools

`ubootenv` and `prodinfoenv` are one program that looks at its own name. A run
reads the stored block, changes it as the options say, and stores it again with
a new checksum. The calls into the NVRAM library, the files and what is printed
are operations with an answer; an access beside an array stops the run.
-/

namespace MetaDigi.EnvMain

open CheckedMemory CStrings Crc32 EnvFuncs SystemProgram Prog

/-- `nv_os_type_e`: the kind of a configuration section. -/
inductive NvOsType where
  | nvosNone | nvosUboot | nvosProdInfo
  deriving DecidableEq, Repr

/-- One device of the network settings. -/
structure NvDevice where
  /-- `uiIP`. -/
  uiIP : BitVec 32
  /-- `uiNetMask`. -/
  uiNetMask : BitVec 32
  /-- `flags.bDHCP`. -/
  bDHCP : Bool

/-- The fields of `struct nv_critical` that are printed. -/
structure NvCritical where
  /-- `s.p.xIP.axDevice[0]`. -/
  axDevice0 : NvDevice
  /-- `s.p.xIP.axDevice[1]`. -/
  axDevice1 : NvDevice
  /-- `s.p.eth1dev`. -/
  eth1dev : NvDevice
  /-- `s.p.xIP.uiIPServer`. -/
  uiIPServer : BitVec 32
  /-- `s.p.xIP.uiIPGateway`. -/
  uiIPGateway : BitVec 32
  /-- `s.p.xIP.auiIPDNS[0]`. -/
  auiIPDNS0 : BitVec 32
  /-- `s.p.xIP.auiIPDNS[1]`. -/
  auiIPDNS1 : BitVec 32

/-- What `fopen` for reading leads to. -/
inductive Opened where
  /-- NULL, with an error number. -/
  | failed (errno : {n : ℤ // 0 < n})
  /-- A file with this content. Behind it comes its end, or a read error, which
  `feof` does not report. -/
  | file (content : Bytes) (ends : Bool)

/-- An error number is positive. -/
theorem enoent_pos : (0 : ℤ) < 2 := by decide

/-- `fopen` of a file that is not there: `ENOENT`. -/
def Opened.missing : Opened := .failed ⟨2, enoent_pos⟩

/-- The streams that are printed to. -/
inductive Stream where
  | stdout | stderr
  deriving DecidableEq, Repr

/-- The calls of the program. -/
inductive EnvOp where
  /-- `fprintf`, with the formatted text. -/
  | fprintf (stream : Stream) (line : Bytes)
  /-- `perror`. -/
  | perror (s : Bytes)
  /-- `show_usage`, with or without its warning. -/
  | showUsage (warning : Bool)
  /-- `NvInit(NVR_AUTO)`. -/
  | nvInit
  /-- `NvOSCfgFind`, answered by `uiSize` of the section. -/
  | nvOSCfgFind (type : NvOsType)
  /-- `NvOSCfgAdd`. -/
  | nvOSCfgAdd (type : NvOsType) (size : ℕ)
  /-- `NvOSCfgGet`, answered by the bytes that it stores in the buffer. -/
  | nvOSCfgGet (type : NvOsType) (size : ℕ)
  /-- `NvOSCfgSet`. -/
  | nvOSCfgSet (type : NvOsType) (env : Bytes)
  /-- `NvCmdLine`. -/
  | nvCmdLine (argv : List Bytes)
  /-- `NvSave`. -/
  | nvSave
  /-- `NvCriticalGet`. -/
  | nvCriticalGet
  /-- `NvToStringIP`. -/
  | nvToStringIP (ip : BitVec 32)
  /-- `malloc`, answered by whether there is memory. -/
  | malloc (size : ℕ)
  /-- `free`. -/
  | free
  /-- `fopen(filename, "r")` together with what the file holds. -/
  | fopen (filename : Bytes)
  /-- `fclose`. -/
  | fclose

/-- What a call is answered with; 1 is `true`. -/
abbrev EnvResp : EnvOp → Type
  | .fprintf _ _ | .perror _ | .showUsage _ | .free | .fclose => Unit
  | .nvInit | .nvOSCfgAdd _ _ | .nvOSCfgSet _ _ | .nvCmdLine _ | .nvSave | .malloc _ => Bool
  | .nvOSCfgFind _ => Option ℕ
  | .nvOSCfgGet _ _ => Option Bytes
  | .nvCriticalGet => Option NvCritical
  | .nvToStringIP _ => Bytes
  | .fopen _ => Opened

/-- Why the program is left other than by returning from `main`. -/
inductive Stop where
  /-- `exit`. -/
  | exit (status : ℤ)
  /-- An access beside an array. -/
  | fault (f : Fault)
  deriving DecidableEq, Repr

/-- A part of the program. -/
abbrev Env := Prog EnvOp EnvResp Stop

/-- Make a call. -/
abbrev ask (o : EnvOp) : Env (EnvResp o) := Prog.perform o

/-- A computation on arrays. -/
def lift {α : Type} : Except Fault α → Env α
  | .ok a => .ret a
  | .error f => .exit (.fault f)

/-- `EXIT_SUCCESS`. -/
def exitSuccess : ℤ := 0

/-- `EXIT_FAILURE`. -/
def exitFailure : ℤ := 1

/-- `EINVAL`. -/
def eInval : ℤ := 22

/-- `fprintf(stderr, ...)`. -/
def printErr (line : Bytes) : Env Unit := ask (.fprintf .stderr line)

/-- `fprintf(stdout, "%s\n", ...)`. -/
def printLine (line : Bytes) : Env Unit := ask (.fprintf .stdout (line ++ text "\n"))

/-- `env_t`: the cells of the checksum and those of the variables. In a block
of less than four bytes both are cut short. -/
structure EnvT where
  /-- The cells of `crc`, an `unsigned long`. -/
  crc : Bytes
  /-- The cells of `data`. -/
  data : Bytes

/-- A block seen as an `env_t`. -/
def EnvT.ofBlock (block : Bytes) : EnvT := ⟨block.take 4, block.drop 4⟩

/-- `uiSize - sizeof(unsigned long)`, in unsigned integers of 32 bits. -/
def envLen (uiSize : ℕ) : ℕ := if uiSize < 4 then 2 ^ 32 + uiSize - 4 else uiSize - 4

/-- The cells of an `unsigned long`, the lowest byte first. -/
def ulongCells (c : BitVec 32) : Bytes :=
  [UInt8.ofNat (c.toNat % 256), UInt8.ofNat (c.toNat / 256 % 256),
    UInt8.ofNat (c.toNat / 65536 % 256), UInt8.ofNat (c.toNat / 16777216 % 256)]

/-- Read an `unsigned long`. -/
def loadUlong (mem : Bytes) : Except Fault (BitVec 32) := do
  let b0 ← load mem 0
  let b1 ← load mem 1
  let b2 ← load mem 2
  let b3 ← load mem 3
  return BitVec.ofNat 32 (b0.toNat + 256 * b1.toNat + 65536 * b2.toNat + 16777216 * b3.toNat)

/-- `crc32(0, data, datalen)`. -/
def crcOver (data : Bytes) (datalen : ℕ) : Except Fault (BitVec 32) :=
  if datalen ≤ data.length then .ok (crc32 0 (data.take datalen)) else .error (.read data.length)

/-- `%08x`. -/
def hex8 (c : BitVec 32) : Bytes :=
  (List.range 8).map fun i =>
    let digit := c.toNat / 16 ^ (7 - i) % 16
    UInt8.ofNat (if digit < 10 then 48 + digit else 87 + digit)

/-- The stored checksum and the calculated one. -/
def envChecksums (env : EnvT) (datalen : ℕ) : Except Fault (BitVec 32 × BitVec 32) := do
  let newCrc ← crcOver env.data datalen
  let crc ← loadUlong env.crc
  return (crc, newCrc)

/-- `env_validate`: whether the block is invalid. -/
def envValidate (env : EnvT) (datalen : ℕ) (verbose : Bool) : Env Bool := do
  let (crc, newCrc) ← lift (envChecksums env datalen)
  if crc ≠ newCrc then do
    if verbose then
      printErr (text "CRC failure: got 0x" ++ hex8 crc ++ text " expected 0x" ++ hex8 newCrc ++
        text "\n")
    return true
  else return false

/-- `env_is_empty`: the end mark is the second cell. -/
def envIsEmpty (data : Bytes) (envlen : ℕ) : Except Fault Bool := do
  let endMark ← getEndMark data 0 envlen
  return endMark = some 1

/-- `env_os_type_to_string`. -/
def envOsTypeToString : NvOsType → Bytes
  | .nvosNone => text "None"
  | .nvosUboot => text "U-Boot"
  | .nvosProdInfo => text "Product Info"

/-- `envDefaultSizes`. The size of the product information is a constant of the
NVRAM library. -/
def envDefaultSizes (prodInfoDataSize : ℕ) : NvOsType → ℕ
  | .nvosNone => 0
  | .nvosUboot => 8192
  | .nvosProdInfo => prodInfoDataSize

/-- `env_onetime_writable`. -/
def envOnetimeWritable (envType : NvOsType) : Bool := envType = .nvosProdInfo

/-- `excludeVars`: the variables that are network settings, with their names in
the NVRAM. -/
def excludeVars : List (Bytes × Bytes) := [
  (text "ethaddr", text "ethaddr1"),
  (text "wlanaddr", text "ethaddr2"),
  (text "eth1addr", text "ethaddr3"),
  (text "ipaddr", text "ip1"),
  (text "ipaddr_wlan", text "ip2"),
  (text "ipaddr1", text "ip3"),
  (text "netmask", text "netmask1"),
  (text "netmask_wlan", text "netmask2"),
  (text "netmask1", text "netmask3"),
  (text "serverip", text "server"),
  (text "gatewayip", text "gateway"),
  (text "dnsip", text "dns1"),
  (text "dnsip2", text "dns2"),
  (text "dhcp", text "dhcp1"),
  (text "dhcp_wlan", text "dhcp2"),
  (text "dhcp1", text "dhcp3")]

/-- `env_have_to_use_nvram`: the index of a network setting. -/
def envHaveToUseNvram (envType : NvOsType) (varname : CString) :
    Option (Fin excludeVars.length) :=
  if envType = .nvosUboot then excludeVars.findFinIdx? (fun vars => vars.1 = varname.val)
  else none

/-- An option of the command line as `getopt_long` reports it. -/
inductive Opt where
  | dump
  | print (printlist : CString)
  | set (setstring : CString)
  | fileadd (file : CString)
  | erase (eraselist : CString)
  | clean
  /-- `--help`, or anything that is not an option. -/
  | help

/-- The variables that `process_options` sets. -/
structure Options where
  /-- `dump`. -/
  dump : Bool
  /-- `clean`. -/
  clean : Bool
  /-- `fileadd`. -/
  fileadd : Option CString
  /-- `printlist`. -/
  printlist : Option CString
  /-- `setstring`. -/
  setstring : Option CString
  /-- `eraselist`. -/
  eraselist : Option CString

/-- Before the first option. -/
def noOptions : Options := ⟨false, false, none, none, none, none⟩

/-- What an option sets; a later one replaces an earlier one. -/
def Options.set (o : Options) : Opt → Options
  | .dump => { o with dump := true }
  | .print printlist => { o with printlist := some printlist }
  | .set setstring => { o with setstring := some setstring }
  | .fileadd file => { o with fileadd := some file }
  | .erase eraselist => { o with eraselist := some eraselist }
  | .clean => { o with clean := true }
  | .help => o

/-- `clean || fileadd || eraselist || setstring`. -/
def Options.modifies (o : Options) : Bool :=
  o.clean || o.fileadd.isSome || o.eraselist.isSome || o.setstring.isSome

/-- `show_usage_and_exit`. -/
def showUsageAndExit {α : Type} (envType : NvOsType) (exitCode : ℤ) : Env α := do
  ask (.showUsage (envOnetimeWritable envType))
  .exit (.exit exitCode)

/-- The loop of `process_options`. -/
def readOptions (envType : NvOsType) : List Opt → Options → Env Options
  | [], o => return o
  | .help :: _, _ => showUsageAndExit envType exitSuccess
  | opt :: argv, o => readOptions envType argv (o.set opt)

/-- `process_options`. -/
def processOptions (envType : NvOsType) (argv : List Opt) : Env Options := do
  let o ← readOptions envType argv noOptions
  if argv.isEmpty then showUsageAndExit envType exitFailure
  else if o.dump && o.printlist.isSome then do
    printErr (text "--dump and --print can't be used simultaneously\n")
    showUsageAndExit envType exitFailure
  else if o.clean && o.eraselist.isSome then do
    printErr (text "--clean and --erase can't be used simultaneously\n")
    showUsageAndExit envType exitFailure
  else return o

/-- `get_var_value`: what follows the separator, when the name stands somewhere
in front of it. -/
def getVarValue (from' varName : Bytes) (sep : UInt8) : Option Bytes :=
  match strchr from' sep, strstr varName from' with
  | some separator, some start =>
    if start < separator then some (from'.drop (separator + 1)) else none
  | _, _ => none

/-- `env_add_var`: the result, and the data afterwards. -/
def envAddVar (envType : NvOsType) (varstring : CString) (data : Bytes) (envlen : ℕ) :
    Env (ℤ × Bytes) := do
  let (assigned, tmpstr) ← lift (getVarName varstring (List.replicate 50 0) varAsign)
  if assigned then
    match envHaveToUseNvram envType (CString.ofCells tmpstr) with
    | some j =>
      match getVarValue varstring.val excludeVars[j].1 varAsign with
      | some varval => do
        let tmpstr ← lift (storeAll tmpstr 0 (excludeVars[j].2 ++ [varAsign] ++ varval ++ [0]))
        if ← ask (.nvCmdLine [text "set", text "network", (CString.ofCells tmpstr).val]) then
          return (0, data)
        else return (-eInval, data)
      | none => return (0, data)
    | none => do
      let (added, data) ← lift (addVar data 0 envlen varstring)
      if added then return (0, data) else return (-eInval, data)
  else return (-eInval, data)

/-- `'\n'`. -/
def newline : UInt8 := 10

/-- `fgets`: a line of at most so many characters, and the rest of the file. -/
def fgets : ℕ → Bytes → Bytes × Bytes
  | 0, content => ([], content)
  | _ + 1, [] => ([], [])
  | room + 1, c :: content =>
    if c = newline then ([c], content)
    else
      let (line, rest) := fgets room content
      (c :: line, rest)

/-- The lines that `fgets` reads into an array of
`ENV_MAX_VAR_NAME_LEN + ENV_MAX_VAR_VAL_LEN + 3` characters, up to the end of
the file. A line that a read error cuts short is not delivered. The first
number bounds the number of lines. -/
def linesFrom (ends : Bool) : ℕ → Bytes → List Bytes
  | 0, _ => []
  | left + 1, content =>
    if content = [] then []
    else if !ends && content.length < 308 && newline ∉ content then []
    else
      let (line, rest) := fgets 308 content
      line :: linesFrom ends left rest

/-- The lines of a file. -/
def fileLines (ends : Bool) (content : Bytes) : List Bytes := linesFrom ends content.length content

/-- `line[strlen(line) - 1]` is cleared when it is a newline. The index is an
unsigned integer of 32 bits. -/
def chopNewline (line : Bytes) : Except Fault Bytes := do
  let last := ((CString.ofCells line).val.length + 2 ^ 32 - 1) % 2 ^ 32
  let c ← load line last
  if c = newline then store line last 0 else return line

/-- The loop of `env_add_vars_from_file`. It does not end when the file cannot
be read to its end. -/
def addLines (envType : NvOsType) (envlen : ℕ) (ends : Bool) :
    List Bytes → Bytes → Env (ℤ × Bytes)
  | [], data => if ends then return (exitSuccess, data) else .hang
  | line :: lines, data => do
    let line ← lift (chopNewline (line ++ [0]))
    let (failed, data) ← envAddVar envType (CString.ofCells line) data envlen
    if failed ≠ 0 then do
      printErr (text "Unable to add environment variable " ++ (CString.ofCells line).val ++
        text "\n")
      return (-eInval, data)
    else addLines envType envlen ends lines data

/-- `env_add_vars_from_file`: the result, and the data afterwards. -/
def envAddVarsFromFile (envType : NvOsType) (filename : CString) (data : Bytes) (envlen : ℕ) :
    Env (ℤ × Bytes) := do
  match ← ask (.fopen filename.val) with
  | .failed errno => return (-errno.val, data)
  | .file content ends => do
    let (result, data) ← addLines envType envlen ends (fileLines ends content) data
    ask .fclose
    return (result, data)

/-- `strtok`: the next token, and the text behind it. -/
def strtok (delim : UInt8) (s : Bytes) : Option (Bytes × Bytes) :=
  let s := s.dropWhile (· = delim)
  if s = [] then none else some (s.takeWhile (· ≠ delim), (s.dropWhile (· ≠ delim)).drop 1)

/-- The tokens of a text; the first argument bounds their number. -/
def tokensFrom (delim : UInt8) : ℕ → Bytes → List Bytes
  | 0, _ => []
  | left + 1, s =>
    match strtok delim s with
    | some (token, rest) => token :: tokensFrom delim left rest
    | none => []

/-- The names in a list, separated by blanks. -/
def varNames (varlist : CString) : List CString :=
  (tokensFrom 32 varlist.val.length varlist.val).map CString.ofCells

/-- The loop of `env_remove_varlist`. -/
def removeVars (envlen : ℕ) : List CString → Bytes → Env Bytes
  | [], data => return data
  | var :: vars, data => do
    let (removed, data) ← lift (removeVar data 0 envlen var)
    if !removed then
      printErr (text "Unable to remove environment variable " ++ var.val ++ text "\n")
    removeVars envlen vars data

/-- `env_remove_varlist`: the data afterwards. -/
def envRemoveVarlist (varlist : CString) (data : Bytes) (envlen : ℕ) : Env Bytes :=
  removeVars envlen (varNames varlist) data

/-- A line with an address. -/
def printIP (name : String) (ip : BitVec 32) : Env Unit := do
  let s ← ask (.nvToStringIP ip)
  printLine (text name ++ s)

/-- A line with a flag. -/
def printFlag (name : String) (flag : Bool) : Env Unit :=
  printLine (text name ++ if flag then text "on" else text "off")

/-- The switch in `env_printenv_nvram_vars`. -/
def printNvramVar (crit : NvCritical) : ℕ → Env Unit
  | 3 => printIP "ipaddr=" crit.axDevice0.uiIP
  | 4 => printIP "ipaddr_wlan=" crit.axDevice1.uiIP
  | 5 => printIP "ipaddr1=" crit.eth1dev.uiIP
  | 6 => printIP "netmask=" crit.axDevice0.uiNetMask
  | 7 => printIP "netmask_wlan=" crit.axDevice1.uiNetMask
  | 8 => printIP "netmask1=" crit.eth1dev.uiNetMask
  | 9 => printIP "serverip=" crit.uiIPServer
  | 10 => printIP "gatewayip=" crit.uiIPGateway
  | 11 => printIP "dnsip=" crit.auiIPDNS0
  | 12 => printIP "dnsip2=" crit.auiIPDNS1
  | 13 => printFlag "dhcp=" crit.axDevice0.bDHCP
  | 14 => printFlag "dhcp_wlan=" crit.axDevice1.bDHCP
  | 15 => printFlag "dhcp1=" crit.eth1dev.bDHCP
  | _ => return ()

/-- The loop of `env_printenv_nvram_vars` without a name. -/
def printNvramVars (crit : NvCritical) : List ℕ → Env Unit
  | [] => return ()
  | index :: rest => do
    printNvramVar crit index
    printNvramVars crit rest

/-- `env_printenv_nvram_vars`: one setting, or those from the fourth on. -/
def envPrintenvNvramVars (envType : NvOsType) (varname : Option CString) : Env Unit := do
  match ← ask .nvCriticalGet with
  | none => return ()
  | some crit =>
    match varname with
    | none => printNvramVars crit (List.range' 3 (excludeVars.length - 3))
    | some varname =>
      match envHaveToUseNvram envType varname with
      | some index => printNvramVar crit index.val
      | none => return ()

/-- Print lines. -/
def printLines : List Bytes → Env Unit
  | [] => return ()
  | line :: lines => do
    printLine line
    printLines lines

/-- A variable as it stands in the environment. -/
def varInEnv (data : Bytes) (envlen : ℕ) (var : CString) : Except Fault (Option Bytes) := do
  match ← getVarAddr data 0 envlen var with
  | some varinenv => do
    let line ← loadString data varinenv
    return some line
  | none => return none

/-- The loop of `env_printenv` over a list of names. -/
def printVars (envType : NvOsType) (data : Bytes) (envlen : ℕ) : List CString → Env Unit
  | [] => return ()
  | var :: vars => do
    if envType = .nvosUboot then envPrintenvNvramVars envType (some var)
    let varinenv ← lift (varInEnv data envlen var)
    printLines varinenv.toList
    printVars envType data envlen vars

/-- `env_printenv` as `main` calls it for `--dump` and `--print`. -/
def envPrintenv (envType : NvOsType) (o : Options) (data : Bytes) (envlen : ℕ) : Env Unit :=
  if o.dump then do
    let lines ← lift (envPrintenvDump data 0 envlen)
    printLines lines
    if envType = .nvosUboot then envPrintenvNvramVars envType none
  else
    match o.printlist with
    | some printlist => printVars envType data envlen (varNames printlist)
    | none => return ()

/-- The kind of section, by the name of the program without its directory. -/
def envTypeOf (argv0 : CString) : Option NvOsType :=
  let cmdname := (argv0.val.reverse.takeWhile (· ≠ 47)).reverse
  if cmdname = text "ubootenv" then some .nvosUboot
  else if cmdname = text "prodinfoenv" then some .nvosProdInfo
  else none

/-- There is no such section. -/
def notDetected (envType : NvOsType) : Env (Option ℕ) := do
  printErr (text "Unable to detect " ++ envOsTypeToString envType ++
    text " environment in flash\n")
  return none

/-- Add a missing section, and try again to find it. -/
def addSection (prodInfoDataSize : ℕ) (envType : NvOsType) : Env (Option ℕ) := do
  if ← ask (.nvOSCfgAdd envType (envDefaultSizes prodInfoDataSize envType)) then
    match ← ask (.nvOSCfgFind envType) with
    | some uiSize => return some uiSize
    | none => notDetected envType
  else do
    printErr (text "Unable to add missing " ++ envOsTypeToString envType ++
      text " environment to flash\n")
    return none

/-- Find the section, and add a missing one for `--clean`. -/
def findSection (prodInfoDataSize : ℕ) (envType : NvOsType) (clean : Bool) : Env (Option ℕ) := do
  if ← ask .nvInit then
    match ← ask (.nvOSCfgFind envType) with
    | some uiSize => return some uiSize
    | none =>
      if clean && envDefaultSizes prodInfoDataSize envType ≠ 0 then
        addSection prodInfoDataSize envType
      else notDetected envType
  else do
    printErr (text "Unable to initialize nvram\n")
    return none

/-- `env_onetime_writable() && !env_validate(env, envlen, 0) && !env_is_empty(env, envlen)`. -/
def alreadyWritten (envType : NvOsType) (env : EnvT) (envlen : ℕ) : Env Bool := do
  if envOnetimeWritable envType then
    if ← envValidate env envlen false then return false
    else do
      let empty ← lift (envIsEmpty env.data envlen)
      return !empty
  else return false

/-- The message for a block that has been written before. -/
def onetimeMessage : Bytes := text "Environment is one-time writable only\n"

/-- The block to work on: cleared, or as it is stored when it is valid. -/
def checkEnv (envType : NvOsType) (o : Options) (env : EnvT) (uiSize : ℕ) :
    Env (Option EnvT) := do
  let written ← alreadyWritten envType env (envLen uiSize)
  if written && o.modifies then do
    printErr onetimeMessage
    return none
  else if o.clean then return some (EnvT.ofBlock (List.replicate uiSize 0))
  else if ← envValidate env (envLen uiSize) true then do
    printErr (text "Invalid " ++ envOsTypeToString envType ++ text " environment found\n")
    return none
  else return some env

/-- The part for `--fileadd`. -/
def addFromFile (envType : NvOsType) (fileadd : Option CString) (data : Bytes) (envlen : ℕ) :
    Env (Option Bytes) :=
  match fileadd with
  | some file => do
    let (result, data) ← envAddVarsFromFile envType file data envlen
    if result < 0 then do
      printErr (text "Unable to add " ++ envOsTypeToString envType ++
        text " environment from file " ++ file.val ++ text "\n")
      return none
    else return some data
  | none => return some data

/-- The part for `--erase`. -/
def eraseFromList (eraselist : Option CString) (data : Bytes) (envlen : ℕ) : Env Bytes :=
  match eraselist with
  | some varlist => envRemoveVarlist varlist data envlen
  | none => return data

/-- The part for `--set`. -/
def setVariable (envType : NvOsType) (setstring : Option CString) (data : Bytes) (envlen : ℕ) :
    Env (Option Bytes) :=
  match setstring with
  | some varstring => do
    let (failed, data) ← envAddVar envType varstring data envlen
    if failed ≠ 0 then do
      printErr (text "Unable to add environment variable " ++ varstring.val ++ text "\n")
      return none
    else return some data
  | none => return some data

/-- The parts that change the variables. -/
def modifyEnv (envType : NvOsType) (o : Options) (data : Bytes) (envlen : ℕ) :
    Env (Option Bytes) := do
  match ← addFromFile envType o.fileadd data envlen with
  | none => return none
  | some data => do
    let data ← eraseFromList o.eraselist data envlen
    setVariable envType o.setstring data envlen

/-- A block with the checksum of its data. -/
def sealBlock (crc : BitVec 32) (data : Bytes) : Bytes := ulongCells crc ++ data

/-- The part that stores the block. `NvSave` is called whatever `NvOSCfgSet`
has returned. -/
def saveEnv (envType : NvOsType) (data : Bytes) (envlen : ℕ) : Env ℤ := do
  let crc ← lift (crcOver data envlen)
  let wasSet ← ask (.nvOSCfgSet envType (sealBlock crc data))
  if !wasSet then
    printErr (text "Unable to set " ++ envOsTypeToString envType ++
      text " environment to store in flash\n")
  let saved ← ask .nvSave
  if !saved then
    printErr (text "Unable to save " ++ envOsTypeToString envType ++
      text " environment in flash\n")
  return if wasSet && saved then exitSuccess else exitFailure

/-- The last two parts. The flag `save_env` is set by each of the four parts that
`modifies` asks for. -/
def printAndSave (envType : NvOsType) (o : Options) (data : Bytes) (envlen : ℕ) : Env ℤ := do
  envPrintenv envType o data envlen
  if o.modifies then saveEnv envType data envlen else return exitSuccess

/-- From the allocated block to `free_and_ret`. -/
def withEnv (envType : NvOsType) (o : Options) (uiSize : ℕ) : Env ℤ := do
  match ← ask (.nvOSCfgGet envType uiSize) with
  | none => do
    printErr (text "Unable to get " ++ envOsTypeToString envType ++
      text " environment from flash\n")
    return exitFailure
  | some cells =>
    let block := cells ++ List.replicate (uiSize - cells.length) 0
    match ← checkEnv envType o (EnvT.ofBlock block) uiSize with
    | none => return exitFailure
    | some env =>
      match ← modifyEnv envType o env.data (envLen uiSize) with
      | none => return exitFailure
      | some data => printAndSave envType o data (envLen uiSize)

/-- `main` once the kind of section is known. -/
def mainOf (prodInfoDataSize : ℕ) (envType : NvOsType) (argv : List Opt) : Env ℤ := do
  let o ← processOptions envType argv
  match ← findSection prodInfoDataSize envType o.clean with
  | none => return exitFailure
  | some uiSize =>
    if ← ask (.malloc uiSize) then do
      let status ← withEnv envType o uiSize
      ask .free
      return status
    else do
      ask (.perror (text "malloc"))
      return exitFailure

/-- `main`, with the name of the program and its options. -/
def main (prodInfoDataSize : ℕ) (argv0 : CString) (argv : List Opt) : Env ℤ :=
  match envTypeOf argv0 with
  | some envType => mainOf prodInfoDataSize envType argv
  | none => do
    printErr (text "This application can be invoked as:\nubootenv\nprodinfoenv\n\n")
    return exitFailure

end MetaDigi.EnvMain
