import MetaDigi.CStrings

/-!
# The environment functions

The variables of an environment lie one after the other in `[from, till)`,
each closed by a NUL, and one more NUL closes the last one. Pointers are
indices into the block; every dereference is checked against its end.
Function results `1` and `0` are `true` and `false`, a NULL pointer is `none`.
-/

namespace MetaDigi.EnvFuncs

open CheckedMemory CStrings

/-- `VAR_ASIGN`: the character between the name and the value, `'='`. -/
def varAsign : UInt8 := 61

/-- `ENV_MAX_VAR_NAME_LEN`: the size of the arrays that take a name. -/
def envMaxVarNameLen : ℕ := 50

/-- `get_var_name`: copy the part of a variable string in front of the first
separator into an array of the caller and close it with a NUL. -/
def getVarName (from' : CString) (varName : Bytes) (sep : UInt8) :
    Except Fault (Bool × Bytes) :=
  match strchr from'.val sep with
  | some separator => do
    let varName ← storeAll varName 0 (from'.val.take separator ++ [0])
    return (true, varName)
  | none => return (false, varName)

/-- The scan of `get_next_env_string`, `while (from < till && *from) from++`;
the first argument is the distance to `till`. -/
def skipBefore (mem : Bytes) : ℕ → ℕ → Except Fault ℕ
  | 0, from' => return from'
  | left + 1, from' => do
    let c ← load mem from'
    if c = 0 then return from' else skipBefore mem left (from' + 1)

/-- `get_next_env_string`: the address behind the terminator of the string,
NULL at the end mark and for a string that reaches `till`. -/
def getNextEnvString (mem : Bytes) (from' till : ℕ) : Except Fault (Option ℕ) := do
  let first ← load mem from'
  if first = 0 then return none
  else
    let stop ← skipBefore mem (till - from') from'
    if stop = till then
      let c ← load mem stop
      -- the string is too long
      if c ≠ 0 then return none else return some (stop + 1)
    else return some (stop + 1)

/-- One turn of the loop of `get_var_addr`: an entry at `data` that begins
with the searched text. The text is found anywhere in the entry first. -/
def entryMatches (mem : Bytes) (data till : ℕ) (varNameTemp : Bytes) : Except Fault Bool := do
  let c ← load mem data
  if c ≠ 0 ∧ data < till then
    let s ← loadString mem data
    return strstr varNameTemp s = some 0
  else return false

/-- The loop of `get_var_addr`. An address at or beyond the end of the block
is read before it is compared, so the search stops there with a fault. -/
def searchVar (mem : Bytes) (till : ℕ) (varNameTemp : Bytes) :
    ℕ → ℕ → Except Fault (Option ℕ)
  | 0, data => .error (.read data)
  | left + 1, data => do
    let found ← entryMatches mem data till varNameTemp
    if found then return (if data < till then some data else none)
    else
      match ← getNextEnvString mem data till with
      | some next => searchVar mem till varNameTemp left next
      | none => return none

/-- `get_var_addr`: the address of the first entry that begins with the name
and an equals sign. The searched text is built in an array of 51 bytes. -/
def getVarAddr (mem : Bytes) (from' till : ℕ) (varName : CString) : Except Fault (Option ℕ) := do
  let varNameTemp ← storeAll (List.replicate (envMaxVarNameLen + 1) 0) 0
    (varName.val ++ [varAsign] ++ [0])
  searchVar mem till (CString.ofCells varNameTemp).val (mem.length - from') from'

/-- The loop of `get_end_mark`; the first argument is the distance to `till`. -/
def searchEnd (mem : Bytes) (till : ℕ) : ℕ → ℕ → Except Fault (Option ℕ)
  | 0, _ => return none
  | left + 1, from' =>
    if from' < till then do
      let stop ← skipChars mem (mem.length - from') from'
      if till ≤ stop then return none
      else
        let c ← load mem (stop + 1)
        if c = 0 then return some (stop + 1) else searchEnd mem till left (stop + 1)
    else return none

/-- `get_end_mark`: the second of two adjacent NULs. -/
def getEndMark (mem : Bytes) (from' till : ℕ) : Except Fault (Option ℕ) :=
  searchEnd mem till (till - from') from'

/-- `remove_var`: move everything behind the entry down over it and clear the
cells that became free. -/
def removeVar (mem : Bytes) (from' till : ℕ) (varName : CString) :
    Except Fault (Bool × Bytes) := do
  match ← getVarAddr mem from' till varName with
  | none => return (false, mem)
  | some varAddr =>
    match ← getEndMark mem varAddr till with
    | none => return (false, mem)
    | some envEnd =>
      match ← getNextEnvString mem varAddr till with
      | none => return (false, mem)
      | some varEnd =>
        let count := envEnd + 1 - varEnd
        let mem ← copyCells mem varAddr varEnd count
        let mem ← storeAll mem (varAddr + count)
          (List.replicate (envEnd + 1 - (varAddr + count)) 0)
        return (true, mem)

/-- The copy loop of `add_var`, `while (var_addr < till && *var_str)`: the
address behind the last byte written, and the block. -/
def appendChars (mem : Bytes) (till : ℕ) : ℕ → Bytes → Except Fault (ℕ × Bytes)
  | varAddr, [] => return (varAddr, mem)
  | varAddr, c :: varStr =>
    if varAddr < till then do
      let mem ← store mem varAddr c
      appendChars mem till (varAddr + 1) varStr
    else return (varAddr, mem)

/-- The second half of `add_var`: append the string over the end mark and
close the environment again. An empty environment starts one byte earlier. -/
def appendVar (mem : Bytes) (from' till : ℕ) (varStr : CString) :
    Except Fault (Bool × Bytes) := do
  match ← getEndMark mem from' till with
  | none => return (false, mem)
  | some endMark =>
    let varAddr := if endMark = from' + 1 then endMark - 1 else endMark
    let (varAddr, mem) ← appendChars mem till varAddr varStr.val
    let mem ← store mem varAddr 0
    let mem ← store mem (varAddr + 1) 0
    return (true, mem)

/-- `add_var`: remove an entry of the same name, then append the new one. -/
def addVar (mem : Bytes) (from' till : ℕ) (varStr : CString) : Except Fault (Bool × Bytes) := do
  let (assigned, varName) ← getVarName varStr (List.replicate envMaxVarNameLen 0) varAsign
  if assigned then
    let varName := CString.ofCells varName
    match ← getVarAddr mem from' till varName with
    | none => appendVar mem from' till varStr
    | some varAddr =>
      let (removed, mem) ← removeVar mem varAddr till varName
      if removed then appendVar mem from' till varStr else return (false, mem)
  else return (false, mem)

/-- The loop of the dump in `env_printenv`: the strings printed from an
address on, until there is no next string or it is empty. -/
def printStrings (mem : Bytes) (till : ℕ) : ℕ → ℕ → Except Fault (List Bytes)
  | 0, data => .error (.read data)
  | left + 1, data => do
    let c ← load mem data
    if c = 0 then return []
    else
      let line ← loadString mem data
      match ← getNextEnvString mem data till with
      | some next =>
        let lines ← printStrings mem till left next
        return line :: lines
      | none => return [line]

/-- `env_printenv` with its dump flag: one line for each variable. -/
def envPrintenvDump (mem : Bytes) (from' till : ℕ) : Except Fault (List Bytes) :=
  printStrings mem till (mem.length - from') from'

end MetaDigi.EnvFuncs
