import MetaDigi.EnvNvram

/-!
# The work buffers of the environment functions

Names and settings are copied into arrays of 50 and 51 cells. What the
functions do without these arrays is defined first. With them a short name or
setting makes no difference, and a longer one is not refused: it is written
beyond the array.
-/

namespace MetaDigi.EnvBuffers

open CheckedMemory CStrings EnvEdits EnvFuncs EnvMain EnvNvram EnvScan EnvStore SystemProgram
open Prog (ret_andThen exit_andThen)

/-- `remove_var` behind the lookup. -/
def removeAt (mem : Bytes) (till : ℕ) : Option ℕ → Except Fault (Bool × Bytes)
  | none => return (false, mem)
  | some varAddr => do
    match ← getEndMark mem varAddr till with
    | none => return (false, mem)
    | some envEnd =>
      match ← getNextEnvString mem varAddr till with
      | none => return (false, mem)
      | some varEnd =>
        let count := envEnd + 1 - varEnd
        let mem ← copyCells mem varAddr varEnd count
        let mem ← storeAll mem (varAddr + count)
          (List.replicate (envEnd + 1 - (varAddr + count)) 0)
        return (true, mem)

/-- The lookup of a name without its array. -/
def addrOfName (mem : Bytes) (from' till : ℕ) (name : Bytes) : Except Fault (Option ℕ) :=
  searchVar mem till (name ++ [varAsign]) (mem.length - from') from'

/-- `remove_var` without the array of the lookup. -/
def removeName (mem : Bytes) (from' till : ℕ) (name : Bytes) : Except Fault (Bool × Bytes) := do
  removeAt mem till (← addrOfName mem from' till name)

/-- `add_var` without arrays. -/
def addString (mem : Bytes) (from' till : ℕ) (varStr : CString) : Except Fault (Bool × Bytes) := do
  match ← addrOfName mem from' till (varName varStr).val with
  | none => appendVar mem from' till varStr
  | some varAddr =>
    let (removed, mem) ← removeName mem varAddr till (varName varStr).val
    if removed then appendVar mem from' till varStr else return (false, mem)

/-- `env_add_var` without arrays. -/
def envAddString (envType : NvOsType) (varstring : CString) (data : Bytes) (envlen : ℕ) :
    Env (ℤ × Bytes) :=
  if varAsign ∈ varstring.val then
    match settingOf envType varstring with
    | some setting => do
      if ← ask (.nvCmdLine (settingCmd setting)) then return (0, data) else return (-eInval, data)
    | none => do
      let (added, data) ← lift (addString data 0 envlen varstring)
      if added then return (0, data) else return (-eInval, data)
  else return (-eInval, data)

/-- The name, or the network setting that it stands for, has 50 characters or
more. -/
def TooLong (envType : NvOsType) (varstring : CString) : Prop :=
  varAsign ∈ varstring.val ∧ (envMaxVarNameLen ≤ (varName varstring).val.length ∨
    ∃ setting ∈ settingOf envType varstring, envMaxVarNameLen ≤ setting.length)

instance (envType : NvOsType) (varstring : CString) : Decidable (TooLong envType varstring) :=
  inferInstanceAs (Decidable (_ ∧ (_ ∨ _)))

/-- `env_add_var` stays inside its arrays: on every block it runs as without
them, or refuses what is too long. -/
def AddsInside (envType : NvOsType) (varstring : CString) : Prop :=
  ∀ data envlen, envAddVar envType varstring data envlen =
    if TooLong envType varstring then return (-eInval, data)
    else envAddString envType varstring data envlen

/-- `remove_var` stays inside its array: on every block it runs as without it,
or refuses a name that is too long. -/
def RemovesInside (var : CString) : Prop :=
  ∀ data envlen, removeVar data 0 envlen var =
    if envMaxVarNameLen ≤ var.val.length then return (false, data)
    else removeName data 0 envlen var.val

section Short

variable {name : CString} (hshort : name.val.length < envMaxVarNameLen) (mem : Bytes)
  (from' till : ℕ)

include hshort

/-- The array of the lookup holds a short name. -/
theorem getVarAddr_short :
    getVarAddr mem from' till name = addrOfName mem from' till name.val := by
  obtain ⟨cells, hstore, htext⟩ := searchedText hshort
  simp only [getVarAddr, hstore, bind, Except.bind, htext]
  rfl

theorem removeVar_short :
    removeVar mem from' till name = removeName mem from' till name.val := by
  have hlookup := getVarAddr_short hshort mem from' till
  change (getVarAddr mem from' till name >>= removeAt mem till) = _
  rw [hlookup]
  rfl

end Short

section Add

variable {envType : NvOsType} {varstring : CString} (hsign : varAsign ∈ varstring.val)

include hsign

/-- The arrays of `add_var` hold a short name. -/
theorem addVar_short (hshort : (varName varstring).val.length < envMaxVarNameLen) (mem : Bytes)
    (from' till : ℕ) : addVar mem from' till varstring = addString mem from' till varstring := by
  obtain ⟨cells, hname, hcells, -⟩ := getVarName_short hsign hshort
  have harray : getVarName varstring (List.replicate envMaxVarNameLen 0) varAsign =
      .ok (true, cells) := hname
  simp only [addVar, harray, bind, Except.bind, if_true, hcells, getVarAddr_short hshort,
    removeVar_short hshort]
  rfl

/-- A network setting that is short enough is handed to the NVRAM. -/
theorem envAddVar_shortSetting {setting : Bytes} (data : Bytes) (envlen : ℕ)
    (hshort : (varName varstring).val.length < envMaxVarNameLen)
    (hsetting : settingOf envType varstring = some setting)
    (hfits : setting.length < envMaxVarNameLen) :
    envAddVar envType varstring data envlen = (do
      if ← ask (.nvCmdLine (settingCmd setting)) then return (0, data)
      else return (-eInval, data)) := by
  obtain ⟨cells, hlen, hprog⟩ := envAddVar_eq data envlen hsign hshort hsetting
  obtain ⟨stored, hstore, hstored⟩ := setting_stored (settingOf_clean hsetting) hlen hfits
  rw [hprog, hstore, lift_ok, ret_andThen, hstored]

/-- What is too long is written beyond an array. -/
theorem envAddVar_tooLong (data : Bytes) (envlen : ℕ)
    (hlong : envMaxVarNameLen ≤ (varName varstring).val.length ∨
      ∃ setting ∈ settingOf envType varstring, envMaxVarNameLen ≤ setting.length) :
    envAddVar envType varstring data envlen = .exit (.fault (.write envMaxVarNameLen)) := by
  by_cases hshort : (varName varstring).val.length < envMaxVarNameLen
  · obtain ⟨setting, hsetting, hover⟩ := hlong.resolve_left (Nat.not_le_of_lt hshort)
    obtain ⟨cells, hlen, hprog⟩ := envAddVar_eq data envlen hsign hshort hsetting
    rw [hprog, setting_overrun hlen hover, lift_error, exit_andThen]
  · have hname : getVarName varstring (List.replicate 50 0) varAsign = _ :=
      getVarName_long hsign (Nat.le_of_not_lt hshort)
    rw [envAddVar, hname]
    rfl

end Add

variable (envType : NvOsType) (varstring : CString)

/-- A string that is not too long is added as without arrays. -/
theorem envAddVar_short (h : ¬TooLong envType varstring) (data : Bytes) (envlen : ℕ) :
    envAddVar envType varstring data envlen = envAddString envType varstring data envlen := by
  by_cases hsign : varAsign ∈ varstring.val
  swap
  · have hname := getVarName_none hsign (List.replicate 50 0)
    rw [envAddVar, hname, envAddString, if_neg hsign]
    rfl
  have hboth : ¬(envMaxVarNameLen ≤ (varName varstring).val.length ∨
      ∃ setting ∈ settingOf envType varstring, envMaxVarNameLen ≤ setting.length) :=
    fun hlong => h ⟨hsign, hlong⟩
  obtain ⟨hname, hsettings⟩ := not_or.mp hboth
  have hshort := Nat.lt_of_not_le hname
  rw [envAddString, if_pos hsign]
  cases hsetting : settingOf envType varstring with
  | some setting =>
    have hfits : setting.length < envMaxVarNameLen :=
      Nat.lt_of_not_le fun hover => hsettings ⟨setting, hsetting, hover⟩
    exact envAddVar_shortSetting hsign data envlen hshort hsetting hfits
  | none =>
    obtain ⟨cells, hcells, htext, -⟩ := getVarName_short hsign hshort
    rw [envAddVar, hcells]
    simp only [lift_ok, ret_andThen, if_true, htext, Option.map_eq_none_iff.mp hsetting,
      addVar_short hsign hshort]

/-- `env_add_var` stays inside its arrays exactly on strings that are not too
long. -/
theorem addsInside_iff : AddsInside envType varstring ↔ ¬TooLong envType varstring := by
  constructor
  · intro hinside hlong
    have hrun := hinside [] 0
    rw [if_pos hlong, envAddVar_tooLong hlong.1 [] 0 hlong.2] at hrun
    cases hrun
  · intro hshort data envlen
    rw [if_neg hshort]
    exact envAddVar_short envType varstring hshort data envlen

/-- `remove_var` stays inside its array exactly on names of at most 49
characters. -/
theorem removesInside_iff (var : CString) :
    RemovesInside var ↔ var.val.length < envMaxVarNameLen := by
  constructor
  · intro hinside
    by_contra hlong
    have hover := Nat.le_of_not_lt hlong
    have hrun := hinside [] 0
    have hfault : removeVar [] 0 0 var = .error (.write (envMaxVarNameLen + 1)) := by
      rw [removeVar, getVarAddr_long hover]
      rfl
    rw [if_pos hover, hfault] at hrun
    cases hrun
  · intro hshort data envlen
    rw [if_neg (Nat.not_le_of_lt hshort)]
    exact removeVar_short hshort data 0 envlen

/-- The arrays are not left exactly when neither the string to add nor any name
of the list to erase is too long. -/
theorem staysInside_iff (varlist : CString) :
    (AddsInside envType varstring ∧ ∀ var ∈ varNames varlist, RemovesInside var) ↔
      ¬TooLong envType varstring ∧
        ∀ var ∈ varNames varlist, var.val.length < envMaxVarNameLen := by
  rw [addsInside_iff]
  exact and_congr_right fun _ => forall₂_congr fun var _ => removesInside_iff var

/-- A name of 50 characters is neither stored inside `tmpstr` nor refused. -/
theorem name_beyond_tmpstr :
    ¬AddsInside .nvosUboot ⟨List.replicate 50 97 ++ text "=", by decide⟩ := by
  intro hinside
  have hrun := hinside [] 0
  have hlong : TooLong .nvosUboot ⟨List.replicate 50 97 ++ text "=", by decide⟩ := by decide
  rw [if_pos hlong, envAddVar_tooLong hlong.1 [] 0 hlong.2] at hrun
  cases hrun

end MetaDigi.EnvBuffers
