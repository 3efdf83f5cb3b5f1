import MetaDigi.EnvEdits
import MetaDigi.SystemRuns

/-!
# The NVRAM under the environment tools

The library keeps a working copy of what is in flash. Adding a section, setting
a network parameter and setting a block change the working copy; saving copies
it to flash. Every call may fail, and a call that fails changes nothing. What
the calls answer is an input of a run.
-/

namespace MetaDigi.EnvNvram

open CheckedMemory CStrings EnvEdits EnvFuncs EnvMain EnvScan EnvStore SystemProgram SystemRuns
open Prog (ret_andThen exit_andThen)

/-- What is stored: the configuration sections and the network settings. -/
structure Store (ν : Type) where
  /-- The block of a section. -/
  sections : NvOsType → Option Bytes
  /-- The network settings. -/
  network : ν

/-- The block of a section replaced. -/
def Store.setSection {ν : Type} (store : Store ν) (type : NvOsType) (block : Bytes) : Store ν :=
  { store with sections := Function.update store.sections type (some block) }

/-- The NVRAM during a run. -/
structure World (ν : Type) where
  /-- The working copy. -/
  working : Store ν
  /-- The flash. -/
  flash : Store ν
  /-- How often `NvOSCfgFind` has been called. -/
  finds : ℕ
  /-- How often `NvCmdLine` has been called. -/
  cmds : ℕ

/-- When a run begins. -/
def started {ν : Type} (working flash : Store ν) : World ν := ⟨working, flash, 0, 0⟩

/-- What the calls of a run answer. -/
structure Answers (ν : Type) where
  /-- Whether `NvInit` succeeds. -/
  nvInit : Bool
  /-- Whether a call of `NvOSCfgFind` finds a section that is there. -/
  nvOSCfgFind : ℕ → Bool
  /-- The cells of a section that `NvOSCfgAdd` adds, unless it fails. -/
  nvOSCfgAdd : Option (ℕ → UInt8)
  /-- Whether `NvOSCfgGet` succeeds. -/
  nvOSCfgGet : Bool
  /-- Whether `NvOSCfgSet` succeeds. -/
  nvOSCfgSet : Bool
  /-- The network settings after a call of `NvCmdLine`, unless it fails. -/
  nvCmdLine : ℕ → List Bytes → ν → Option ν
  /-- Whether `NvSave` succeeds. -/
  nvSave : Bool
  /-- What `NvCriticalGet` answers. -/
  nvCriticalGet : Option NvCritical
  /-- What `NvToStringIP` answers. -/
  nvToStringIP : BitVec 32 → Bytes
  /-- Whether there is memory. -/
  malloc : Bool
  /-- The files. -/
  fopen : Bytes → Opened

variable {ν : Type}

/-- The system that a run talks to. -/
def handler (a : Answers ν) : Handler EnvOp EnvResp (World ν)
  | .fprintf _ _, w => ((), w)
  | .perror _, w => ((), w)
  | .showUsage _, w => ((), w)
  | .nvInit, w => if a.nvInit then (true, { w with working := w.flash }) else (false, w)
  | .nvOSCfgFind type, w =>
    (if a.nvOSCfgFind w.finds then (w.working.sections type).map List.length else none,
      { w with finds := w.finds + 1 })
  | .nvOSCfgAdd type size, w =>
    match a.nvOSCfgAdd with
    | some cells =>
      (true, { w with working := w.working.setSection type ((List.range size).map cells) })
    | none => (false, w)
  | .nvOSCfgGet type size, w =>
    (if a.nvOSCfgGet then (w.working.sections type).map (List.take size) else none, w)
  | .nvOSCfgSet type env, w =>
    if a.nvOSCfgSet then (true, { w with working := w.working.setSection type env })
    else (false, w)
  | .nvCmdLine argv, w =>
    match a.nvCmdLine w.cmds argv w.working.network with
    | some network =>
      (true, { w with working := { w.working with network := network }, cmds := w.cmds + 1 })
    | none => (false, { w with cmds := w.cmds + 1 })
  | .nvSave, w => if a.nvSave then (true, { w with flash := w.working }) else (false, w)
  | .nvCriticalGet, w => (a.nvCriticalGet, w)
  | .nvToStringIP ip, w => (a.nvToStringIP ip, w)
  | .malloc _, w => (a.malloc, w)
  | .free, w => ((), w)
  | .fopen filename, w => (a.fopen filename, w)
  | .fclose, w => ((), w)

/-- What a run works on: the data of its block, and the network settings. -/
structure Draft (ν : Type) where
  /-- The data of the block. -/
  data : Bytes
  /-- The network settings of the working copy. -/
  network : ν
  /-- How often they have been changed. -/
  cmds : ℕ

/-- The NVRAM with the settings of a draft. -/
def World.withDraft (w : World ν) (d : Draft ν) : World ν :=
  { w with working := { w.working with network := d.network }, cmds := d.cmds }

/-- The draft of a run that has this data. -/
def World.draft (w : World ν) (data : Bytes) : Draft ν := ⟨data, w.working.network, w.cmds⟩

/-- The call that stores a network setting. -/
def settingCmd (setting : Bytes) : List Bytes := [text "set", text "network", setting]

/-- An edit of a draft: where it leaves an array, or nothing when the program
does not go on with the next one. -/
def editDraft (a : Answers ν) (envType : NvOsType) (envlen : ℕ) (d : Draft ν) :
    Edit → Except Fault (Option (Draft ν))
  | .add varstring =>
    if varAsign ∉ varstring.val then .ok none
    else if envMaxVarNameLen ≤ (varName varstring).val.length then
      .error (.write envMaxVarNameLen)
    else
      match settingOf envType varstring with
      | some setting =>
        if envMaxVarNameLen ≤ setting.length then .error (.write envMaxVarNameLen)
        else .ok ((a.nvCmdLine d.cmds (settingCmd setting) d.network).map fun network =>
          { d with network := network, cmds := d.cmds + 1 })
      | none => do
        let (added, data) ← addVar d.data 0 envlen varstring
        return if added then some { d with data := data } else none
  | .remove var => do
    let (_, data) ← removeVar d.data 0 envlen var
    return some { d with data := data }
  | .emptyLine => .error (.read (2 ^ 32 - 1))
  | .unreadable => .ok none

/-- Edits one after the other. -/
def draftEdits (a : Answers ν) (envType : NvOsType) (envlen : ℕ) :
    List Edit → Draft ν → Except Fault (Option (Draft ν))
  | [], d => .ok (some d)
  | e :: es, d => do
    match ← editDraft a envType envlen d e with
    | some d => draftEdits a envType envlen es d
    | none => return none

theorem lift_ok {α : Type} (a : α) : lift (.ok a) = .ret a := rfl

theorem lift_error {α : Type} (f : Fault) : (lift (.error f) : Env α) = .exit (.fault f) := rfl

section AddVar

variable {envType : NvOsType} {varstring : CString}

/-- The setting that is found has the name that is looked for. -/
theorem excluded_name {varname : CString} {j : Fin excludeVars.length}
    (h : envHaveToUseNvram envType varname = some j) : (excludeVars.get j).1 = varname.val := by
  unfold envHaveToUseNvram at h
  split at h
  · have hindex : excludeVars.findIdx? (fun vars => vars.1 = varname.val) = some j.val := by
      rw [List.findIdx?_eq_map_findFinIdx?_val, h, Option.map_some]
    obtain ⟨hlt, hname, -⟩ := List.findIdx?_eq_some_iff_getElem.mp hindex
    simpa using hname
  · cases h

/-- The names of the settings are not empty, and there is no NUL in them. -/
theorem excludeVars_clean : ∀ vars ∈ excludeVars, vars.1 ≠ [] ∧ (0 : UInt8) ∉ vars.2 := by
  decide

/-- `get_var_value` for a setting answers what follows its name. -/
theorem getVarValue_excluded {j : Fin excludeVars.length} (hsign : varAsign ∈ varstring.val)
    (hj : envHaveToUseNvram envType (varName varstring) = some j) :
    getVarValue varstring.val (excludeVars.get j).1 varAsign =
      some (varstring.val.drop ((varName varstring).val.length + 1)) := by
  have hne := (excludeVars_clean (excludeVars.get j) (List.get_mem ..)).1
  rw [excluded_name hj] at hne ⊢
  have hstart : strstr (varName varstring).val varstring.val = some 0 :=
    (strstr_eq_zero_iff _ _).mpr (List.takeWhile_prefix _)
  have hpos : 0 < (varName varstring).val.length := List.length_pos_iff.mpr hne
  simp only [getVarValue, strchr_varstring hsign, hstart, hpos, if_true]

/-- There is no NUL in a setting. -/
theorem settingOf_clean {setting : Bytes} (h : settingOf envType varstring = some setting) :
    (0 : UInt8) ∉ setting := by
  obtain ⟨j, -, hj⟩ := Option.map_eq_some_iff.mp h
  have hvar := (excludeVars_clean (excludeVars.get j) (List.get_mem ..)).2
  rw [← hj]
  intro hmem
  rcases List.mem_append.mp hmem with hmem | hmem
  · rcases List.mem_append.mp hmem with hmem | hmem
    · exact hvar hmem
    · exact absurd (List.mem_singleton.mp hmem) (by decide)
  · exact varstring.property (List.mem_of_mem_drop hmem)

/-- `tmpstr` after the setting has been written to it. -/
theorem setting_stored {setting cells : Bytes} (hclean : (0 : UInt8) ∉ setting)
    (hcells : cells.length = 50) (hshort : setting.length < envMaxVarNameLen) :
    ∃ stored, storeAll cells 0 (setting ++ [0]) = .ok stored ∧
      (CString.ofCells stored).val = setting := by
  have hfits : (setting ++ [0] : Bytes).length ≤ cells.length := by
    rw [List.length_append, List.length_singleton, hcells]
    exact hshort
  refine ⟨_, storeAll_fits hfits, ?_⟩
  rw [List.append_assoc]
  exact CString.ofCells_string hclean _

/-- A setting that is too long is written beyond `tmpstr`. -/
theorem setting_overrun {setting cells : Bytes} (hcells : cells.length = 50)
    (hlong : envMaxVarNameLen ≤ setting.length) :
    storeAll cells 0 (setting ++ [0]) = .error (.write envMaxVarNameLen) := by
  have hover : cells.length < 0 + (setting ++ [0] : Bytes).length := by
    rw [List.length_append, List.length_singleton, hcells]
    change 50 ≤ setting.length at hlong
    omega
  rw [storeAll_overrun (Nat.zero_le _) hover, hcells]
  rfl

end AddVar

/-- A part of a run that adds variables ends as the edits of the draft do: with
their fault, with a negative result or not at all, or with their data. -/
def Adds (a : Answers ν) (p : Env (ℤ × Bytes)) (w : World ν) :
    Except Fault (Option (Draft ν)) → Prop
  | .error f => ∃ w', Ends (handler a) p w (.exit (.fault f)) w' ∧ w'.flash = w.flash
  | .ok none =>
    ∃ w', ((∃ code data, code < 0 ∧ Ends (handler a) p w (.ret (code, data)) w') ∨
      Ends (handler a) p w .hang w') ∧ w'.flash = w.flash
  | .ok (some d) => Ends (handler a) p w (.ret (0, d.data)) (w.withDraft d)

/-- What a part returns when it refuses a variable. -/
theorem adds_refused {a : Answers ν} {p : Env (ℤ × Bytes)} {w w' : World ν} {data : Bytes}
    (hp : Ends (handler a) p w (.ret (-eInval, data)) w') (hflash : w'.flash = w.flash) :
    Adds a p w (.ok none) :=
  ⟨w', .inl ⟨-eInval, data, by decide, hp⟩, hflash⟩

/-- A part goes on after a first one that has left a draft. -/
theorem adds_andThen {a : Answers ν} {β : Type} {p : Env β} {f : β → Env (ℤ × Bytes)} {b : β}
    {w : World ν} {d : Draft ν} {r : Except Fault (Option (Draft ν))}
    (hp : Ends (handler a) p w (.ret b) (w.withDraft d)) (hf : Adds a (f b) (w.withDraft d) r) :
    Adds a (p >>= f) w r := by
  match r, hf with
  | .error f, ⟨w', hw', hflash⟩ => exact ⟨w', hp.andThen hw', hflash⟩
  | .ok none, ⟨w', .inl ⟨code, data, hcode, hw'⟩, hflash⟩ =>
    exact ⟨w', .inl ⟨code, data, hcode, hp.andThen hw'⟩, hflash⟩
  | .ok none, ⟨w', .inr hw', hflash⟩ => exact ⟨w', .inr (hp.andThen hw'), hflash⟩
  | .ok (some d), hw' => exact hp.andThen hw'

/-- A part that is followed by one which passes its result on. -/
theorem adds_passed {a : Answers ν} {p : Env (ℤ × Bytes)} {f : ℤ × Bytes → Env (ℤ × Bytes)}
    {w : World ν} {r : Except Fault (Option (Draft ν))} (hp : Adds a p w r)
    (hf : ∀ x w', Ends (handler a) (f x) w' (.ret x) w') : Adds a (p >>= f) w r := by
  match r, hp with
  | .error f, ⟨w', hw', hflash⟩ => exact ⟨w', hw'.andThen_exit, hflash⟩
  | .ok none, ⟨w', .inl ⟨code, data, hcode, hw'⟩, hflash⟩ =>
    exact ⟨w', .inl ⟨code, data, hcode, hw'.andThen (hf _ _)⟩, hflash⟩
  | .ok none, ⟨w', .inr hw', hflash⟩ => exact ⟨w', .inr hw'.andThen_hang, hflash⟩
  | .ok (some d), hw' => exact hw'.andThen (hf _ _)

section EnvAddVar

variable (a : Answers ν) {envType : NvOsType} {varstring : CString} (data : Bytes) (envlen : ℕ)
  (w : World ν)

/-- A variable of the block. -/
theorem envAddVar_variable (hsign : varAsign ∈ varstring.val)
    (hshort : (varName varstring).val.length < envMaxVarNameLen)
    (hsetting : settingOf envType varstring = none) :
    Adds a (envAddVar envType varstring data envlen) w
      (editDraft a envType envlen (w.draft data) (.add varstring)) := by
  obtain ⟨cells, hname, hcells, -⟩ := getVarName_short hsign hshort
  have hj := Option.map_eq_none_iff.mp hsetting
  have hprog : envAddVar envType varstring data envlen = (do
      let (added, data) ← lift (addVar data 0 envlen varstring)
      if added then return (0, data) else return (-eInval, data)) := by
    rw [envAddVar, hname]
    simp only [lift_ok, ret_andThen, if_true, hcells, hj]
  have hedit : editDraft a envType envlen (w.draft data) (.add varstring) = (do
      let (added, data') ← addVar data 0 envlen varstring
      return if added then some { w.draft data with data := data' } else none) := by
    simp only [editDraft, hsign, not_true_eq_false, if_false, Nat.not_le_of_lt hshort, hsetting]
    rfl
  rw [hprog, hedit]
  cases hadd : addVar data 0 envlen varstring with
  | error f => exact ⟨w, ends_exit _ _, rfl⟩
  | ok added =>
    obtain ⟨added, data'⟩ := added
    cases added with
    | false => exact adds_refused (ends_ret _ _) rfl
    | true => exact ends_ret _ _

/-- `NvCmdLine` with a setting: what it returns is what `env_add_var` tells. -/
theorem nvCmdLine_adds (setting : Bytes) :
    Adds a (do
      if ← ask (.nvCmdLine (settingCmd setting)) then return (0, data)
      else return (-eInval, data)) w
      (.ok ((a.nvCmdLine w.cmds (settingCmd setting) w.working.network).map fun network =>
        ⟨data, network, w.cmds + 1⟩)) := by
  cases hcmd : a.nvCmdLine w.cmds (settingCmd setting) w.working.network with
  | none =>
    have hanswer : handler a (.nvCmdLine (settingCmd setting)) w =
        (false, { w with cmds := w.cmds + 1 }) := by
      simp only [handler, hcmd]
    have hcall : Ends (handler a) (do
        if ← ask (.nvCmdLine (settingCmd setting)) then return (0, data)
        else return (-eInval, data)) w (.ret (-eInval, data)) { w with cmds := w.cmds + 1 } := by
      refine ends_call ?_
      rw [hanswer]
      exact ends_ret _ _
    exact adds_refused hcall rfl
  | some network =>
    have hanswer : handler a (.nvCmdLine (settingCmd setting)) w =
        (true, w.withDraft ⟨data, network, w.cmds + 1⟩) := by
      simp only [handler, hcmd, World.withDraft]
    refine ends_call ?_
    rw [hanswer]
    exact ends_ret _ _

/-- Adding a network setting writes its text to an array and hands it to the NVRAM. -/
theorem envAddVar_eq {setting : Bytes} (data : Bytes) (envlen : ℕ)
    (hsign : varAsign ∈ varstring.val)
    (hshort : (varName varstring).val.length < envMaxVarNameLen)
    (hsetting : settingOf envType varstring = some setting) :
    ∃ cells : Bytes, cells.length = envMaxVarNameLen ∧
      envAddVar envType varstring data envlen = (do
        let tmpstr ← lift (storeAll cells 0 (setting ++ [0]))
        if ← ask (.nvCmdLine (settingCmd (CString.ofCells tmpstr).val)) then return (0, data)
        else return (-eInval, data)) := by
  obtain ⟨cells, hname, hcells, hlen⟩ := getVarName_short hsign hshort
  obtain ⟨j, hj, hset⟩ := Option.map_eq_some_iff.mp hsetting
  have hvalue := getVarValue_excluded hsign hj
  rw [List.get_eq_getElem] at hvalue hset
  refine ⟨cells, hlen, ?_⟩
  rw [envAddVar, hname]
  simp only [lift_ok, ret_andThen, if_true, hcells, hj, Fin.getElem_fin, hvalue, hset]
  rfl

/-- A variable that is a network setting. -/
theorem envAddVar_setting {setting : Bytes} (hsign : varAsign ∈ varstring.val)
    (hshort : (varName varstring).val.length < envMaxVarNameLen)
    (hsetting : settingOf envType varstring = some setting) :
    Adds a (envAddVar envType varstring data envlen) w
      (editDraft a envType envlen (w.draft data) (.add varstring)) := by
  obtain ⟨cells, hlen, hprog⟩ := envAddVar_eq data envlen hsign hshort hsetting
  rw [hprog]
  simp only [editDraft, hsign, not_true_eq_false, if_false, Nat.not_le_of_lt hshort, hsetting]
  by_cases hfits : setting.length < envMaxVarNameLen
  · obtain ⟨stored, hstore, hstored⟩ := setting_stored (settingOf_clean hsetting) hlen hfits
    rw [if_neg (Nat.not_le_of_lt hfits), hstore, lift_ok, ret_andThen, hstored]
    exact nvCmdLine_adds a data w setting
  · have hlong := Nat.le_of_not_lt hfits
    rw [if_pos hlong, setting_overrun hlen hlong]
    exact ⟨w, ends_exit _ _, rfl⟩

variable (envType varstring)

/-- `env_add_var` is the edit that adds a variable. -/
theorem envAddVar_adds :
    Adds a (envAddVar envType varstring data envlen) w
      (editDraft a envType envlen (w.draft data) (.add varstring)) := by
  by_cases hsign : varAsign ∈ varstring.val
  swap
  · have hname := getVarName_none hsign (List.replicate 50 0)
    have hprog : envAddVar envType varstring data envlen = .ret (-eInval, data) := by
      rw [envAddVar, hname]
      rfl
    simp only [editDraft, hsign, not_false_eq_true, if_true, hprog]
    exact adds_refused (ends_ret _ _) rfl
  by_cases hshort : (varName varstring).val.length < envMaxVarNameLen
  swap
  · have hlong := Nat.le_of_not_lt hshort
    have hname : getVarName varstring (List.replicate 50 0) varAsign = _ :=
      getVarName_long hsign hlong
    have hprog : envAddVar envType varstring data envlen =
        .exit (.fault (.write envMaxVarNameLen)) := by
      rw [envAddVar, hname]
      rfl
    simp only [editDraft, hsign, not_true_eq_false, if_false, hlong, if_true, hprog]
    exact ⟨w, ends_exit _ _, rfl⟩
  cases hsetting : settingOf envType varstring with
  | none => exact envAddVar_variable a data envlen w hsign hshort hsetting
  | some setting => exact envAddVar_setting a data envlen w hsign hshort hsetting

end EnvAddVar

/-- The array of a line holds its string, and behind it a NUL. -/
theorem line_split (line : Bytes) :
    ∃ rest, line ++ [0] = (CString.ofCells line).val ++ 0 :: rest := by
  change ∃ rest, line ++ [0] = line.takeWhile (· ≠ 0) ++ 0 :: rest
  induction line with
  | nil => exact ⟨[], rfl⟩
  | cons c line ih =>
    by_cases hc : c = 0
    · exact ⟨line ++ [0], by simp [hc]⟩
    · obtain ⟨rest, hrest⟩ := ih
      refine ⟨rest, ?_⟩
      rw [List.takeWhile_cons_of_pos (by simpa using hc), List.cons_append, List.cons_append, hrest]

/-- Where `chopNewline` looks for the last character. -/
theorem chopNewline_eq {line : Bytes} {last : ℕ}
    (hlast : ((CString.ofCells line).val.length + 2 ^ 32 - 1) % 2 ^ 32 = last) :
    chopNewline line = (do
      let c ← load line last
      if c = newline then store line last 0 else return line) := by
  rw [← hlast]
  rfl

/-- The last character of an empty string is looked for in front of it. -/
theorem chopNewline_empty {line : Bytes} (h : (CString.ofCells line).val = [])
    (hlen : line.length ≤ 308) : chopNewline (line ++ [0]) = .error (.read (2 ^ 32 - 1)) := by
  obtain ⟨rest, hrest⟩ := line_split line
  rw [h, List.nil_append] at hrest
  have hempty : (CString.ofCells (line ++ [0])).val = [] := by
    rw [hrest]
    exact CString.ofCells_string List.not_mem_nil rest
  have hindex : ((CString.ofCells (line ++ [0])).val.length + 2 ^ 32 - 1) % 2 ^ 32 =
      2 ^ 32 - 1 := by
    rw [hempty, List.length_nil, Nat.zero_add]
    exact Nat.mod_eq_of_lt (by decide)
  have hpast : (line ++ [0]).length ≤ 2 ^ 32 - 1 := by
    rw [List.length_append, List.length_singleton]
    omega
  generalize 2 ^ 32 - 1 = last at hindex hpast ⊢
  rw [chopNewline_eq hindex, load_past hpast]
  rfl

/-- Any other line loses its newline. -/
theorem chopNewline_line {line : Bytes} (h : (CString.ofCells line).val ≠ [])
    (hlen : line.length ≤ 308) :
    ∃ cells, chopNewline (line ++ [0]) = .ok cells ∧ CString.ofCells cells = lineVar line := by
  obtain ⟨rest, hrest⟩ := line_split line
  have hclean := (CString.ofCells line).property
  have hshort : (CString.ofCells line).val.length ≤ 308 :=
    (List.takeWhile_prefix _).length_le.trans hlen
  unfold lineVar
  generalize (CString.ofCells line).val = s at h hrest hclean hshort
  obtain ⟨front, c, rfl⟩ : ∃ front c, s = front ++ [c] :=
    ⟨s.dropLast, s.getLast h, (List.dropLast_append_getLast h).symm⟩
  have hstring : (CString.ofCells (line ++ [0])).val = front ++ [c] := by
    rw [hrest]
    exact CString.ofCells_string hclean rest
  have hlast : ((front ++ [c]).length + 2 ^ 32 - 1) % 2 ^ 32 = front.length := by
    rw [List.length_append, List.length_singleton] at hshort ⊢
    omega
  have hmem : line ++ [0] = front ++ c :: 0 :: rest := by
    rw [hrest, List.append_assoc]
    rfl
  have hload : load (line ++ [0]) front.length = .ok c := by
    rw [hmem]
    exact load_append front (0 :: rest) c
  have hfront : (0 : UInt8) ∉ front := fun hzero => hclean (List.mem_append_left _ hzero)
  rw [← hstring] at hlast
  rw [chopNewline_eq hlast, hload]
  simp only [List.getLast?_concat, Option.some.injEq, List.dropLast_concat]
  by_cases hc : c = newline
  · refine ⟨front ++ 0 :: 0 :: rest, ?_, ?_⟩
    · change (if c = newline then store (line ++ [0]) front.length 0 else .ok (line ++ [0])) = _
      rw [if_pos hc, hmem]
      exact store_append front (0 :: rest) c 0
    · rw [if_pos hc]
      exact Subtype.ext ((CString.ofCells_string hfront (0 :: rest)).trans
        (CString.ofCells_clean hfront).symm)
  · refine ⟨line ++ [0], ?_, ?_⟩
    · change (if c = newline then store (line ++ [0]) front.length 0 else .ok (line ++ [0])) = _
      rw [if_neg hc]
    rw [if_neg hc]
    exact Subtype.ext (hstring.trans (CString.ofCells_clean hclean).symm)

/-- A line is not longer than its array. -/
theorem length_fgets (room : ℕ) (content : Bytes) : (fgets room content).1.length ≤ room := by
  induction room generalizing content with
  | zero => exact Nat.le_refl 0
  | succ room ih =>
    cases content with
    | nil => exact Nat.zero_le _
    | cons c content =>
      rw [fgets]
      split
      · exact Nat.le_add_left 1 room
      · exact Nat.succ_le_succ (ih content)

theorem length_mem_linesFrom {ends : Bool} {left : ℕ} {content line : Bytes}
    (h : line ∈ linesFrom ends left content) : line.length ≤ 308 := by
  induction left generalizing content with
  | zero => exact absurd h List.not_mem_nil
  | succ left ih =>
    rw [linesFrom] at h
    split at h
    · exact absurd h List.not_mem_nil
    split at h
    · exact absurd h List.not_mem_nil
    · rcases List.mem_cons.mp h with hfirst | hrest
      · rw [hfirst]
        exact length_fgets 308 content
      · exact ih hrest

section Lines

variable (a : Answers ν) (envType : NvOsType) (envlen : ℕ)

/-- The loop over the lines is the sequence of their edits. -/
theorem addLines_adds (ends : Bool) {lines : List Bytes} (hlines : ∀ line ∈ lines, line.length ≤ 308)
    (data : Bytes) (w : World ν) :
    Adds a (addLines envType envlen ends lines data) w
      (draftEdits a envType envlen (lines.map lineEdit ++ if ends then [] else [.unreadable])
        (w.draft data)) := by
  induction lines generalizing data w with
  | nil =>
    cases ends with
    | true => exact ends_ret _ _
    | false => exact ⟨w, .inr (ends_hang w), rfl⟩
  | cons line lines ih =>
    have hlen := hlines line (List.mem_cons_self ..)
    rw [addLines, List.map_cons, List.cons_append, draftEdits]
    by_cases hempty : (CString.ofCells line).val = []
    · rw [chopNewline_empty hempty hlen, lift_error, exit_andThen, lineEdit, if_pos hempty]
      exact ⟨w, ends_exit _ _, rfl⟩
    · obtain ⟨cells, hchop, hcells⟩ := chopNewline_line hempty hlen
      rw [hchop, lift_ok, ret_andThen, hcells, lineEdit, if_neg hempty]
      have hadd := envAddVar_adds a envType (lineVar line) data envlen w
      cases hedit : editDraft a envType envlen (w.draft data) (.add (lineVar line)) with
      | error f =>
        rw [hedit] at hadd
        obtain ⟨w', hw', hflash⟩ := hadd
        exact ⟨w', hw'.andThen_exit, hflash⟩
      | ok next =>
        rw [hedit] at hadd
        cases next with
        | none =>
          obtain ⟨w', ⟨code, data', hcode, hw'⟩ | hw', hflash⟩ := hadd
          · refine ⟨w', .inl ⟨-eInval, data', by decide, hw'.andThen ?_⟩, hflash⟩
            dsimp only
            rw [if_pos (Int.ne_of_lt hcode)]
            exact ends_call (ends_ret _ _)
          · exact ⟨w', .inr hw'.andThen_hang, hflash⟩
        | some d =>
          have hrest := ih (fun l hl => hlines l (List.mem_cons_of_mem _ hl)) d.data
            (w.withDraft d)
          exact adds_andThen hadd hrest

/-- `env_add_vars_from_file` is the sequence of the edits of the file. -/
theorem envAddVarsFromFile_adds (filename : CString) (data : Bytes) (w : World ν) :
    Adds a (envAddVarsFromFile envType filename data envlen) w
      (draftEdits a envType envlen (fileEdits (a.fopen filename.val)) (w.draft data)) := by
  unfold envAddVarsFromFile
  cases hopen : a.fopen filename.val with
  | failed errno =>
    have hneg : -errno.val < 0 := Int.neg_neg_of_pos errno.property
    refine ⟨w, .inl ⟨-errno.val, data, hneg, ends_call ?_⟩, rfl⟩
    rw [show (handler a (.fopen filename.val) w) = (.failed errno, w) by rw [handler, hopen]]
    exact ends_ret _ _
  | file content ends =>
    have hlines : ∀ line ∈ fileLines ends content, line.length ≤ 308 := fun line =>
      length_mem_linesFrom
    have hadd := addLines_adds a envType envlen ends hlines data w
    have hcall := adds_passed hadd fun x w' =>
      (ends_call (ends_ret x w') : Ends (handler a) (do
        ask .fclose
        return x) w' (.ret x) w')
    have hfile : handler a (.fopen filename.val) w = (.file content ends, w) := by
      rw [handler, hopen]
    have hanswer : Ends (handler a) (ask (.fopen filename.val)) w (.ret (.file content ends))
        (w.withDraft (w.draft data)) := by
      have hends := ends_perform (E := Stop) (h := handler a) (.fopen filename.val) w
      rw [hfile] at hends
      exact hends
    exact adds_andThen hanswer hcall

end Lines

/-- A part of a run that may refuse the changes ends as the edits of the draft
do. -/
def Modifies (a : Answers ν) (p : Env (Option Bytes)) (w : World ν) :
    Except Fault (Option (Draft ν)) → Prop
  | .error f => ∃ w', Ends (handler a) p w (.exit (.fault f)) w' ∧ w'.flash = w.flash
  | .ok none =>
    ∃ w', (Ends (handler a) p w (.ret none) w' ∨ Ends (handler a) p w .hang w') ∧
      w'.flash = w.flash
  | .ok (some d) => Ends (handler a) p w (.ret (some d.data)) (w.withDraft d)

section Modifies

variable {a : Answers ν} {w : World ν}

/-- A part that adds variables, with its result looked at. -/
theorem modifies_of_adds {p : Env (ℤ × Bytes)} {f : ℤ × Bytes → Env (Option Bytes)}
    {r : Except Fault (Option (Draft ν))} (hp : Adds a p w r)
    (hrefused : ∀ code data w', code < 0 → Ends (handler a) (f (code, data)) w' (.ret none) w')
    (hdone : ∀ data w', Ends (handler a) (f (0, data)) w' (.ret (some data)) w') :
    Modifies a (p >>= f) w r := by
  match r, hp with
  | .error f, ⟨w', hw', hflash⟩ => exact ⟨w', hw'.andThen_exit, hflash⟩
  | .ok none, ⟨w', .inl ⟨code, data, hcode, hw'⟩, hflash⟩ =>
    exact ⟨w', .inl (hw'.andThen (hrefused code data w' hcode)), hflash⟩
  | .ok none, ⟨w', .inr hw', hflash⟩ => exact ⟨w', .inr hw'.andThen_hang, hflash⟩
  | .ok (some d), hw' => exact hw'.andThen (hdone d.data _)

/-- A part goes on after a first one that has left a draft. -/
theorem modifies_andThen {β : Type} {p : Env β} {f : β → Env (Option Bytes)} {b : β} {d : Draft ν}
    {r : Except Fault (Option (Draft ν))}
    (hp : Ends (handler a) p w (.ret b) (w.withDraft d))
    (hf : Modifies a (f b) (w.withDraft d) r) : Modifies a (p >>= f) w r := by
  match r, hf with
  | .error f, ⟨w', hw', hflash⟩ => exact ⟨w', hp.andThen hw', hflash⟩
  | .ok none, ⟨w', .inl hw', hflash⟩ => exact ⟨w', .inl (hp.andThen hw'), hflash⟩
  | .ok none, ⟨w', .inr hw', hflash⟩ => exact ⟨w', .inr (hp.andThen hw'), hflash⟩
  | .ok (some d), hw' => exact hp.andThen hw'

end Modifies

/-- Edits are done one part after the other. -/
theorem draftEdits_append (a : Answers ν) (envType : NvOsType) (envlen : ℕ) (es fs : List Edit)
    (d : Draft ν) :
    draftEdits a envType envlen (es ++ fs) d = (do
      match ← draftEdits a envType envlen es d with
      | some d => draftEdits a envType envlen fs d
      | none => return none) := by
  induction es generalizing d with
  | nil => rfl
  | cons e es ih =>
    rw [List.cons_append, draftEdits, draftEdits]
    cases editDraft a envType envlen d e with
    | error f => rfl
    | ok next =>
      cases next with
      | none => rfl
      | some d => exact ih d

section Modify

variable (a : Answers ν) (envType : NvOsType) (envlen : ℕ)

/-- The part for `--fileadd`. -/
theorem addFromFile_modifies (file : CString) (data : Bytes) (w : World ν) :
    Modifies a (addFromFile envType (some file) data envlen) w
      (draftEdits a envType envlen (fileEdits (a.fopen file.val)) (w.draft data)) := by
  refine modifies_of_adds (envAddVarsFromFile_adds a envType envlen file data w) ?_ ?_
  · intro code data w' hcode
    dsimp only
    rw [if_pos hcode]
    exact ends_call (ends_ret _ _)
  · intro data w'
    exact ends_ret _ _

/-- The part for `--set`. -/
theorem setVariable_modifies (varstring : CString) (data : Bytes) (w : World ν) :
    Modifies a (setVariable envType (some varstring) data envlen) w
      (draftEdits a envType envlen [.add varstring] (w.draft data)) := by
  have hadd := envAddVar_adds a envType varstring data envlen w
  have hone : draftEdits a envType envlen [.add varstring] (w.draft data) =
      editDraft a envType envlen (w.draft data) (.add varstring) := by
    rw [draftEdits]
    cases editDraft a envType envlen (w.draft data) (.add varstring) with
    | error f => rfl
    | ok next =>
      cases next with
      | none => rfl
      | some d => rfl
  rw [hone]
  refine modifies_of_adds hadd ?_ ?_
  · intro code data w' hcode
    dsimp only
    rw [if_pos (Int.ne_of_lt hcode)]
    exact ends_call (ends_ret _ _)
  · intro data w'
    exact ends_ret _ _

/-- The loop that removes variables is the sequence of their removals. -/
theorem removeVars_ends (vars : List CString) (data : Bytes) (w : World ν) :
    (∃ f, draftEdits a envType envlen (vars.map .remove) (w.draft data) = .error f ∧
      Ends (handler a) (removeVars envlen vars data) w (.exit (.fault f)) w) ∨
    ∃ data', draftEdits a envType envlen (vars.map .remove) (w.draft data) =
        .ok (some (w.draft data')) ∧
      Ends (handler a) (removeVars envlen vars data) w (.ret data') w := by
  induction vars generalizing data with
  | nil => exact .inr ⟨data, rfl, ends_ret _ _⟩
  | cons var vars ih =>
    rw [List.map_cons, draftEdits, removeVars]
    cases hremove : removeVar data 0 envlen var with
    | error f =>
      have hedit : editDraft a envType envlen (w.draft data) (.remove var) = .error f := by
        change (do
          let (_, data') ← removeVar data 0 envlen var
          return some { w.draft data with data := data' }) = _
        rw [hremove]
        rfl
      rw [hedit]
      exact .inl ⟨f, rfl, ends_exit _ _⟩
    | ok result =>
      obtain ⟨removed, data'⟩ := result
      have hedit : editDraft a envType envlen (w.draft data) (.remove var) =
          .ok (some (w.draft data')) := by
        change (do
          let (_, data') ← removeVar data 0 envlen var
          return some { w.draft data with data := data' }) = _
        rw [hremove]
        rfl
      rw [hedit, lift_ok, ret_andThen]
      rcases ih data' with ⟨f, hrest, hends⟩ | ⟨data'', hrest, hends⟩
      · refine .inl ⟨f, hrest, ?_⟩
        cases removed with
        | true => exact hends
        | false => exact ends_call hends
      · refine .inr ⟨data'', hrest, ?_⟩
        cases removed with
        | true => exact hends
        | false => exact ends_call hends

/-- The edits after the file. -/
theorem eraseAndSet_modifies (o : Options) (data : Bytes) (w : World ν) :
    Modifies a (do
      let data ← eraseFromList o.eraselist data envlen
      setVariable envType o.setstring data envlen) w
      (draftEdits a envType envlen
        ((o.eraselist.elim [] fun varlist => (varNames varlist).map .remove) ++
          o.setstring.elim [] fun varstring => [.add varstring]) (w.draft data)) := by
  have hset : ∀ data', Modifies a (setVariable envType o.setstring data' envlen) w
      (draftEdits a envType envlen (o.setstring.elim [] fun varstring => [.add varstring])
        (w.draft data')) := by
    intro data'
    cases o.setstring with
    | none => exact ends_ret _ _
    | some varstring => exact setVariable_modifies a envType envlen varstring data' w
  rw [draftEdits_append]
  cases o.eraselist with
  | none => exact hset data
  | some varlist =>
    rcases removeVars_ends a envType envlen (varNames varlist) data w with
      ⟨f, hedits, hends⟩ | ⟨data', hedits, hends⟩
    · rw [Option.elim_some, hedits]
      exact ⟨w, hends.andThen_exit, rfl⟩
    · rw [Option.elim_some, hedits]
      have hleft : Ends (handler a) (eraseFromList (some varlist) data envlen) w (.ret data')
          (w.withDraft (w.draft data')) := hends
      exact modifies_andThen hleft (hset data')

/-- The parts that change the variables are the edits that the options ask
for. -/
theorem modifyEnv_modifies (o : Options) (data : Bytes) (w : World ν) :
    Modifies a (modifyEnv envType o data envlen) w
      (draftEdits a envType envlen (edits a.fopen o) (w.draft data)) := by
  have hfile : Modifies a (addFromFile envType o.fileadd data envlen) w
      (draftEdits a envType envlen (o.fileadd.elim [] fun file => fileEdits (a.fopen file.val))
        (w.draft data)) := by
    cases o.fileadd with
    | none => exact ends_ret _ _
    | some file => exact addFromFile_modifies a envType envlen file data w
  rw [edits, List.append_assoc, draftEdits_append, modifyEnv]
  cases hedits : draftEdits a envType envlen
      (o.fileadd.elim [] fun file => fileEdits (a.fopen file.val)) (w.draft data) with
  | error f =>
    rw [hedits] at hfile
    obtain ⟨w', hw', hflash⟩ := hfile
    exact ⟨w', hw'.andThen_exit, hflash⟩
  | ok next =>
    rw [hedits] at hfile
    cases next with
    | none =>
      obtain ⟨w', hw' | hw', hflash⟩ := hfile
      · exact ⟨w', .inl (hw'.andThen (ends_ret _ _)), hflash⟩
      · exact ⟨w', .inr hw'.andThen_hang, hflash⟩
    | some d =>
      exact modifies_andThen hfile (eraseAndSet_modifies a envType envlen o d.data (w.withDraft d))

end Modify

end MetaDigi.EnvNvram
