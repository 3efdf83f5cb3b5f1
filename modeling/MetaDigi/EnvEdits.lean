import MetaDigi.EnvMain
import MetaDigi.EnvStore

/-!
# What the options ask for

The options of a run, together with the file that they name, ask for a sequence
of edits. An edit adds a variable or removes one; a variable that is a network
setting is none of the block. On a block that holds a list of variables the
edits are the operations of the ordered map, in their order.
-/

namespace MetaDigi.EnvEdits

open CheckedMemory CStrings EnvFuncs EnvMain EnvScan EnvStore PackedStrings

/-- A change that is asked for. -/
inductive Edit where
  /-- Add the variable of a string. -/
  | add (varstring : CString)
  /-- Remove a variable. -/
  | remove (var : CString)
  /-- Add a line that begins with a NUL, whose last character is looked for in
  front of it. -/
  | emptyLine
  /-- Read on in a file that cannot be read. -/
  | unreadable

/-- The string of a line, without its newline. -/
def lineVar (line : Bytes) : CString :=
  let s := (CString.ofCells line).val
  CString.ofCells (if s.getLast? = some newline then s.dropLast else s)

/-- What a line of the file asks for. -/
def lineEdit (line : Bytes) : Edit :=
  if (CString.ofCells line).val = [] then .emptyLine else .add (lineVar line)

/-- What a file asks for. -/
def fileEdits : Opened → List Edit
  | .failed _ => [.unreadable]
  | .file content ends =>
    (fileLines ends content).map lineEdit ++ if ends then [] else [.unreadable]

/-- What the options ask for: first the file, then the list of names to erase,
then the variable to set. -/
def edits (fopen : Bytes → Opened) (o : Options) : List Edit :=
  (o.fileadd.elim [] fun file => fileEdits (fopen file.val)) ++
    (o.eraselist.elim [] fun varlist => (varNames varlist).map .remove) ++
    o.setstring.elim [] fun varstring => [.add varstring]

/-- The name of the variable of a string. -/
def varName (varstring : CString) : CString :=
  ⟨varstring.val.takeWhile (· ≠ varAsign), fun h =>
    varstring.property ((List.takeWhile_prefix _).subset h)⟩

/-- The setting that is stored with the network settings, for a variable that
is one of them. -/
def settingOf (envType : NvOsType) (varstring : CString) : Option Bytes :=
  (envHaveToUseNvram envType (varName varstring)).map fun j =>
    (excludeVars.get j).2 ++ [varAsign] ++ varstring.val.drop ((varName varstring).val.length + 1)

/-- An edit on the data of a block. There is no result when it is refused or
leaves the block. -/
def Edit.onData (envType : NvOsType) (envlen : ℕ) (data : Bytes) : Edit → Option Bytes
  | .add varstring =>
    if (settingOf envType varstring).isSome then some data
    else
      match addVar data 0 envlen varstring with
      | .ok (true, data) => some data
      | _ => none
  | .remove var =>
    match removeVar data 0 envlen var with
    | .ok (_, data) => some data
    | .error _ => none
  | .emptyLine => none
  | .unreadable => none

/-- An edit on the list of variables. -/
def Edit.onVars (envType : NvOsType) (L : List Bytes) : Edit → List Bytes
  | .add varstring =>
    if (settingOf envType varstring).isSome then L
    else L.eraseP (assigns (varName varstring).val) ++ [varstring.val]
  | .remove var => L.eraseP (assigns var.val)
  | .emptyLine => L
  | .unreadable => L

/-- Edits one after the other, as long as each has a result. -/
def applyEdits (envType : NvOsType) (envlen : ℕ) : List Edit → Bytes → Option Bytes
  | [], data => some data
  | e :: es, data => (e.onData envType envlen data).bind (applyEdits envType envlen es)

/-- Neither does the copy loop of `add_var`. -/
theorem length_appendChars {mem mem' s : Bytes} {till varAddr varAddr' : ℕ}
    (h : appendChars mem till varAddr s = .ok (varAddr', mem')) : mem'.length = mem.length := by
  induction s generalizing mem varAddr with
  | nil =>
    cases h
    rfl
  | cons c s ih =>
    unfold appendChars at h
    split at h
    · obtain ⟨mid, hstore, hrest⟩ := ok_of_bind h
      exact (ih hrest).trans (length_store hstore)
    · cases h
      rfl

theorem length_appendVar {mem mem' : Bytes} {from' till : ℕ} {s : CString} {b : Bool}
    (h : appendVar mem from' till s = .ok (b, mem')) : mem'.length = mem.length := by
  obtain ⟨endMark, -, h⟩ := ok_of_bind h
  cases endMark with
  | none =>
    cases h
    rfl
  | some endMark =>
    obtain ⟨⟨varAddr, filled⟩, hchars, h⟩ := ok_of_bind h
    obtain ⟨first, hfirst, h⟩ := ok_of_bind h
    obtain ⟨second, hsecond, h⟩ := ok_of_bind h
    cases h
    exact (length_store hsecond).trans ((length_store hfirst).trans (length_appendChars hchars))

/-- A block keeps its size when a variable is removed. -/
theorem length_removeVar {mem mem' : Bytes} {from' till : ℕ} {var : CString} {b : Bool}
    (h : removeVar mem from' till var = .ok (b, mem')) : mem'.length = mem.length := by
  obtain ⟨varAddr, -, h⟩ := ok_of_bind h
  cases varAddr with
  | none =>
    cases h
    rfl
  | some varAddr =>
    obtain ⟨envEnd, -, h⟩ := ok_of_bind h
    cases envEnd with
    | none =>
      cases h
      rfl
    | some envEnd =>
      obtain ⟨varEnd, -, h⟩ := ok_of_bind h
      cases varEnd with
      | none =>
        cases h
        rfl
      | some varEnd =>
        obtain ⟨moved, hmoved, h⟩ := ok_of_bind h
        obtain ⟨cleared, hcleared, h⟩ := ok_of_bind h
        cases h
        exact (length_storeAll hcleared).trans (length_copyCells hmoved)

/-- A block keeps its size when a variable is added. -/
theorem length_addVar {mem mem' : Bytes} {from' till : ℕ} {s : CString} {b : Bool}
    (h : addVar mem from' till s = .ok (b, mem')) : mem'.length = mem.length := by
  obtain ⟨⟨assigned, cells⟩, -, h⟩ := ok_of_bind h
  cases assigned with
  | false =>
    cases h
    rfl
  | true =>
    obtain ⟨varAddr, -, h⟩ := ok_of_bind h
    cases varAddr with
    | none => exact length_appendVar h
    | some varAddr =>
      obtain ⟨⟨removed, rest⟩, hremove, h⟩ := ok_of_bind h
      cases removed with
      | true => exact (length_appendVar h).trans (length_removeVar hremove)
      | false =>
        cases h
        exact length_removeVar hremove

/-- A block keeps its size in every edit. -/
theorem Edit.length_onData {envType : NvOsType} {envlen : ℕ} {data data' : Bytes} {e : Edit}
    (h : e.onData envType envlen data = some data') : data'.length = data.length := by
  cases e with
  | add varstring =>
    simp only [Edit.onData] at h
    split at h
    · rw [Option.some.inj h]
    · split at h
      · rename_i added hadd
        rw [← Option.some.inj h]
        exact length_addVar hadd
      · cases h
  | remove var =>
    simp only [Edit.onData] at h
    split at h
    · rename_i removed rest hremove
      rw [← Option.some.inj h]
      exact length_removeVar hremove
    · cases h
  | emptyLine => cases h
  | unreadable => cases h

/-- A string with an equals sign splits at the first one. -/
theorem split_at_sign {s : Bytes} (h : varAsign ∈ s) :
    ∃ value, s = s.takeWhile (· ≠ varAsign) ++ varAsign :: value := by
  induction s with
  | nil => exact absurd h List.not_mem_nil
  | cons c s ih =>
    by_cases hc : c = varAsign
    · exact ⟨s, by simp [hc]⟩
    · have hs : varAsign ∈ s := by
        rcases List.mem_cons.mp h with hfirst | hs
        · exact absurd hfirst.symm hc
        · exact hs
      obtain ⟨value, hvalue⟩ := ih hs
      refine ⟨value, ?_⟩
      rw [List.takeWhile_cons_of_pos (by simpa using hc), List.cons_append, ← hvalue]

/-- There is no equals sign in a name. -/
theorem sign_not_mem_varName (varstring : CString) : varAsign ∉ (varName varstring).val :=
  fun h => by simpa using List.mem_takeWhile_imp h

/-- The name in front of the first equals sign, and what follows it. -/
theorem strchr_varstring {varstring : CString} (h : varAsign ∈ varstring.val) :
    strchr varstring.val varAsign = some (varName varstring).val.length := by
  obtain ⟨value, hvalue⟩ := split_at_sign h
  have hfirst := strchr_append (sign_not_mem_varName varstring) value
  rw [varName, ← hvalue] at hfirst
  exact hfirst

/-- A variable string with a name that is short enough. -/
theorem eq_varString {varstring : CString} (h : varAsign ∈ varstring.val)
    (hshort : (varName varstring).val.length < envMaxVarNameLen) :
    ∃ k v, k.text = varName varstring ∧ varstring = varString k v := by
  obtain ⟨value, hvalue⟩ := split_at_sign h
  have hclean : (0 : UInt8) ∉ value := fun hmem => varstring.property (by
    rw [hvalue]
    exact List.mem_append_right _ (List.mem_cons_of_mem _ hmem))
  exact ⟨⟨varName varstring, sign_not_mem_varName varstring, hshort⟩, ⟨value, hclean⟩, rfl,
    Subtype.ext hvalue⟩

/-- The array after `get_var_name` in front of an equals sign. -/
theorem getVarName_short {varstring : CString} (hsign : varAsign ∈ varstring.val)
    (hshort : (varName varstring).val.length < envMaxVarNameLen) :
    ∃ cells, getVarName varstring (List.replicate 50 0) varAsign = .ok (true, cells) ∧
      CString.ofCells cells = varName varstring ∧ cells.length = 50 := by
  obtain ⟨k, v, hk, hv⟩ := eq_varString hsign hshort
  obtain ⟨cells, hname, hcells⟩ := getVarName_varString k v
  rw [← hv] at hname
  refine ⟨cells, hname, hcells.trans hk, ?_⟩
  simp only [getVarName, strchr_varstring hsign] at hname
  obtain ⟨stored, hstored, hret⟩ := ok_of_bind hname
  rw [← (Prod.mk.inj (Except.ok.inj hret)).2, length_storeAll hstored]
  rfl

/-- `get_var_name` without an equals sign. -/
theorem getVarName_none {varstring : CString} (h : varAsign ∉ varstring.val) (cells : Bytes) :
    getVarName varstring cells varAsign = .ok (false, cells) := by
  have hnone : strchr varstring.val varAsign = none := by
    rw [strchr, List.findIdx?_eq_none_iff]
    intro c hc
    exact decide_eq_false fun hsign => h (hsign ▸ hc)
  simp only [getVarName, hnone]
  rfl

/-- `get_var_name` in front of an equals sign: a name of 50 characters or more
is stored beyond the array. -/
theorem getVarName_long {varstring : CString} (h : varAsign ∈ varstring.val)
    (hlong : envMaxVarNameLen ≤ (varName varstring).val.length) :
    getVarName varstring (List.replicate envMaxVarNameLen 0) varAsign =
      .error (.write envMaxVarNameLen) := by
  have htake : varstring.val.take (varName varstring).val.length = (varName varstring).val :=
    List.prefix_iff_eq_take.mp (List.takeWhile_prefix _) |>.symm
  have hstore : storeAll (List.replicate envMaxVarNameLen (0 : UInt8)) 0
      ((varName varstring).val ++ [0]) = .error (.write envMaxVarNameLen) := by
    have hover := @storeAll_overrun _ (List.replicate envMaxVarNameLen (0 : UInt8))
      ((varName varstring).val ++ [0]) 0 (Nat.zero_le _) (by
        simp only [List.length_replicate, List.length_append, List.length_singleton]
        omega)
    rwa [List.length_replicate] at hover
  simp only [getVarName, strchr_varstring h, htake, hstore, bind, Except.bind]

/-- `get_var_addr` stores a name of 50 characters or more beyond its array. -/
theorem getVarAddr_long {var : CString} (hlong : envMaxVarNameLen ≤ var.val.length) (mem : Bytes)
    (from' till : ℕ) :
    getVarAddr mem from' till var = .error (.write (envMaxVarNameLen + 1)) := by
  have hover := @storeAll_overrun _ (List.replicate (envMaxVarNameLen + 1) (0 : UInt8))
    (var.val ++ [varAsign] ++ [0]) 0 (Nat.zero_le _) (by
      simp only [List.length_replicate, List.length_append, List.length_singleton]
      omega)
  rw [List.length_replicate] at hover
  simp only [getVarAddr, hover, bind, Except.bind]

section Vars

variable {envType : NvOsType} {data data' : Bytes} {L : List Bytes}

/-- A variable that is added is the last one of the list. -/
theorem addVar_holds {varstring : CString} (h : Holds 0 data L)
    (hadd : addVar data 0 data.length varstring = .ok (true, data')) :
    Holds 0 data' (L.eraseP (assigns (varName varstring).val) ++ [varstring.val]) := by
  by_cases hsign : varAsign ∈ varstring.val
  · by_cases hshort : (varName varstring).val.length < envMaxVarNameLen
    · obtain ⟨k, v, hk, hv⟩ := eq_varString hsign hshort
      have hset : L.eraseP (assigns (varName varstring).val) ++ [varstring.val] = setVar k v L := by
        rw [setVar, eraseVar_eq, hk, ← hv]
      rw [hset]
      by_cases hfits : (packed 0 (setVar k v L)).length ≤ data.length
      · obtain ⟨mem', hexec, -, hmem'⟩ := addVar_fits h k v hfits
        rw [hv, hexec] at hadd
        rw [← (Prod.mk.inj (Except.ok.inj hadd)).2]
        exact hmem'
      · have hover := addVar_overrun h k v (Nat.lt_of_not_le hfits)
        rw [hv, hover] at hadd
        cases hadd
    · have hlong := getVarName_long hsign (Nat.le_of_not_lt hshort)
      simp only [addVar, hlong, bind, Except.bind, reduceCtorEq] at hadd
  · have hnone := getVarName_none hsign (List.replicate envMaxVarNameLen 0)
    simp only [addVar, hnone, bind, Except.bind] at hadd
    cases hadd

/-- An edit on a block that holds a list is the edit on the list. -/
theorem Edit.onData_holds {e : Edit} (h : Holds 0 data L)
    (hedit : e.onData envType data.length data = some data') : Holds 0 data' (e.onVars envType L) := by
  cases e with
  | add varstring =>
    simp only [Edit.onData] at hedit
    simp only [Edit.onVars]
    split at hedit
    · rename_i hsetting
      rw [if_pos hsetting, ← Option.some.inj hedit]
      exact h
    · rename_i hsetting
      rw [if_neg hsetting]
      split at hedit
      · rename_i added hadd
        rw [← Option.some.inj hedit]
        exact addVar_holds h hadd
      · cases hedit
  | remove var =>
    simp only [Edit.onData] at hedit
    split at hedit
    · rename_i removed rest hremove
      rw [← Option.some.inj hedit]
      by_cases hshort : var.val.length < envMaxVarNameLen
      · obtain ⟨mem', hexec, -, hmem', -⟩ := removeVar_first h hshort
        rw [hexec] at hremove
        rw [← (Prod.mk.inj (Except.ok.inj hremove)).2]
        exact hmem'
      · have hlong := getVarAddr_long (Nat.le_of_not_lt hshort) data 0 data.length
        simp only [removeVar, hlong, bind, Except.bind, reduceCtorEq] at hremove
    · cases hedit
  | emptyLine => cases hedit
  | unreadable => cases hedit

/-- Edits on a block that holds a list are the edits on the list. -/
theorem applyEdits_holds {es : List Edit} (h : Holds 0 data L)
    (hedits : applyEdits envType data.length es data = some data') :
    Holds 0 data' (es.foldl (Edit.onVars envType) L) := by
  induction es generalizing data L with
  | nil =>
    rw [← Option.some.inj hedits]
    exact h
  | cons e es ih =>
    obtain ⟨mid, hedit, hrest⟩ := Option.bind_eq_some_iff.mp hedits
    have hlen := Edit.length_onData hedit
    rw [← hlen] at hrest
    exact ih (Edit.onData_holds h hedit) hrest

/-- Edits keep the size of a block. -/
theorem length_applyEdits {es : List Edit} {envlen : ℕ}
    (hedits : applyEdits envType envlen es data = some data') : data'.length = data.length := by
  induction es generalizing data with
  | nil => rw [← Option.some.inj hedits]
  | cons e es ih =>
    obtain ⟨mid, hedit, hrest⟩ := Option.bind_eq_some_iff.mp hedits
    exact (ih hrest).trans (Edit.length_onData hedit)

end Vars

end MetaDigi.EnvEdits
