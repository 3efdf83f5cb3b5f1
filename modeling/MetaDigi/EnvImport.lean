import MetaDigi.EnvBuffers
import MetaDigi.TextLines

/-!
# Importing variables from a file

The import reads the file in pieces of at most 308 characters and takes each
piece for a line. That is faithful as long as every line fits and has no NUL
in it. Otherwise it is the pieces that are added, each of them as a variable of
its own. A file that cannot be read to its end is read for ever.
-/

namespace MetaDigi.EnvImport

open CheckedMemory CStrings EnvBuffers EnvEdits EnvFuncs EnvMain EnvNvram EnvScan EnvStore
  PackedStrings SystemProgram SystemRuns TextLines
open Prog (ret_andThen exit_andThen)

/-- A line without the newline that ends it. -/
def lineText (line : Bytes) : Bytes :=
  if line.getLast? = some newline then line.dropLast else line

/-- The newline-separated lines of a file. -/
def textLines (content : Bytes) : List Bytes := (linesWith newline content).map lineText

/-- The strings that the import hands to `env_add_var`. -/
def givenTexts (ends : Bool) (content : Bytes) : List CString :=
  (fileLines ends content).map lineVar

/-- `env_add_var` once for each string, in their order. -/
def addEach (envType : NvOsType) (envlen : ℕ) : List CString → Bytes → Env (ℤ × Bytes)
  | [], data => return (0, data)
  | varstring :: rest, data => do
    let (failed, data) ← envAddVar envType varstring data envlen
    if failed ≠ 0 then return (failed, data) else addEach envType envlen rest data

/-- The import of a file into the U-Boot environment is faithful. -/
structure Faithful (ends : Bool) (content : Bytes) : Prop where
  /-- It comes to an end. -/
  terminates : ∀ (ν : Type) (a : Answers ν) (filename : CString) (data : Bytes) (envlen : ℕ)
    (w w' : World ν), a.fopen filename.val = .file content ends →
    ¬Ends (handler a) (envAddVarsFromFile .nvosUboot filename data envlen) w .hang w'
  /-- In a block with room for the variables it leaves no array. -/
  inside : ∀ (ν : Type) (a : Answers ν) (filename : CString) (data : Bytes) (L : List Bytes)
    (w w' : World ν) (f : Fault), a.fopen filename.val = .file content ends → Holds 0 data L →
    (flat 0 (L ++ (givenTexts ends content).map Subtype.val)).length < data.length →
    ¬Ends (handler a) (envAddVarsFromFile .nvosUboot filename data data.length) w
      (.exit (.fault f)) w'
  /-- When it succeeds, the lines have been added whole, one after the other. -/
  whole : ∀ (ν : Type) (a : Answers ν) (filename : CString) (data data' : Bytes) (envlen : ℕ)
    (w w' : World ν), a.fopen filename.val = .file content ends →
    Ends (handler a) (envAddVarsFromFile .nvosUboot filename data envlen) w (.ret (0, data')) w' →
    (givenTexts ends content).map Subtype.val = textLines content ∧
      Ends (handler a) (addEach .nvosUboot envlen (givenTexts ends content) data) w
        (.ret (0, data')) w'

/-- A piece that can be added: it does not begin with a NUL, it has an equals
sign, and its name or setting fits the work buffers. -/
def Acceptable (line : Bytes) : Prop :=
  (CString.ofCells line).val ≠ [] ∧ varAsign ∈ (lineVar line).val ∧
    ¬TooLong .nvosUboot (lineVar line)

/-- A piece without an equals sign. -/
def Unassigned (line : Bytes) : Prop :=
  (CString.ofCells line).val ≠ [] ∧ varAsign ∉ (lineVar line).val

/-- The first piece that cannot be added is one without an equals sign; or all
can be, and the file is read to its end, with lines of at most 308 characters
and no NUL. -/
def Importable (ends : Bool) (content : Bytes) : Prop :=
  (∃ before line after, fileLines ends content = before ++ line :: after ∧
    (∀ l ∈ before, Acceptable l) ∧ Unassigned line) ∨
  ends = true ∧ (∀ line ∈ linesWith newline content, line.length ≤ 308 ∧ 0 ∉ line) ∧
    ∀ line ∈ fileLines ends content, Acceptable line

section Pieces

theorem fgets_eq_piece (room : ℕ) (content : Bytes) :
    fgets room content = piece newline room content := by
  induction content generalizing room with
  | nil => cases room <;> rfl
  | cons c content ih =>
    cases room with
    | zero => rfl
    | succ room =>
      rw [fgets, piece, ih]

theorem linesFrom_eq_pieces (left : ℕ) (content : Bytes) :
    linesFrom true left content = pieces newline 308 left content := by
  induction left generalizing content with
  | zero => rfl
  | succ left ih =>
    rw [linesFrom, pieces, fgets_eq_piece]
    split
    · rfl
    · rw [Bool.not_true, Bool.false_and, Bool.false_and, if_neg Bool.false_ne_true]
      exact congrArg _ (ih _)

/-- A line with no NUL is taken as it is. -/
theorem lineVar_clean {line : Bytes} (h : (0 : UInt8) ∉ line) : (lineVar line).val = lineText line := by
  have hstring : (CString.ofCells line).val = line := CString.ofCells_clean h
  have hclean : (0 : UInt8) ∉ lineText line := by
    unfold lineText
    split
    · exact fun hmem => h (List.dropLast_subset _ hmem)
    · exact h
  unfold lineVar
  rw [hstring]
  exact CString.ofCells_clean hclean

/-- A line that is taken as it is has no NUL. -/
theorem clean_of_lineVar {line : Bytes} (h : (lineVar line).val = lineText line) :
    (0 : UInt8) ∉ line := by
  have hclean : (0 : UInt8) ∉ lineText line := h ▸ (lineVar line).property
  unfold lineText at hclean
  split at hclean
  · rename_i hlast
    obtain ⟨front, hfront⟩ := List.getLast?_eq_some_iff.mp hlast
    rw [hfront, List.dropLast_concat] at hclean
    rw [hfront]
    intro hmem
    rcases List.mem_append.mp hmem with hmem | hmem
    · exact hclean hmem
    · exact absurd (List.mem_singleton.mp hmem) (by decide)
  · exact hclean

/-- The strings that are handed over are the lines exactly when every line fits
and has no NUL. -/
theorem givenTexts_eq_iff (content : Bytes) :
    (givenTexts true content).map Subtype.val = textLines content ↔
      ∀ line ∈ linesWith newline content, line.length ≤ 308 ∧ 0 ∉ line := by
  have hpieces : fileLines true content = pieces newline 308 content.length content :=
    linesFrom_eq_pieces _ _
  unfold givenTexts textLines
  rw [hpieces, List.map_map]
  constructor
  · intro hsame
    have hlen := congrArg List.length hsame
    rw [List.length_map, List.length_map] at hlen
    have hfits := fits_of_length_eq newline (by decide : 0 < 308) (Nat.le_refl _) hlen
    rw [pieces_eq_lines newline (by decide) (Nat.le_refl _) hfits] at hsame
    intro line hline
    exact ⟨hfits line hline, clean_of_lineVar (List.map_inj_left.mp hsame line hline)⟩
  · intro hlines
    rw [pieces_eq_lines newline (by decide) (Nat.le_refl _) fun line hline => (hlines line hline).1]
    exact List.map_inj_left.mpr fun line hline => lineVar_clean (hlines line hline).2

end Pieces

variable {ν : Type} {a : Answers ν}

section Runs

variable {envType : NvOsType} {envlen : ℕ} {data data' : Bytes} {w w' : World ν}

/-- `env_add_var` comes to an end. -/
theorem halts_envAddVar (varstring : CString) :
    Halts (envAddVar envType varstring data envlen) := by
  by_cases hlong : TooLong envType varstring
  · rw [envAddVar_tooLong hlong.1 data envlen hlong.2]
    trivial
  rw [envAddVar_short envType varstring hlong, envAddString]
  split
  swap
  · trivial
  cases settingOf envType varstring with
  | some setting =>
    intro set
    cases set <;> trivial
  | none =>
    dsimp only
    cases addString data 0 envlen varstring with
    | error f => trivial
    | ok added =>
      obtain ⟨added, data'⟩ := added
      cases added <;> trivial

/-- The loop over the lines goes on for ever only when the file cannot be read
to its end and every line has been added. -/
theorem addLines_hangs {ends : Bool} {lines : List Bytes}
    (hlines : ∀ line ∈ lines, line.length ≤ 308)
    (h : Ends (handler a) (addLines envType envlen ends lines data) w .hang w') :
    ends = false ∧ ∃ d, draftEdits a envType envlen (lines.map lineEdit) (w.draft data) =
      .ok (some d) := by
  induction lines generalizing data w with
  | nil =>
    cases ends with
    | true => cases (h.unique (ends_ret _ _)).1
    | false => exact ⟨rfl, _, rfl⟩
  | cons line lines ih =>
    have hlen := hlines line List.mem_cons_self
    rw [addLines] at h
    by_cases hempty : (CString.ofCells line).val = []
    · rw [chopNewline_empty hempty hlen, lift_error, exit_andThen] at h
      cases (h.unique (ends_exit _ _)).1
    · obtain ⟨cells, hchop, hcells⟩ := chopNewline_line hempty hlen
      rw [hchop, lift_ok, ret_andThen, hcells] at h
      have hadd := envAddVar_adds a envType (lineVar line) data envlen w
      rw [List.map_cons, draftEdits, lineEdit, if_neg hempty]
      cases hedit : editDraft a envType envlen (w.draft data) (.add (lineVar line)) with
      | error f =>
        rw [hedit] at hadd
        obtain ⟨w₁, hfault, -⟩ := hadd
        cases (h.unique hfault.andThen_exit).1
      | ok next =>
        rw [hedit] at hadd
        cases next with
        | none =>
          obtain ⟨w₁, ⟨code, data₁, hcode, hret⟩ | hhang, -⟩ := hadd
          · have hrest := hret.rest h
            dsimp only at hrest
            rw [if_pos (Int.ne_of_lt hcode)] at hrest
            cases (hrest.unique (ends_call (ends_ret _ _))).1
          · exact absurd hhang (halts_envAddVar _).not_hang
        | some d =>
          have hret : Ends (handler a) (envAddVar envType (lineVar line) data envlen) w
              (.ret (0, d.data)) (w.withDraft d) := hadd
          exact ih (fun l hl => hlines l (List.mem_cons_of_mem _ hl)) (hret.rest h)

/-- A file that cannot be read to its end is read for ever when every line can
be added. -/
theorem hang_of_unreadable {lines : List Bytes} {d : Draft ν}
    (hlines : ∀ line ∈ lines, line.length ≤ 308)
    (h : draftEdits a envType envlen (lines.map lineEdit) (w.draft data) = .ok (some d)) :
    ∃ w', Ends (handler a) (addLines envType envlen false lines data) w .hang w' := by
  induction lines generalizing data w with
  | nil => exact ⟨w, ends_hang w⟩
  | cons line lines ih =>
    have hlen := hlines line List.mem_cons_self
    rw [List.map_cons, draftEdits] at h
    obtain ⟨next, hedit, h⟩ := ok_of_bind h
    cases next with
    | none => cases h
    | some next =>
      by_cases hempty : (CString.ofCells line).val = []
      · rw [lineEdit, if_pos hempty] at hedit
        cases hedit
      · obtain ⟨cells, hchop, hcells⟩ := chopNewline_line hempty hlen
        rw [lineEdit, if_neg hempty] at hedit
        have hadd := envAddVar_adds a envType (lineVar line) data envlen w
        rw [hedit] at hadd
        obtain ⟨w', hrest⟩ := @ih next.data (w.withDraft next)
          (fun l hl => hlines l (List.mem_cons_of_mem _ hl)) h
        refine ⟨w', ?_⟩
        rw [addLines, hchop, lift_ok, ret_andThen, hcells]
        exact Ends.andThen hadd hrest

/-- Adding string after string is the sequence of the edits. -/
theorem addEach_adds (texts : List CString) :
    Adds a (addEach envType envlen texts data) w
      (draftEdits a envType envlen (texts.map .add) (w.draft data)) := by
  induction texts generalizing data w with
  | nil => exact ends_ret _ _
  | cons varstring texts ih =>
    have hadd := envAddVar_adds a envType varstring data envlen w
    rw [addEach, List.map_cons, draftEdits]
    cases hedit : editDraft a envType envlen (w.draft data) (.add varstring) with
    | error f =>
      rw [hedit] at hadd
      obtain ⟨w₁, hfault, hflash⟩ := hadd
      exact ⟨w₁, hfault.andThen_exit, hflash⟩
    | ok next =>
      rw [hedit] at hadd
      cases next with
      | none =>
        obtain ⟨w₁, ⟨code, data₁, hcode, hret⟩ | hhang, hflash⟩ := hadd
        · refine ⟨w₁, .inl ⟨code, data₁, hcode, hret.andThen ?_⟩, hflash⟩
          dsimp only
          rw [if_pos (Int.ne_of_lt hcode)]
          exact ends_ret _ _
        · exact ⟨w₁, .inr hhang.andThen_hang, hflash⟩
      | some d => exact adds_andThen hadd ih

/-- A part without a fault leaves no array. -/
theorem adds_inside {p : Env (ℤ × Bytes)} {r : Except Fault (Option (Draft ν))} {f : Fault}
    (hp : Adds a p w r) (hr : ∀ f, r ≠ .error f) : ¬Ends (handler a) p w (.exit (.fault f)) w' := by
  intro hfault
  match r, hp with
  | .error g, _ => exact hr g rfl
  | .ok none, ⟨w₁, .inl ⟨code, data₁, hcode, hret⟩, hflash⟩ => cases (hfault.unique hret).1
  | .ok none, ⟨w₁, .inr hhang, hflash⟩ => cases (hfault.unique hhang).1
  | .ok (some d), hp =>
    have hret : Ends (handler a) p w (.ret (0, d.data)) (w.withDraft d) := hp
    cases (hfault.unique hret).1

/-- The import of a file ends as its loop does. -/
theorem import_ends {filename : CString} {content : Bytes} {ends : Bool}
    {out : Outcome Stop (ℤ × Bytes)} (hopen : a.fopen filename.val = .file content ends) :
    Ends (handler a) (envAddVarsFromFile envType filename data envlen) w out w' ↔
      Ends (handler a) (addLines envType envlen ends (fileLines ends content) data) w out w' := by
  have hfile : handler a (.fopen filename.val) w = (.file content ends, w) := by
    rw [handler, hopen]
  have hopened : Ends (handler a) (ask (.fopen filename.val)) w (.ret (.file content ends)) w := by
    have hends := ends_perform (E := Stop) (h := handler a) (.fopen filename.val) w
    rw [hfile] at hends
    exact hends
  have hloop : ∀ {out : Outcome Stop (ℤ × Bytes)} {w₁ : World ν},
      Ends (handler a) (addLines envType envlen ends (fileLines ends content) data) w out w₁ →
      Ends (handler a) (envAddVarsFromFile envType filename data envlen) w out w₁ := by
    intro out w₁ hends
    refine hopened.andThen ?_
    cases out with
    | ret result => exact hends.andThen (ends_call (ends_ret _ _))
    | exit e => exact hends.andThen_exit
    | hang => exact hends.andThen_hang
  refine ⟨fun hends => ?_, hloop⟩
  obtain ⟨hout, hstate⟩ := hends.unique (hloop ⟨rfl, rfl⟩)
  exact ⟨hout.symm, hstate.symm⟩

/-- When the import succeeds, every edit has been made. -/
theorem edits_of_success {ends : Bool} {lines : List Bytes}
    (hlines : ∀ line ∈ lines, line.length ≤ 308)
    (h : Ends (handler a) (addLines envType envlen ends lines data) w (.ret (0, data')) w') :
    ends = true ∧ ∃ d, draftEdits a envType envlen (lines.map lineEdit) (w.draft data) =
      .ok (some d) ∧ data' = d.data ∧ w' = w.withDraft d := by
  have hadds := addLines_adds a envType envlen ends hlines data w
  cases hdraft : draftEdits a envType envlen
      (lines.map lineEdit ++ if ends then [] else [.unreadable]) (w.draft data) with
  | error f =>
    rw [hdraft] at hadds
    obtain ⟨w₁, hfault, -⟩ := hadds
    cases (h.unique hfault).1
  | ok next =>
    rw [hdraft] at hadds
    cases next with
    | none =>
      obtain ⟨w₁, ⟨code, data₁, hcode, hret⟩ | hhang, -⟩ := hadds
      · cases (h.unique hret).1
        exact absurd hcode (Int.lt_irrefl 0)
      · cases (h.unique hhang).1
    | some d =>
      obtain ⟨hout, hstate⟩ := h.unique hadds
      cases ends with
      | true =>
        rw [if_pos rfl, List.append_nil] at hdraft
        exact ⟨rfl, d, hdraft, (Prod.mk.inj (Outcome.ret.inj hout)).2, hstate⟩
      | false =>
        rw [draftEdits_append] at hdraft
        obtain ⟨next, -, hlast⟩ := ok_of_bind hdraft
        cases next <;> cases hlast

end Runs

section Drafts

variable {d : Draft ν} {L : List Bytes}

/-- A string that can be added, with room for it: the NVRAM refuses it, or it is
added and the block holds a list again. -/
theorem editDraft_acceptable {varstring : CString} (hsign : varAsign ∈ varstring.val)
    (hshort : ¬TooLong .nvosUboot varstring) (h : Holds 0 d.data L)
    (hroom : (flat 0 L).length + varstring.val.length + 2 ≤ d.data.length) :
    (editDraft a .nvosUboot d.data.length d (.add varstring) = .ok none ∧
      ∃ cmds argv network, a.nvCmdLine cmds argv network = none) ∨
    ∃ d' L', editDraft a .nvosUboot d.data.length d (.add varstring) = .ok (some d') ∧
      Holds 0 d'.data L' ∧ d'.data.length = d.data.length ∧
      (flat 0 L').length ≤ (flat 0 L).length + varstring.val.length + 1 := by
  obtain ⟨hname, hsettings⟩ := not_or.mp fun hlong => hshort ⟨hsign, hlong⟩
  simp only [editDraft, hsign, not_true_eq_false, if_false, hname]
  cases hsetting : settingOf .nvosUboot varstring with
  | some setting =>
    have hfits : ¬envMaxVarNameLen ≤ setting.length := fun hover =>
      hsettings ⟨setting, hsetting, hover⟩
    dsimp only
    rw [if_neg hfits]
    cases hcmd : a.nvCmdLine d.cmds (settingCmd setting) d.network with
    | none => exact .inl ⟨rfl, _, _, _, hcmd⟩
    | some network => exact .inr ⟨_, L, rfl, h, rfl, by omega⟩
  | none =>
    obtain ⟨k, v, -, hv⟩ := eq_varString hsign (Nat.lt_of_not_le hname)
    have herased : (flat 0 (eraseVar k L)).length ≤ (flat 0 L).length :=
      length_flat_le List.eraseP_sublist
    have hpacked : (packed 0 (setVar k v L)).length =
        (flat 0 (eraseVar k L)).length + varstring.val.length + 2 := by
      rw [setVar, length_packed_append, ← hv]
    obtain ⟨mem', hadd, hlen, hmem'⟩ := addVar_fits h k v (by omega)
    rw [← hv] at hadd
    refine .inr ⟨{ d with data := mem' }, setVar k v L, ?_, hmem', hlen, ?_⟩
    · dsimp only
      rw [hadd]
      rfl
    · rw [setVar, flat_append, flat_cons, flat_nil, ← hv, List.length_append, List.length_append,
        List.length_cons, List.length_nil]
      omega

/-- Pieces that can be added, with room for them: the NVRAM refuses one of them,
or they are added and the block holds a list again. -/
theorem draftEdits_acceptable {lines : List Bytes} (hlines : ∀ line ∈ lines, Acceptable line)
    (h : Holds 0 d.data L)
    (hroom : (flat 0 (L ++ lines.map fun line => (lineVar line).val)).length < d.data.length) :
    (draftEdits a .nvosUboot d.data.length (lines.map lineEdit) d = .ok none ∧
      ∃ cmds argv network, a.nvCmdLine cmds argv network = none) ∨
    ∃ d', draftEdits a .nvosUboot d.data.length (lines.map lineEdit) d = .ok (some d') := by
  induction lines generalizing d L with
  | nil => exact .inr ⟨d, rfl⟩
  | cons line lines ih =>
    obtain ⟨hne, hsign, hshort⟩ := hlines line List.mem_cons_self
    rw [flat_append, List.map_cons, flat_cons, List.length_append, List.length_append,
      List.length_cons] at hroom
    rw [List.map_cons, draftEdits, lineEdit, if_neg hne]
    rcases @editDraft_acceptable ν a d L _ hsign hshort h (by omega) with
      ⟨hedit, hrefused⟩ | ⟨d', L', hedit, hholds, hlen, hflat⟩
    · exact .inl ⟨by rw [hedit]; rfl, hrefused⟩
    · rw [hedit, ← hlen]
      refine ih (fun l hl => hlines l (List.mem_cons_of_mem _ hl)) hholds ?_
      rw [flat_append, List.length_append]
      omega

end Drafts

/-- Either every piece can be added, or there is a first one that cannot. -/
theorem acceptable_or_first (lines : List Bytes) :
    (∀ line ∈ lines, Acceptable line) ∨ ∃ before line after, lines = before ++ line :: after ∧
      (∀ l ∈ before, Acceptable l) ∧ ¬Acceptable line := by
  induction lines with
  | nil => exact .inl fun line hline => absurd hline List.not_mem_nil
  | cons line lines ih =>
    by_cases hline : Acceptable line
    · rcases ih with hall | ⟨before, first, after, hsplit, hbefore, hfirst⟩
      · exact .inl (List.forall_mem_cons.mpr ⟨hline, hall⟩)
      · exact .inr ⟨line :: before, first, after, congrArg (line :: ·) hsplit,
          List.forall_mem_cons.mpr ⟨hline, hbefore⟩, hfirst⟩
    · exact .inr ⟨[], line, lines, rfl, fun l hl => absurd hl List.not_mem_nil, hline⟩

/-- The edit of a piece without an equals sign is refused. -/
theorem editDraft_unassigned {line : Bytes} (h : Unassigned line) (envlen : ℕ) (d : Draft ν) :
    editDraft a .nvosUboot envlen d (lineEdit line) = .ok none := by
  rw [lineEdit, if_neg h.1]
  simp only [editDraft, h.2, not_false_eq_true, if_true]

/-- The edit of any other piece that cannot be added leaves an array. -/
theorem editDraft_beyond {line : Bytes} (h : ¬Acceptable line) (hassigned : ¬Unassigned line)
    (envlen : ℕ) (d : Draft ν) :
    ∃ f, editDraft a .nvosUboot envlen d (lineEdit line) = .error f := by
  by_cases hne : (CString.ofCells line).val = []
  · exact ⟨_, by rw [lineEdit, if_pos hne]; rfl⟩
  rw [lineEdit, if_neg hne]
  have hsign : varAsign ∈ (lineVar line).val := by
    by_contra hno
    exact hassigned ⟨hne, hno⟩
  have hlong : TooLong .nvosUboot (lineVar line) := by
    by_contra hshort
    exact h ⟨hne, hsign, hshort⟩
  simp only [editDraft, hsign, not_true_eq_false, if_false]
  by_cases hname : envMaxVarNameLen ≤ (varName (lineVar line)).val.length
  · exact ⟨_, if_pos hname⟩
  · obtain ⟨setting, hsetting, hover⟩ := hlong.2.resolve_left hname
    rw [if_neg hname, hsetting]
    exact ⟨_, if_pos hover⟩

section Sufficient

variable {ends : Bool} {content : Bytes}

/-- With a piece that has no equals sign, not every edit is made. -/
theorem not_all_edits {before after : List Bytes} {line : Bytes} (hline : Unassigned line)
    (envlen : ℕ) (d d' : Draft ν) :
    draftEdits a .nvosUboot envlen ((before ++ line :: after).map lineEdit) d ≠ .ok (some d') := by
  intro hdraft
  rw [List.map_append, draftEdits_append] at hdraft
  obtain ⟨next, -, hrest⟩ := ok_of_bind hdraft
  cases next with
  | none => cases hrest
  | some next =>
    dsimp only at hrest
    rw [List.map_cons, draftEdits, editDraft_unassigned hline] at hrest
    cases hrest

/-- The edits of an importable file leave no array in a block with room. -/
theorem draftEdits_importable (h : Importable ends content) {d : Draft ν} {L : List Bytes}
    (hholds : Holds 0 d.data L)
    (hroom : (flat 0 (L ++ (givenTexts ends content).map Subtype.val)).length < d.data.length)
    (f : Fault) :
    draftEdits a .nvosUboot d.data.length
      ((fileLines ends content).map lineEdit ++ if ends then [] else [.unreadable]) d ≠
        .error f := by
  rw [givenTexts, List.map_map] at hroom
  rcases h with ⟨before, line, after, hsplit, hbefore, hline⟩ | ⟨hends, -, hall⟩
  · have hless : (flat 0 (L ++ before.map fun line => (lineVar line).val)).length <
        d.data.length := by
      refine Nat.lt_of_le_of_lt (length_flat_le ?_) hroom
      rw [hsplit, List.map_append]
      exact (List.sublist_append_left _ _).append_left L
    rw [hsplit, List.map_append, List.append_assoc, draftEdits_append]
    rcases @draftEdits_acceptable ν a d L before hbefore hholds hless with
      ⟨hdraft, -⟩ | ⟨d', hdraft⟩
    · rw [hdraft]
      exact fun h => (by cases h)
    · rw [hdraft]
      change draftEdits a .nvosUboot d.data.length
        (lineEdit line :: (after.map lineEdit ++ if ends then [] else [.unreadable])) d' ≠ _
      rw [draftEdits, editDraft_unassigned hline]
      exact fun h => (by cases h)
  · rw [hends, if_pos rfl, List.append_nil]
    rw [hends] at hroom hall
    rcases @draftEdits_acceptable ν a d L _ hall hholds hroom with ⟨hdraft, -⟩ | ⟨d', hdraft⟩
    · rw [hdraft]
      exact fun h => (by cases h)
    · rw [hdraft]
      exact fun h => (by cases h)

/-- An importable file is imported faithfully. -/
theorem faithful_of_importable (h : Importable ends content) : Faithful ends content := by
  have hlines : ∀ line ∈ fileLines ends content, line.length ≤ 308 := fun line =>
    length_mem_linesFrom
  constructor
  · intro ν a filename data envlen w w' hopen hhang
    obtain ⟨hends, d, hdraft⟩ := addLines_hangs hlines ((import_ends hopen).mp hhang)
    rcases h with ⟨before, line, after, hsplit, -, hline⟩ | ⟨hreadable, -⟩
    · rw [hsplit] at hdraft
      exact not_all_edits hline envlen _ d hdraft
    · rw [hends] at hreadable
      cases hreadable
  · intro ν a filename data L w w' f hopen hholds hroom hfault
    have hadds := addLines_adds a .nvosUboot data.length ends hlines data w
    exact adds_inside hadds (@draftEdits_importable ν a ends content h (w.draft data) L hholds hroom)
      ((import_ends hopen).mp hfault)
  · intro ν a filename data data' envlen w w' hopen hsuccess
    obtain ⟨hends, d, hdraft, hdata, hstate⟩ :=
      edits_of_success hlines ((import_ends hopen).mp hsuccess)
    rcases h with ⟨before, line, after, hsplit, -, hline⟩ | ⟨-, hwhole, hall⟩
    · rw [hsplit] at hdraft
      exact absurd hdraft (not_all_edits hline envlen _ d)
    · have hedits : (fileLines ends content).map lineEdit =
          (givenTexts ends content).map .add := by
        rw [givenTexts, List.map_map]
        exact List.map_inj_left.mpr fun line hline => if_neg (hall line hline).1
      have hadds := @addEach_adds ν a .nvosUboot envlen data w (givenTexts ends content)
      rw [← hedits, hdraft] at hadds
      rw [hends] at hadds ⊢
      refine ⟨(givenTexts_eq_iff content).mpr hwhole, ?_⟩
      rw [hdata, hstate]
      exact hadds

end Sufficient

/-- An NVRAM that accepts every setting, and one file. -/
def accepting (file : Opened) : Answers Unit where
  nvInit := true
  nvOSCfgFind := fun _ => true
  nvOSCfgAdd := none
  nvOSCfgGet := true
  nvOSCfgSet := true
  nvCmdLine := fun _ _ _ => some ()
  nvSave := true
  nvCriticalGet := none
  nvToStringIP := fun _ => []
  malloc := true
  fopen := fun _ => file

section Necessary

variable {ends : Bool} {content : Bytes}

/-- A system before the import. -/
def importWorld : World Unit := started ⟨fun _ => none, ()⟩ ⟨fun _ => none, ()⟩

/-- A cleared block that is large enough for the variables of a file. -/
def largeBlock (ends : Bool) (content : Bytes) : Bytes :=
  List.replicate ((flat 0 ((givenTexts ends content).map Subtype.val)).length + 2) 0

/-- Pieces that can be added are added to a cleared block. -/
theorem draftEdits_large {before after : List Bytes} (hsplit : fileLines ends content = before ++ after)
    (hbefore : ∀ line ∈ before, Acceptable line) :
    ∃ d', draftEdits (accepting (.file content ends)) .nvosUboot (largeBlock ends content).length
      (before.map lineEdit) (importWorld.draft (largeBlock ends content)) = .ok (some d') := by
  have hholds : Holds 0 (largeBlock ends content) [] := holds_nil_iff.mpr ⟨_, rfl⟩
  have hroom : (flat 0 ([] ++ before.map fun line => (lineVar line).val)).length <
      (largeBlock ends content).length := by
    have hless : (flat 0 (before.map fun line => (lineVar line).val)).length ≤
        (flat 0 ((givenTexts ends content).map Subtype.val)).length := by
      refine length_flat_le ?_
      rw [givenTexts, List.map_map, hsplit, List.map_append]
      exact List.sublist_append_left _ _
    rw [List.nil_append, largeBlock, List.length_replicate]
    omega
  rcases @draftEdits_acceptable Unit (accepting (.file content ends))
    (importWorld.draft (largeBlock ends content)) [] before hbefore hholds hroom with
    ⟨-, cmds, argv, network, hrefused⟩ | hdraft
  · cases hrefused
  · exact hdraft

/-- A file that is imported faithfully is importable. -/
theorem importable_of_faithful (h : Faithful ends content) : Importable ends content := by
  have hlines : ∀ line ∈ fileLines ends content, line.length ≤ 308 := fun line =>
    length_mem_linesFrom
  have hopen : (accepting (.file content ends)).fopen (CString.ofCells []).val =
      .file content ends := rfl
  have hadds := addLines_adds (accepting (.file content ends)) .nvosUboot
    (largeBlock ends content).length ends hlines (largeBlock ends content) importWorld
  rcases acceptable_or_first (fileLines ends content) with
    hall | ⟨before, line, after, hsplit, hbefore, hline⟩
  · obtain ⟨d, hdraft⟩ := draftEdits_large (List.append_nil _).symm hall
    cases ends with
    | false =>
      obtain ⟨w', hhang⟩ := hang_of_unreadable hlines hdraft
      exact absurd ((import_ends hopen).mpr hhang) (h.terminates Unit _ _ _ _ _ w' hopen)
    | true =>
      rw [if_pos rfl, List.append_nil, hdraft] at hadds
      have hsuccess : Ends (handler (accepting (.file content true)))
          (envAddVarsFromFile .nvosUboot (CString.ofCells []) (largeBlock true content)
            (largeBlock true content).length) importWorld (.ret (0, d.data))
          (importWorld.withDraft d) := (import_ends hopen).mpr hadds
      obtain ⟨hwhole, -⟩ := h.whole Unit _ _ _ _ _ _ _ hopen hsuccess
      exact .inr ⟨rfl, (givenTexts_eq_iff content).mp hwhole, hall⟩
  · by_cases hassigned : Unassigned line
    · exact .inl ⟨before, line, after, hsplit, hbefore, hassigned⟩
    · obtain ⟨d, hdraft⟩ := draftEdits_large hsplit hbefore
      obtain ⟨f, hedit⟩ := @editDraft_beyond Unit (accepting (.file content ends)) line hline
        hassigned (largeBlock ends content).length d
      rw [hsplit, List.map_append, List.append_assoc, draftEdits_append, hdraft] at hadds
      obtain ⟨w', hfault, -⟩ : Adds (accepting (.file content ends)) _ importWorld (.error f) := by
        change Adds _ _ _ (draftEdits _ _ _ (lineEdit line :: _) d) at hadds
        rw [draftEdits, hedit] at hadds
        exact hadds
      rw [← hsplit] at hfault
      refine absurd ((import_ends hopen).mpr hfault)
        (h.inside Unit _ _ _ [] _ w' f hopen (holds_nil_iff.mpr ⟨_, rfl⟩) ?_)
      rw [List.nil_append, largeBlock, List.length_replicate]
      omega

end Necessary

/-- The import of a file is faithful exactly when the file is importable. -/
theorem faithful_iff (ends : Bool) (content : Bytes) :
    Faithful ends content ↔ Importable ends content :=
  ⟨importable_of_faithful, faithful_of_importable⟩

/-- A line of 311 characters. -/
def longLine : Bytes := text "a=" ++ List.replicate 306 120 ++ text "b=y"

/-- A file that cannot be read is read for ever, and a long line is added as two
variables. -/
theorem unreadable_and_long :
    ¬Faithful false [] ∧ ¬Faithful true (longLine ++ text "\n") := by
  constructor
  · intro h
    rcases importable_of_faithful h with ⟨before, line, after, hsplit, -⟩ | ⟨hends, -⟩
    · cases before <;> cases hsplit
    · cases hends
  · intro h
    have hlines : fileLines true (longLine ++ text "\n") =
        [text "a=" ++ List.replicate 306 120, text "b=y\n"] := by decide +kernel
    rcases importable_of_faithful h with ⟨before, line, after, hsplit, -, hline⟩ | ⟨-, hwhole, -⟩
    · have hmem : line ∈ fileLines true (longLine ++ text "\n") := by
        rw [hsplit]
        exact List.mem_append_right before List.mem_cons_self
      rw [hlines] at hmem
      rcases List.mem_cons.mp hmem with rfl | hmem
      · exact hline.2 (by decide +kernel)
      · rw [List.mem_singleton.mp hmem] at hline
        exact hline.2 (by decide)
    · have hone : linesWith newline (longLine ++ text "\n") = [longLine ++ text "\n"] := by
        decide +kernel
      rw [hone] at hwhole
      exact absurd (hwhole _ List.mem_cons_self).1 (by decide +kernel)

end MetaDigi.EnvImport
