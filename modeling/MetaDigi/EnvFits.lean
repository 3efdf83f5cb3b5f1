import MetaDigi.EnvBounds
import MetaDigi.EnvCommit
import MetaDigi.EnvContents

/-!
# Runs that fit their arrays

Whether a run stays inside its arrays is told from what it is given: the
lengths of the names and settings, the lines of the file, the room in the block
and its end mark. So is what has become of the network settings by the time the
block is set. With both, the runs that are all or nothing are told as well.
-/

namespace MetaDigi.EnvFits

open CheckedMemory CStrings Crc32 EnvBounds EnvCommit EnvContents EnvEdits EnvFuncs EnvMain
open EnvNvram EnvRuns
  PackedStrings SystemProgram SystemRuns

variable {ν : Type}

/-- What an edit makes of the contents. -/
def edited (envType : NvOsType) (c : Contents) : Edit → Contents
  | .add varstring => if (settingOf envType varstring).isSome then c else c.added varstring
  | .remove var => c.removed var
  | .emptyLine => c
  | .unreadable => c

/-- An edit fits: what is added has a name or a setting of less than 50
characters, and a variable has room in the block; a name that is removed has
less than 50 characters, and its lookup ends. -/
def EditFits (envType : NvOsType) (cells : ℕ) (c : Contents) : Edit → Prop
  | .add varstring =>
    varAsign ∈ varstring.val →
      (varName varstring).val.length < envMaxVarNameLen ∧
        (∀ setting ∈ settingOf envType varstring, setting.length < envMaxVarNameLen) ∧
        (settingOf envType varstring = none → c.HasRoom varstring cells)
  | .remove var => var.val.length < envMaxVarNameLen ∧ c.Searched
  | .emptyLine => False
  | .unreadable => True

/-- The network settings behind an edit, with the number of their changes.
There are none behind one that is refused. -/
def networkAfter (a : Answers ν) (envType : NvOsType) (s : ℕ × ν) : Edit → Option (ℕ × ν)
  | .add varstring =>
    if varAsign ∈ varstring.val then
      match settingOf envType varstring with
      | some setting => (a.nvCmdLine s.1 (settingCmd setting) s.2).map fun network =>
        (s.1 + 1, network)
      | none => some s
    else none
  | .remove _ => some s
  | .emptyLine => none
  | .unreadable => none

/-- Every edit that is come to fits. -/
def EditsFit (a : Answers ν) (envType : NvOsType) (cells : ℕ) :
    Contents → ℕ × ν → List Edit → Prop
  | _, _, [] => True
  | c, s, e :: es => EditFits envType cells c e ∧
    ∀ s', networkAfter a envType s e = some s' →
      EditsFit a envType cells (edited envType c e) s' es

/-- What is shown fits: a dump ends, and so does the lookup of each name that
is printed. -/
def ShowFits (o : Options) (c : Contents) : Prop :=
  if o.dump then c.Searched
  else ∀ printlist ∈ o.printlist, ∀ var ∈ varNames printlist,
    var.val.length < envMaxVarNameLen ∧ c.Finds var

/-- A block with the right checksum. -/
def Valid (block : Bytes) : Prop := loadUlong (block.take 4) = .ok (crc32 0 (block.drop 4))

/-- A change is refused, or the block is: it can be written only once and has
been, or it is not valid. -/
def Refused (envType : NvOsType) (o : Options) (block : Bytes) : Prop :=
  (envOnetimeWritable envType = true ∧ Valid block ∧ ¬[0, 0] <+: block.drop 4 ∧
    o.modifies = true) ∨
  o.clean = false ∧ ¬Valid block

/-- The checks of a block fit: it has a header where its checksum is looked at,
and data or an end mark where one is looked for. -/
structure ChecksFit (envType : NvOsType) (o : Options) (block : Bytes) : Prop where
  /-- The header. -/
  header : envOnetimeWritable envType = true ∨ o.clean = false → 4 ≤ block.length
  /-- The end mark. -/
  marked : envOnetimeWritable envType = true → Valid block → block.drop 4 ≠ [] →
    ∃ c : Contents, c.In (block.drop 4) ∧ c.Marked

/-- A run fits its arrays. -/
structure Fits (a : Answers ν) (l : Loaded ν) : Prop where
  /-- The checks of the block. -/
  checks : ChecksFit l.envType l.o l.block
  /-- The changes, and what is shown and sealed behind them. -/
  changes : ¬Refused l.envType l.o l.block → ∃ c : Contents,
    c.In (dataBefore l.o l.block) ∧
    EditsFit a l.envType (l.block.length - 4) c (0, l.working.network) (edits a.fopen l.o) ∧
    ∀ s, (edits a.fopen l.o).foldlM (networkAfter a l.envType) (0, l.working.network) = some s →
      ShowFits l.o ((edits a.fopen l.o).foldl (edited l.envType) c) ∧
        (l.o.modifies = true → 4 ≤ l.block.length)

section Edits

variable {a : Answers ν} {envType : NvOsType} {till : ℕ} {c : Contents} {d : Draft ν} {e : Edit}

/-- Data of the same size ends where it did. -/
theorem bounded_of_length {data data' : Bytes} (h : Bounded data till)
    (hlen : data'.length = data.length) : Bounded data' till := by
  rcases h with hnil | htill
  · exact .inl (List.length_eq_zero_iff.mp (by rw [hlen, hnil, List.length_nil]))
  · exact .inr (htill.trans hlen.symm)

/-- How an edit that stays inside ends, on these contents. -/
def Keeps (a : Answers ν) (envType : NvOsType) (c : Contents) (es : List Edit) (d : Draft ν)
    (r : Except Fault (Option (Draft ν))) : Prop :=
  es.foldlM (networkAfter a envType) (d.cmds, d.network) = none ∧ r = .ok none ∨
  ∃ d', es.foldlM (networkAfter a envType) (d.cmds, d.network) = some (d'.cmds, d'.network) ∧
    r = .ok (some d') ∧ d'.data.length = d.data.length ∧
    (es.foldl (edited envType) c).In d'.data

/-- An edit that fits stays inside. -/
theorem editDraft_fits (h : c.In d.data) (htill : Bounded d.data till)
    (hfits : EditFits envType d.data.length c e) :
    Keeps a envType c [e] d (editDraft a envType till d e) := by
  unfold Keeps
  rw [List.foldlM_cons, List.foldl_cons, List.foldl_nil]
  simp only [List.foldlM_nil]
  cases e with
  | add varstring =>
    by_cases hsign : varAsign ∈ varstring.val
    swap
    · refine .inl ⟨?_, ?_⟩
      · rw [networkAfter, if_neg hsign]
        rfl
      · rw [editDraft, if_pos hsign]
    obtain ⟨hshort, hsettings, hroom⟩ := hfits hsign
    simp only [networkAfter, editDraft, hsign, not_true_eq_false, if_false,
      Nat.not_le_of_lt hshort]
    cases hsetting : settingOf envType varstring with
    | some setting =>
      have hlong := Nat.not_le_of_lt (hsettings setting hsetting)
      simp only [if_neg hlong]
      cases a.nvCmdLine d.cmds (settingCmd setting) d.network with
      | none => exact .inl ⟨rfl, rfl⟩
      | some network =>
        refine .inr ⟨{ d with network := network, cmds := d.cmds + 1 }, rfl, rfl, rfl, ?_⟩
        rw [edited, hsetting, Option.isSome_some, if_pos rfl]
        exact h
    | none =>
      obtain ⟨data', hadd, hlen, hin⟩ := addVar_in hsign hshort h htill (hroom hsetting)
      refine .inr ⟨{ d with data := data' }, rfl, ?_, hlen, ?_⟩
      · simp only [hadd, bind, Except.bind, if_true]
        rfl
      · rw [edited, hsetting, Option.isSome_none, if_neg Bool.false_ne_true]
        exact hin
  | remove var =>
    obtain ⟨b, data', hremove, hlen, hin⟩ := removeVar_in h htill hfits.1 hfits.2
    refine .inr ⟨{ d with data := data' }, rfl, ?_, hlen, hin⟩
    rw [editDraft, hremove]
    rfl
  | emptyLine => exact hfits.elim
  | unreadable => exact .inl ⟨rfl, rfl⟩

/-- One that does not fit leaves an array. -/
theorem editDraft_faults (h : c.In d.data) (htill : Bounded d.data till)
    (hno : ¬EditFits envType d.data.length c e) : Faults (editDraft a envType till d e) := by
  cases e with
  | add varstring =>
    simp only [EditFits, Classical.not_imp, not_and_or] at hno
    obtain ⟨hsign, hno⟩ := hno
    simp only [editDraft, hsign, not_true_eq_false, if_false]
    split
    · exact ⟨_, rfl⟩
    rename_i hname
    have hshort := Nat.lt_of_not_le hname
    cases hsetting : settingOf envType varstring with
    | some setting =>
      rw [hsetting] at hno
      have hlong : envMaxVarNameLen ≤ setting.length := by simpa [hshort] using hno
      simp only [if_pos hlong]
      exact ⟨_, rfl⟩
    | none =>
      rw [hsetting] at hno
      have hroom : ¬c.HasRoom varstring d.data.length := by simpa [hshort] using hno
      exact (addVar_faults hsign hshort h htill hroom).bind _
  | remove var => exact (removeVar_faults h htill hno).bind _
  | emptyLine => exact ⟨_, rfl⟩
  | unreadable => exact absurd trivial hno

/-- Edits that fit stay inside. -/
theorem draftEdits_fits {es : List Edit} (h : c.In d.data) (htill : Bounded d.data till)
    (hfits : EditsFit a envType d.data.length c (d.cmds, d.network) es) :
    Keeps a envType c es d (draftEdits a envType till es d) := by
  induction es generalizing c d with
  | nil => exact .inr ⟨d, rfl, rfl, rfl, h⟩
  | cons e es ih =>
    unfold Keeps
    rw [List.foldlM_cons, List.foldl_cons, draftEdits]
    have hfirst := editDraft_fits (a := a) h htill hfits.1
    unfold Keeps at hfirst
    rw [List.foldlM_cons, List.foldl_cons, List.foldl_nil] at hfirst
    simp only [List.foldlM_nil, bind_pure] at hfirst
    rcases hfirst with ⟨hnone, hedit⟩ | ⟨d', hsome, hedit, hlen, hin⟩
    · rw [hnone, hedit]
      exact .inl ⟨rfl, rfl⟩
    · rw [hsome, hedit]
      have hrest := hfits.2 _ hsome
      rw [← hlen] at hrest
      rcases ih hin (bounded_of_length htill hlen) hrest with
        hnone | ⟨d'', hsome', hedits, hlen', hin'⟩
      · exact .inl hnone
      · exact .inr ⟨d'', hsome', hedits, hlen'.trans hlen, hin'⟩

/-- Edits of which one does not fit leave an array. -/
theorem draftEdits_faults {es : List Edit} (h : c.In d.data) (htill : Bounded d.data till)
    (hno : ¬EditsFit a envType d.data.length c (d.cmds, d.network) es) :
    Faults (draftEdits a envType till es d) := by
  induction es generalizing c d with
  | nil => exact absurd trivial hno
  | cons e es ih =>
    rw [draftEdits]
    by_cases hfits : EditFits envType d.data.length c e
    swap
    · exact (editDraft_faults h htill hfits).bind _
    have hfirst := editDraft_fits (a := a) h htill hfits
    unfold Keeps at hfirst
    rw [List.foldlM_cons, List.foldl_cons, List.foldl_nil] at hfirst
    simp only [List.foldlM_nil, bind_pure] at hfirst
    simp only [EditsFit, not_and, not_forall] at hno
    obtain ⟨s', hs', hrest⟩ := hno hfits
    rcases hfirst with ⟨hnone, -⟩ | ⟨d', hsome, hedit, hlen, hin⟩
    · rw [hnone] at hs'
      cases hs'
    · rw [hsome] at hs'
      cases hs'
      rw [← hlen] at hrest
      rw [hedit]
      exact ih hin (bounded_of_length htill hlen) hrest

end Edits

section Show

variable {till : ℕ} {c : Contents} {data : Bytes}

/-- Names are looked up until one leaves an array. -/
theorem lookups_faults_iff (h : c.In data) (htill : Bounded data till) (vars : List CString) :
    Faults (lookups data till vars) ↔
      ¬∀ var ∈ vars, var.val.length < envMaxVarNameLen ∧ c.Finds var := by
  induction vars with
  | nil => exact ⟨fun hfaults => absurd hfaults (not_faults_ok ()), fun hno => absurd (by simp) hno⟩
  | cons var vars ih =>
    have hvar := varInEnv_faults_iff h htill var
    rw [lookups, List.forall_mem_cons, not_and_or, ← hvar, ← ih]
    cases hread : varInEnv data till var with
    | error f => exact ⟨fun _ => .inl ⟨f, rfl⟩, fun _ => ⟨f, rfl⟩⟩
    | ok line => exact (or_iff_right (not_faults_ok line)).symm

/-- What is shown leaves an array unless it fits. -/
theorem shown_faults_iff (h : c.In data) (htill : Bounded data till) (o : Options) :
    Faults (shown o data till) ↔ ¬ShowFits o c := by
  unfold shown ShowFits
  by_cases hdump : o.dump = true
  · have hprint := dump_faults_iff h htill
    rw [if_pos hdump, if_pos hdump, ← hprint]
    cases envPrintenvDump data 0 till with
    | error f => exact ⟨fun _ => ⟨f, rfl⟩, fun _ => ⟨f, rfl⟩⟩
    | ok lines =>
      exact ⟨fun hfaults => absurd hfaults (not_faults_ok ()),
        fun hfaults => absurd hfaults (not_faults_ok lines)⟩
  · rw [if_neg hdump, if_neg hdump]
    cases o.printlist with
    | none =>
      exact ⟨fun hfaults => absurd hfaults (not_faults_ok ()), fun hno => absurd (by simp) hno⟩
    | some printlist => simpa using lookups_faults_iff h htill (varNames printlist)

end Show

section Checks

variable {envType : NvOsType} {o : Options} {block : Bytes}

/-- Without a header the checksum is looked for beside the block. -/
theorem invalid_short (hshort : block.length < 4) :
    Faults (invalid (EnvT.ofBlock block) (envLen block.length)) := by
  have hdata : (EnvT.ofBlock block).data = [] := List.drop_of_length_le (Nat.le_of_lt hshort)
  have hover : ¬envLen block.length ≤ ([] : Bytes).length := by
    rw [envLen, if_pos hshort, List.length_nil]
    omega
  rw [invalid, envChecksums, crcOver, hdata, if_neg hover]
  exact ⟨_, rfl⟩

/-- A header holds some checksum. -/
theorem loadUlong_header (hlen : 4 ≤ block.length) : ∃ crc, loadUlong (block.take 4) = .ok crc := by
  match block, hlen with
  | b0 :: b1 :: b2 :: b3 :: _, _ => exact ⟨_, rfl⟩

/-- The checksum covers the data behind the header. -/
theorem invalid_header (hlen : 4 ≤ block.length) :
    (Valid block → invalid (EnvT.ofBlock block) (envLen block.length) = .ok false) ∧
      (¬Valid block → invalid (EnvT.ofBlock block) (envLen block.length) = .ok true) := by
  obtain ⟨crc, hcrc⟩ := loadUlong_header hlen
  have henv : envLen block.length = (block.drop 4).length := by
    rw [envLen, if_neg (by omega), List.length_drop]
  have hinvalid : invalid (EnvT.ofBlock block) (envLen block.length) =
      .ok (decide (crc ≠ crc32 0 (block.drop 4))) := by
    simp only [invalid, envChecksums, crcOver, EnvT.ofBlock, henv, Nat.le_refl, if_true,
      List.take_length, hcrc, bind, Except.bind]
    rfl
  rw [hinvalid, Valid, hcrc]
  refine ⟨fun hvalid => ?_, fun hvalid => ?_⟩
  · rw [Except.ok.inj hvalid]
    simp
  · exact congrArg Except.ok (decide_eq_true fun hsame => hvalid (by rw [hsame]))

/-- The end mark is the second cell of data that begins with two NULs. -/
theorem secondNul_one_iff (data : Bytes) : SecondNul data 1 ↔ [0, 0] <+: data := by
  constructor
  · rintro ⟨-, hfirst, hsecond⟩
    match data, hfirst, hsecond with
    | x :: y :: rest, hfirst, hsecond =>
      have hx : x = 0 := by simpa using hfirst
      have hy : y = 0 := by simpa using hsecond
      exact ⟨rest, by rw [hx, hy]; rfl⟩
  · rintro ⟨rest, rfl⟩
    exact ⟨by omega, rfl, rfl⟩

/-- Data is empty when it begins with the end mark. -/
theorem envIsEmpty_eq {data : Bytes} (hends : ¬Faults (getEndMark data 0 data.length)) :
    envIsEmpty data data.length = .ok (decide ([0, 0] <+: data)) := by
  by_cases hnil : data = []
  · rw [hnil]
    rfl
  obtain ⟨r, hr⟩ := not_faults_iff.mp hends
  have hpos := List.length_pos_iff.mpr hnil
  obtain ⟨addr, hsome, hpair⟩ := (searchEnd_ok_iff hpos (by omega)).mp hr
  have hiff : r = some 1 ↔ [0, 0] <+: data := by
    rw [hsome, Option.some_inj, ← secondNul_one_iff]
    refine ⟨fun hone => hone ▸ hpair.pair, fun hone => ?_⟩
    exact hpair.unique ⟨hone, by omega, fun e hlt hbelow => by omega⟩
  rw [envIsEmpty, hr]
  simp only [bind, Except.bind, decide_eq_decide.mpr hiff]
  rfl

/-- The check for a block that has been written before. -/
theorem writtenBefore_fits (h : ChecksFit envType o block) :
    ∃ written, writtenBefore envType (EnvT.ofBlock block) (envLen block.length) = .ok written ∧
      (written = true ↔ envOnetimeWritable envType = true ∧ Valid block ∧
        ¬[0, 0] <+: block.drop 4) := by
  unfold writtenBefore
  by_cases hone : envOnetimeWritable envType = true
  swap
  · rw [if_neg hone]
    exact ⟨false, rfl, fun hfalse => absurd hfalse (by decide), fun hboth => absurd hboth.1 hone⟩
  have hheader := h.header (.inl hone)
  rw [if_pos hone]
  by_cases hvalid : Valid block
  swap
  · rw [(invalid_header hheader).2 hvalid]
    exact ⟨false, rfl, fun hfalse => absurd hfalse (by decide),
      fun hboth => absurd hboth.2.1 hvalid⟩
  have hends : ¬Faults (getEndMark (block.drop 4) 0 (block.drop 4).length) := by
    by_cases hnil : block.drop 4 = []
    · rw [hnil]
      exact not_faults_ok none
    · obtain ⟨c, hin, hmarked⟩ := h.marked hone hvalid hnil
      rw [getEndMark_faults_iff hin]
      exact fun hboth => hboth.2 hmarked
  have henv : envLen block.length = (block.drop 4).length := by
    rw [envLen, if_neg (by omega), List.length_drop]
  rw [(invalid_header hheader).1 hvalid]
  have hempty := envIsEmpty_eq hends
  rw [← henv] at hempty
  refine ⟨!decide ([0, 0] <+: block.drop 4), ?_, by simp [hone, hvalid]⟩
  simp only [bind, Except.bind, EnvT.ofBlock, hempty, Bool.false_eq_true, if_false]
  rfl

/-- Checks that fit refuse the block or let the changes begin. -/
theorem startEnv_fits (h : ChecksFit envType o block) :
    Refused envType o block ∧ startEnv envType o block = .ok none ∨
      ¬Refused envType o block ∧ ∃ env, startEnv envType o block = .ok (some env) := by
  obtain ⟨written, hwritten, hiff⟩ := writtenBefore_fits h
  unfold startEnv
  rw [hwritten]
  by_cases hrefused : (written && o.modifies) = true
  · obtain ⟨hw, hmod⟩ := Bool.and_eq_true_iff.mp hrefused
    obtain ⟨hone, hvalid, hsome⟩ := hiff.mp hw
    refine .inl ⟨.inl ⟨hone, hvalid, hsome, hmod⟩, ?_⟩
    simp only [bind, Except.bind, hrefused, if_true]
    rfl
  have hpermitted : ¬(envOnetimeWritable envType = true ∧ Valid block ∧ ¬[0, 0] <+: block.drop 4 ∧
      o.modifies = true) := by
    rintro ⟨hone, hvalid, hsome, hmod⟩
    exact hrefused (by rw [hiff.mpr ⟨hone, hvalid, hsome⟩, hmod]; rfl)
  simp only [bind, Except.bind, if_neg hrefused]
  by_cases hclean : o.clean = true
  · refine .inr ⟨fun hno => ?_, EnvT.ofBlock (List.replicate block.length 0),
      by rw [if_pos hclean]; rfl⟩
    rcases hno with hno | ⟨hfalse, -⟩
    · exact hpermitted hno
    · rw [hclean] at hfalse
      cases hfalse
  have hheader := h.header (.inr (Bool.eq_false_iff.mpr hclean))
  rw [if_neg hclean]
  by_cases hvalid : Valid block
  · rw [(invalid_header hheader).1 hvalid]
    refine .inr ⟨fun hno => ?_, EnvT.ofBlock block, rfl⟩
    rcases hno with hno | ⟨-, hinvalid⟩
    · exact hpermitted hno
    · exact hinvalid hvalid
  · rw [(invalid_header hheader).2 hvalid]
    exact .inl ⟨.inr ⟨Bool.eq_false_iff.mpr hclean, hvalid⟩, rfl⟩

/-- Checks that do not fit leave an array. -/
theorem startEnv_faults (hno : ¬ChecksFit envType o block) : Faults (startEnv envType o block) := by
  by_cases hheader : 4 ≤ block.length
  · -- the end mark is looked for in vain
    have hmarked : ¬(envOnetimeWritable envType = true → Valid block → block.drop 4 ≠ [] →
        ∃ c : Contents, c.In (block.drop 4) ∧ c.Marked) := fun h => hno ⟨fun _ => hheader, h⟩
    simp only [Classical.not_imp] at hmarked
    obtain ⟨hone, hvalid, hne, hnone⟩ := hmarked
    obtain ⟨c, hin⟩ := exists_contents (block.drop 4)
    have hends := (getEndMark_faults_iff hin).mpr ⟨hne, fun hmark => hnone ⟨c, hin, hmark⟩⟩
    have henv : envLen block.length = (block.drop 4).length := by
      rw [envLen, if_neg (by omega), List.length_drop]
    have hempty : Faults (envIsEmpty (EnvT.ofBlock block).data (envLen block.length)) := by
      rw [henv]
      exact hends.bind _
    refine Faults.bind ?_ _
    rw [writtenBefore, if_pos hone, (invalid_header hheader).1 hvalid]
    exact hempty.bind _
  · -- the checksum is looked for in vain
    have hinvalid := invalid_short (Nat.lt_of_not_le hheader)
    have hlooked : envOnetimeWritable envType = true ∨ o.clean = false := by
      by_contra hboth
      obtain ⟨hone, hclean⟩ := not_or.mp hboth
      exact hno ⟨fun h => absurd h hboth, fun h => absurd h hone⟩
    by_cases hone : envOnetimeWritable envType = true
    · refine Faults.bind ?_ _
      rw [writtenBefore, if_pos hone]
      exact hinvalid.bind _
    · have hclean : ¬o.clean = true := by
        rw [Bool.not_eq_true]
        exact hlooked.resolve_left hone
      rw [startEnv, writtenBefore, if_neg hone]
      simp only [bind, Except.bind, pure, Except.pure, Bool.false_and, Bool.false_eq_true, if_false,
        if_neg hclean]
      exact hinvalid.bind _

end Checks

section Attempt

variable {a : Answers ν} {l : Loaded ν}

/-- The data behind the header. -/
theorem length_dataBefore (o : Options) (block : Bytes) :
    (dataBefore o block).length = block.length - 4 := by
  unfold dataBefore
  split
  · exact List.length_replicate
  · exact List.length_drop

/-- The end of the data is where the size of the block puts it. -/
theorem bounded_data {data block : Bytes} (hlen : data.length = block.length - 4) :
    Bounded data (envLen block.length) := by
  unfold Bounded envLen
  split
  · exact .inl (List.length_eq_zero_iff.mp (by omega))
  · exact .inr hlen.symm

/-- Showing and sealing the data leaves an array unless both fit. -/
theorem checked_faults_iff {c : Contents} {d : Draft ν} (h : c.In d.data)
    (hlen : d.data.length = l.block.length - 4) :
    Faults (checked l d) ↔
      ¬(ShowFits l.o c ∧ (l.o.modifies = true → 4 ≤ l.block.length)) := by
  have hshow := shown_faults_iff h (bounded_data hlen) l.o
  rw [not_and_or, ← hshow, checked]
  cases shown l.o d.data (envLen l.block.length) with
  | error f => exact ⟨fun _ => .inl ⟨f, rfl⟩, fun _ => ⟨f, rfl⟩⟩
  | ok _ =>
    rw [or_iff_right (not_faults_ok _), Classical.not_imp]
    simp only [bind, Except.bind]
    by_cases hmod : l.o.modifies = true
    swap
    · rw [if_neg hmod]
      exact ⟨fun hfaults => absurd hfaults (not_faults_ok ()), fun hboth => absurd hboth.1 hmod⟩
    rw [if_pos hmod, crcOver]
    by_cases hheader : 4 ≤ l.block.length
    · have henv : envLen l.block.length = l.block.length - 4 := if_neg (by omega)
      rw [henv, if_pos (by omega)]
      exact ⟨fun hfaults => absurd hfaults (not_faults_ok ()), fun hboth => absurd hheader hboth.2⟩
    · have henv : envLen l.block.length = 2 ^ 32 + l.block.length - 4 := if_pos (by omega)
      rw [henv, if_neg (by omega)]
      exact ⟨fun _ => ⟨hmod, hheader⟩, fun _ => ⟨_, rfl⟩⟩

/-- A run that fits ends with a refusal or with its draft. -/
theorem attempt_fits (h : Fits a l) :
    (Refused l.envType l.o l.block ∨ (edits a.fopen l.o).foldlM (networkAfter a l.envType)
        (0, l.working.network) = none) ∧ attempt a l = .ok none ∨
    ¬Refused l.envType l.o l.block ∧ ∃ d, (edits a.fopen l.o).foldlM (networkAfter a l.envType)
        (0, l.working.network) = some (d.cmds, d.network) ∧ attempt a l = .ok (some d) := by
  unfold attempt
  rcases startEnv_fits h.checks with ⟨hrefused, hstart⟩ | ⟨hstarted, env, hstart⟩
  · rw [hstart]
    exact .inl ⟨.inl hrefused, rfl⟩
  obtain ⟨c, hin, hedits, hshow⟩ := h.changes hstarted
  rw [← startEnv_data hstart] at hin
  have hlen : env.data.length = l.block.length - 4 := by
    rw [startEnv_data hstart, length_dataBefore]
  rw [← hlen] at hedits
  rw [hstart]
  rcases draftEdits_fits (d := ⟨env.data, l.working.network, 0⟩) hin (bounded_data hlen) hedits with
    ⟨hnone, hdraft⟩ | ⟨d, hsome, hdraft, hsize, hin'⟩
  · simp only [bind, Except.bind, hdraft]
    exact .inl ⟨.inr hnone, rfl⟩
  · have hchecked : checked l d = .ok () := by
      obtain ⟨_, hok⟩ := not_faults_iff.mp fun hfaults =>
        (checked_faults_iff hin' (hsize.trans hlen)).mp hfaults (hshow _ hsome)
      exact hok
    simp only [bind, Except.bind, hdraft, hchecked]
    exact .inr ⟨hstarted, d, hsome, rfl⟩

/-- A run that does not fit leaves an array. -/
theorem attempt_faults (hno : ¬Fits a l) : Faults (attempt a l) := by
  unfold attempt
  by_cases hchecks : ChecksFit l.envType l.o l.block
  swap
  · exact (startEnv_faults hchecks).bind _
  rcases startEnv_fits hchecks with ⟨hrefused, -⟩ | ⟨-, env, hstart⟩
  · exact absurd ⟨hchecks, fun h => absurd hrefused h⟩ hno
  obtain ⟨c, hin⟩ := exists_contents (dataBefore l.o l.block)
  have hdata := hin
  rw [← startEnv_data hstart] at hin
  have hlen : env.data.length = l.block.length - 4 := by
    rw [startEnv_data hstart, length_dataBefore]
  rw [hstart]
  by_cases hedits : EditsFit a l.envType (l.block.length - 4) c (0, l.working.network)
      (edits a.fopen l.o)
  swap
  · rw [← hlen] at hedits
    have hdraft := draftEdits_faults (d := ⟨env.data, l.working.network, 0⟩) hin
      (bounded_data hlen) hedits
    exact hdraft.bind _
  have hfits := hedits
  rw [← hlen] at hfits
  rcases draftEdits_fits (d := ⟨env.data, l.working.network, 0⟩) hin (bounded_data hlen) hfits with
    ⟨hnone, -⟩ | ⟨d, hsome, hdraft, hsize, hin'⟩
  · refine absurd ⟨hchecks, fun _ => ⟨c, hdata, hedits, fun s hs => ?_⟩⟩ hno
    have hboth := hnone.symm.trans hs
    cases hboth
  · have hchecked : Faults (checked l d) := by
      refine (checked_faults_iff hin' (hsize.trans hlen)).mpr fun hshow => ?_
      refine hno ⟨hchecks, fun _ => ⟨c, hdata, hedits, fun s hs => ?_⟩⟩
      exact hshow
    simp only [bind, Except.bind, hdraft]
    exact hchecked.bind _

end Attempt

/-- The settings are saved without the block: it cannot be set, and by then the
working copy has a new section or other network settings. -/
def SavedAlone (prodInfoDataSize : ℕ) (a : Answers ν) (argv0 : CString) (argv : List Opt)
    (flash : Store ν) : Prop :=
  ∃ l s, loaded prodInfoDataSize a argv0 argv flash = some l ∧
    ¬Refused l.envType l.o l.block ∧
    (edits a.fopen l.o).foldlM (networkAfter a l.envType) (0, l.working.network) = some s ∧
    l.o.modifies = true ∧ a.nvOSCfgSet = false ∧ a.nvSave = true ∧
    { l.working with network := s.2 } ≠ flash

/-- In a run that fits, these are the settings that it really saves. -/
theorem savedUnset_iff {prodInfoDataSize : ℕ} {a : Answers ν} {argv0 : CString} {argv : List Opt}
    {flash : Store ν}
    (hfits : ∀ l, loaded prodInfoDataSize a argv0 argv flash = some l → Fits a l) :
    SavedUnset prodInfoDataSize a argv0 argv flash ↔
      SavedAlone prodInfoDataSize a argv0 argv flash := by
  constructor
  · rintro ⟨l, d, hloaded, hattempt, hmod, hset, hsave, hchanged⟩
    rcases attempt_fits (hfits l hloaded) with ⟨-, hnone⟩ | ⟨hstarted, d', hsome, hd⟩
    · rw [hattempt] at hnone
      cases hnone
    · rw [hattempt] at hd
      cases hd
      exact ⟨l, _, hloaded, hstarted, hsome, hmod, hset, hsave, hchanged⟩
  · rintro ⟨l, s, hloaded, hstarted, hsome, hmod, hset, hsave, hchanged⟩
    rcases attempt_fits (hfits l hloaded) with ⟨hnone, -⟩ | ⟨-, d, hsome', hattempt⟩
    · rcases hnone with hrefused | hnone
      · exact absurd hrefused hstarted
      · rw [hsome] at hnone
        cases hnone
    · rw [hsome] at hsome'
      cases hsome'
      exact ⟨l, d, hloaded, hattempt, hmod, hset, hsave, hchanged⟩

/-- A run is all or nothing exactly when it fits its arrays and does not save
settings without its block. -/
theorem allOrNothing_iff (prodInfoDataSize : ℕ) (a : Answers ν) (argv0 : CString)
    (argv : List Opt) (working flash : Store ν) :
    AllOrNothing prodInfoDataSize a argv0 argv working flash ↔
      (∀ l, loaded prodInfoDataSize a argv0 argv flash = some l → Fits a l) ∧
        ¬SavedAlone prodInfoDataSize a argv0 argv flash := by
  rw [allOrNothing_of_attempt]
  constructor
  · rintro ⟨hinside, hsaved⟩
    have hfits : ∀ l, loaded prodInfoDataSize a argv0 argv flash = some l → Fits a l := by
      intro l hloaded
      by_contra hno
      obtain ⟨f, hf⟩ := attempt_faults hno
      exact hinside l hloaded f hf
    exact ⟨hfits, fun halone => hsaved ((savedUnset_iff hfits).mpr halone)⟩
  · rintro ⟨hfits, halone⟩
    refine ⟨fun l hloaded f hf => ?_, fun hsaved => halone ((savedUnset_iff hfits).mp hsaved)⟩
    rcases attempt_fits (hfits l hloaded) with ⟨-, hnone⟩ | ⟨-, d, -, hattempt⟩
    · rw [hf] at hnone
      cases hnone
    · rw [hf] at hattempt
      cases hattempt

/-- An NVRAM in which the block cannot be set, but saving succeeds. The network
settings are the last one that has been made. -/
def unsetAnswers : Answers Bytes where
  nvInit := true
  nvOSCfgFind := fun _ => true
  nvOSCfgAdd := none
  nvOSCfgGet := true
  nvOSCfgSet := false
  nvCmdLine := fun _ argv _ => argv.getLast?
  nvSave := true
  nvCriticalGet := none
  nvToStringIP := fun _ => []
  malloc := true
  fopen := fun _ => .missing

/-- A flash with an empty environment. -/
def emptyFlash : Store Bytes where
  sections := fun type => if type = .nvosUboot then some (sealed [0, 0]) else none
  network := text "ip1=0.0.0.0"

/-- `ubootenv --set ipaddr=10.0.0.1` fails, and has changed the network
settings in flash. -/
theorem unset_address_saved :
    ¬AllOrNothing 0 unsetAnswers ⟨text "ubootenv", by decide⟩
      [.set ⟨text "ipaddr=10.0.0.1", by decide⟩] emptyFlash emptyFlash := by
  intro hall
  let o := optionsOf [.set ⟨text "ipaddr=10.0.0.1", by decide⟩]
  let l : Loaded Bytes := ⟨.nvosUboot, o, sealed [0, 0], emptyFlash⟩
  have hvalid := invalid_sealed [0, 0]
  have hstart : startEnv .nvosUboot o (sealed [0, 0]) =
      .ok (some (EnvT.ofBlock (sealed [0, 0]))) := by
    change (do
      if ← invalid (EnvT.ofBlock (sealed [0, 0])) (envLen (sealed [0, 0]).length) then return none
      else return some (EnvT.ofBlock (sealed [0, 0])) : Except Fault (Option EnvT)) = _
    rw [hvalid]
    rfl
  have hattempt : attempt unsetAnswers l = .ok (some ⟨[0, 0], text "ip1=10.0.0.1", 1⟩) := by
    rw [attempt, hstart]
    rfl
  have hsaved : SavedUnset 0 unsetAnswers ⟨text "ubootenv", by decide⟩
      [.set ⟨text "ipaddr=10.0.0.1", by decide⟩] emptyFlash := by
    refine ⟨l, ⟨[0, 0], text "ip1=10.0.0.1", 1⟩, rfl, hattempt, rfl, rfl, rfl, ?_⟩
    intro hsame
    have hnetwork := congrArg Store.network hsame
    revert hnetwork
    decide
  obtain ⟨w', hends, hchanged⟩ := @savedUnset_ends _ _ _ _ _ emptyFlash _ hsaved
  exact hchanged (hall.failed _ w' hends (by decide))

end MetaDigi.EnvFits
