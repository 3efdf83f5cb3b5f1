import MetaDigi.EnvRepeats
import MetaDigi.EnvRestore

/-!
# The environment over many runs

To its users the environment is a map from names to values, which outlives the
runs of the program. Each run that succeeds makes its changes to the map, one
after the other; each run that does not succeed makes none. What is printed
for a name is its value in the map.
-/

namespace MetaDigi.EnvHistories

open CheckedMemory CStrings Crc32 EnvFuncs EnvMain EnvScan EnvStore EnvEdits EnvNvram EnvRuns
open EnvCommit EnvRestore PackedStrings SystemProgram SystemRuns Prog

/-- The values of the variables. -/
abbrev Values := Bytes → Option Bytes

/-- The value that the first string of a name has. -/
def valueIn (L : List Bytes) : Values := fun k =>
  (L.find? (assigns k)).map (List.drop (k.length + 1))

/-- An edit of the values. What is removed is the variable whose string begins
with the text and an equals sign. -/
def onValues (envType : NvOsType) (m : Values) : Edit → Values
  | .add varstring =>
    if (settingOf envType varstring).isSome then m
    else Function.update m (varName varstring).val
      (some (varstring.val.drop ((varName varstring).val.length + 1)))
  | .remove var => fun k => (m k).filter fun v => !assigns var.val (k ++ varAsign :: v)
  | .emptyLine => m
  | .unreadable => m

section Names

variable {L : List Bytes} {k w e : Bytes}

/-- An assignment is the name, the sign and a value. -/
theorem assigns_iff : assigns w e = true ↔ ∃ v, e = w ++ varAsign :: v := by
  constructor
  · intro h
    obtain ⟨v, hv⟩ := of_decide_eq_true h
    exact ⟨v, by rw [← hv, List.append_assoc]; rfl⟩
  · rintro ⟨v, rfl⟩
    exact decide_eq_true ⟨v, by rw [List.append_assoc]; rfl⟩

/-- It is told by its name. -/
theorem assigns_iff_name (hk : varAsign ∉ k) : assigns k e = true ↔ nameOf e = some k :=
  decide_eq_true_iff.trans (nameOf_eq_iff hk e).symm

/-- Strings that begin with the same text and an equals sign have the same
name. -/
theorem nameOf_same {e' : Bytes} (h : assigns w e = true) (h' : assigns w e' = true) :
    nameOf e = nameOf e' := by
  have hname : ∀ v, nameOf (w ++ varAsign :: v) =
      ((w ++ [varAsign]).findIdx? (fun c => decide (c = varAsign))).map (w ++ [varAsign]).take := by
    intro v
    obtain ⟨i, hi⟩ : ∃ i, (w ++ [varAsign]).findIdx? (fun c => decide (c = varAsign)) = some i := by
      refine Option.isSome_iff_exists.mp ?_
      rw [List.findIdx?_isSome, List.any_eq_true]
      exact ⟨varAsign, List.mem_append_right _ (List.mem_singleton_self _), decide_eq_true rfl⟩
    have hlt : i < (w ++ [varAsign]).length := (List.findIdx?_eq_some_iff_getElem.mp hi).1
    have hsplit : w ++ varAsign :: v = (w ++ [varAsign]) ++ v := by
      rw [List.append_assoc]
      rfl
    rw [nameOf, strchr, hsplit, List.findIdx?_append, hi, Option.some_or, Option.map_some,
      Option.map_some, List.take_append_of_le_length (Nat.le_of_lt hlt)]
  obtain ⟨v, rfl⟩ := assigns_iff.mp h
  obtain ⟨v', rfl⟩ := assigns_iff.mp h'
  rw [hname, hname]

/-- Fewer strings. -/
theorem DistinctNames.tail {s : Bytes} (h : DistinctNames (s :: L)) : DistinctNames L :=
  h.sublist ((List.sublist_cons_self s L).filterMap nameOf)

/-- The name of the first string is its own. -/
theorem DistinctNames.first {s : Bytes} (h : DistinctNames (s :: L)) (hs : nameOf s = some k) :
    ∀ e ∈ L, nameOf e ≠ some k := by
  intro e he hname
  simp only [DistinctNames, List.filterMap_cons, hs, List.nodup_cons] at h
  exact h.1 (List.mem_filterMap.mpr ⟨e, he, hname⟩)

/-- What is found after a removal is what was found before, unless it is the
string that has been removed. -/
theorem find?_eraseP (h : DistinctNames L) (hk : varAsign ∉ k) (w : Bytes) :
    (L.eraseP (assigns w)).find? (assigns k) = (L.find? (assigns k)).filter (!assigns w ·) := by
  induction L with
  | nil => rfl
  | cons s L ih =>
    by_cases hw : assigns w s = true
    · rw [List.eraseP_cons_of_pos hw]
      by_cases hs : assigns k s = true
      · have hnone : L.find? (assigns k) = none := by
          refine List.find?_eq_none.mpr fun e he hke => ?_
          exact DistinctNames.first h ((assigns_iff_name hk).mp hs) e he
            ((assigns_iff_name hk).mp hke)
        rw [List.find?_cons_of_pos hs, hnone, Option.filter_some, hw]
        rfl
      · rw [List.find?_cons_of_neg hs]
        cases hfound : L.find? (assigns k) with
        | none => rfl
        | some e =>
          have hke := List.find?_some hfound
          have hwe : assigns w e = false := by
            refine Bool.eq_false_iff.mpr fun hwe => hs ?_
            rw [assigns_iff_name hk, nameOf_same hw hwe]
            exact (assigns_iff_name hk).mp hke
          rw [Option.filter_some, hwe]
          rfl
    · rw [List.eraseP_cons_of_neg hw]
      by_cases hs : assigns k s = true
      · rw [List.find?_cons_of_pos hs, List.find?_cons_of_pos hs, Option.filter_some,
          Bool.eq_false_iff.mpr hw]
        rfl
      · rw [List.find?_cons_of_neg hs, List.find?_cons_of_neg hs]
        exact ih (DistinctNames.tail h)

/-- A string that is found consists of the name and the value. -/
theorem found_eq (h : L.find? (assigns k) = some e) :
    e = k ++ varAsign :: e.drop (k.length + 1) := by
  obtain ⟨v, rfl⟩ := assigns_iff.mp (List.find?_some h)
  rw [List.drop_length_add_append, List.drop_succ_cons, List.drop_zero]

/-- The values after the first assignment of a name is gone. -/
theorem valueIn_eraseP (h : DistinctNames L) (hk : varAsign ∉ k) (w : Bytes) :
    valueIn (L.eraseP (assigns w)) k =
      (valueIn L k).filter fun v => !assigns w (k ++ varAsign :: v) := by
  unfold valueIn
  rw [find?_eraseP h hk]
  cases hfound : L.find? (assigns k) with
  | none => rfl
  | some e =>
    rw [Option.map_some, Option.filter_some, Option.filter_some, ← found_eq hfound]
    cases assigns w e <;> rfl

end Names

section Edits

variable {L : List Bytes} {m : Values} {envType : NvOsType}

/-- A list of strings and a map agree on the names. -/
def Agree (L : List Bytes) (m : Values) : Prop := ∀ k, varAsign ∉ k → valueIn L k = m k

/-- Setting a variable. -/
theorem set_agrees (h : DistinctNames L) (hm : Agree L m) {n v : Bytes} (hn : varAsign ∉ n) :
    DistinctNames (L.eraseP (assigns n) ++ [n ++ varAsign :: v]) ∧
      Agree (L.eraseP (assigns n) ++ [n ++ varAsign :: v]) (Function.update m n (some v)) := by
  have hself : assigns n (n ++ varAsign :: v) = true := assigns_iff.mpr ⟨v, rfl⟩
  have hname : nameOf (n ++ varAsign :: v) = some n := (assigns_iff_name hn).mp hself
  have hnone : (L.eraseP (assigns n)).find? (assigns n) = none := by
    rw [find?_eraseP h hn]
    cases hfound : L.find? (assigns n) with
    | none => rfl
    | some e =>
      rw [Option.filter_some, List.find?_some hfound]
      rfl
  refine ⟨?_, fun k hk => ?_⟩
  · unfold DistinctNames
    rw [List.filterMap_append, List.nodup_append]
    refine ⟨h.sublist (List.eraseP_sublist.filterMap nameOf), ?_, ?_⟩
    · rw [List.filterMap_cons, hname]
      exact List.nodup_singleton n
    · intro k hk k' hk' hsame
      obtain ⟨e, he, hke⟩ := List.mem_filterMap.mp hk
      obtain ⟨e', he', hke'⟩ := List.mem_filterMap.mp hk'
      rw [List.mem_singleton.mp he', hname] at hke'
      rw [hsame, ← Option.some.inj hke'] at hke
      exact List.find?_eq_none.mp hnone e he ((assigns_iff_name hn).mpr hke)
  · by_cases hkn : k = n
    · subst hkn
      rw [Function.update_self, valueIn, List.find?_append, hnone, Option.none_or,
        List.find?_cons_of_pos hself, Option.map_some, List.drop_length_add_append,
        List.drop_succ_cons, List.drop_zero]
    · have hother : ∀ e, assigns n e = true → assigns k e = false := by
        intro e hne
        refine Bool.eq_false_iff.mpr fun hke => hkn ?_
        rw [assigns_iff_name hk, (assigns_iff_name hn).mp hne] at hke
        exact (Option.some.inj hke).symm
      have hkept : (L.eraseP (assigns n)).find? (assigns k) = L.find? (assigns k) := by
        rw [find?_eraseP h hk]
        cases hfound : L.find? (assigns k) with
        | none => rfl
        | some e =>
          have hne : assigns n e = false := by
            refine Bool.eq_false_iff.mpr fun hne => ?_
            exact Bool.eq_false_iff.mp (hother e hne) (List.find?_some hfound)
          rw [Option.filter_some, hne]
          rfl
      rw [Function.update_of_ne hkn, ← hm k hk, valueIn, List.find?_append, hkept,
        List.find?_cons_of_neg (Bool.eq_false_iff.mp (hother _ hself)), List.find?_nil,
        Option.or_none]
      rfl

/-- One edit. -/
theorem edit_agrees (h : DistinctNames L) (hm : Agree L m) {e : Edit}
    (he : ∀ varstring, e = .add varstring → varAsign ∈ varstring.val) :
    DistinctNames (e.onVars envType L) ∧ Agree (e.onVars envType L) (onValues envType m e) := by
  cases e with
  | add varstring =>
    unfold Edit.onVars onValues
    dsimp only
    split
    · exact ⟨h, hm⟩
    · obtain ⟨v, hvar⟩ := split_at_sign (he varstring rfl)
      have hsplit : varstring.val = (varName varstring).val ++ varAsign :: v := hvar
      have hvalue : varstring.val.drop ((varName varstring).val.length + 1) = v := by
        conv_lhs => rw [hsplit]
        rw [List.drop_length_add_append, List.drop_succ_cons, List.drop_zero]
      have hset := set_agrees h hm (v := v) (sign_not_mem_varName varstring)
      rw [hvalue]
      rw [← hsplit] at hset
      exact hset
  | remove var =>
    refine ⟨h.sublist (List.eraseP_sublist.filterMap nameOf), fun k hk => ?_⟩
    unfold Edit.onVars onValues
    dsimp only
    rw [valueIn_eraseP h hk, hm k hk]
  | emptyLine => exact ⟨h, hm⟩
  | unreadable => exact ⟨h, hm⟩

/-- Edits one after the other. -/
theorem edits_agree {es : List Edit} (h : DistinctNames L) (hm : Agree L m)
    (hes : ∀ varstring, .add varstring ∈ es → varAsign ∈ varstring.val) :
    DistinctNames (es.foldl (Edit.onVars envType) L) ∧
      Agree (es.foldl (Edit.onVars envType) L) (es.foldl (onValues envType) m) := by
  induction es generalizing L m with
  | nil => exact ⟨h, hm⟩
  | cons e es ih =>
    have hone : ∀ varstring, e = .add varstring → varAsign ∈ varstring.val :=
      fun varstring he => hes varstring (he ▸ List.mem_cons_self ..)
    obtain ⟨hnext, hagree⟩ := @edit_agrees L m envType h hm e hone
    exact ih hnext hagree fun varstring hmem => hes varstring (List.mem_cons_of_mem _ hmem)

end Edits

section Runs

variable {ν : Type} {prodInfoDataSize : ℕ} {a : Answers ν} {argv0 : CString} {argv : List Opt}
  {working flash : Store ν} {m : Values} {l : Loaded ν} {d : Draft ν}

/-- The section of the environment holds the variables of a map in a valid
block. -/
def Keeps (flash : Store ν) (m : Values) : Prop :=
  ∃ data L, flash.sections .nvosUboot = some (sealed data) ∧ Holds 0 data L ∧ DistinctNames L ∧
    Agree L m

/-- A run that clears the block does not miss that it is there. -/
def Finds (a : Answers ν) (argv : List Opt) : Prop :=
  (optionsOf argv).clean = true → a.nvOSCfgFind 0 = true

/-- The map with the changes of a run. -/
def changed (a : Answers ν) (argv : List Opt) (m : Values) : Values :=
  (edits a.fopen (optionsOf argv)).foldl (onValues .nvosUboot)
    (if (optionsOf argv).clean then fun _ => none else m)

/-- Every string that is added has a name. -/
theorem draftEdits_adds {envType : NvOsType} {envlen : ℕ} {es : List Edit} {d d' : Draft ν}
    (h : draftEdits a envType envlen es d = .ok (some d')) :
    ∀ varstring, .add varstring ∈ es → varAsign ∈ varstring.val := by
  induction es generalizing d with
  | nil => exact fun varstring hmem => absurd hmem List.not_mem_nil
  | cons e es ih =>
    obtain ⟨draft, hedit, hrest⟩ := ok_of_bind h
    cases draft with
    | none => cases hrest
    | some draft =>
      intro varstring hmem
      rcases List.mem_cons.mp hmem with hfirst | hmem
      · by_contra hsign
        rw [← hfirst] at hedit
        unfold editDraft at hedit
        dsimp only at hedit
        rw [if_pos hsign] at hedit
        cases hedit
      · exact ih hrest varstring hmem

/-- What a run has loaded of a valid block. -/
theorem loaded_flash (hloaded : loaded prodInfoDataSize a argv0 argv flash = some l)
    (hfinds : Finds a argv) {block : Bytes} (hblock : flash.sections .nvosUboot = some block)
    (hkind : l.envType = .nvosUboot) : l.working = flash ∧ l.block = block := by
  obtain ⟨htype, hopts, hsection, hworking, -⟩ := loaded_cases hloaded
  have hsame : l.working = flash := by
    cases hclean : (optionsOf argv).clean with
    | false => exact hworking (hopts ▸ hclean)
    | true =>
      obtain ⟨envType, htype', h⟩ := Option.bind_eq_some_iff.mp hloaded
      obtain ⟨o, ho, h⟩ := Option.bind_eq_some_iff.mp h
      obtain ⟨found, hlocated, h⟩ := Option.bind_eq_some_iff.mp h
      obtain ⟨block', -, h⟩ := Option.bind_eq_some_iff.mp h
      split at h
      swap
      · cases h
      have hl := Option.some.inj h
      subst hl
      subst hkind
      unfold located at hlocated
      rw [hfinds hclean, hblock] at hlocated
      split at hlocated
      · cases hlocated
      · exact (Option.some.inj hlocated).symm
  rw [hsame, hkind, hblock] at hsection
  exact ⟨hsame, (Option.some.inj hsection).symm⟩

/-- A draft of a valid block holds the changed map. -/
theorem draft_keeps {data : Bytes} {L : List Bytes} (hkind : l.envType = .nvosUboot)
    (hopts : l.o = optionsOf argv) (hblock : l.block = sealed data) (hL : Holds 0 data L)
    (hdistinct : DistinctNames L) (hm : Agree L m) (hattempt : attempt a l = .ok (some d)) :
    ∃ L', Holds 0 d.data L' ∧ DistinctNames L' ∧ Agree L' (changed a argv m) ∧
      d.data.length = data.length ∧ envLen l.block.length = d.data.length := by
  obtain ⟨env, hstart, hedits, -⟩ := attempt_start hattempt
  have hdrop : (sealed data).drop 4 = data := rfl
  have hlen : (sealed data).length = data.length + 4 := by
    rw [sealed, sealBlock, List.length_append, Nat.add_comm]
    rfl
  have hsize : envLen l.block.length = data.length := by
    rw [hblock, hlen]
    exact envLen_eq (Nat.le_add_left 4 _)
  let L₀ := if (optionsOf argv).clean then [] else L
  let m₀ : Values := if (optionsOf argv).clean then fun _ => none else m
  have hdata : Holds 0 env.data L₀ ∧ env.data.length = data.length ∧ DistinctNames L₀ ∧
      Agree L₀ m₀ := by
    rw [startEnv_data hstart, dataBefore, hopts, hblock, hdrop, hlen, Nat.add_sub_cancel]
    cases hclean : (optionsOf argv).clean with
    | false =>
      simp only [L₀, m₀, hclean, Bool.false_eq_true, if_false]
      exact ⟨hL, trivial, hdistinct, hm⟩
    | true =>
      have hroom := Nat.le_trans (two_le_packed hL.entries) hL.stored.length_le
      simp only [L₀, m₀, hclean, if_true]
      exact ⟨holds_cleared hroom, List.length_replicate, List.nodup_nil, fun k hk => rfl⟩
  obtain ⟨hbefore, hlength, hdistinct₀, hagree₀⟩ := hdata
  have happlied := applyEdits_of_draftEdits hedits
  have hadds := draftEdits_adds hedits
  rw [hkind, hopts, hsize, ← hlength] at happlied
  rw [hopts] at hadds
  have hedited := @edits_agree L₀ m₀ .nvosUboot _ hdistinct₀ hagree₀ hadds
  have hdraft : d.data.length = data.length := (length_applyEdits happlied).trans hlength
  exact ⟨_, applyEdits_holds hbefore happlied, hedited.1, hedited.2, hdraft, hsize.trans hdraft.symm⟩

/-- Without an option that asks for a change the map is the same. -/
theorem changed_same (h : (optionsOf argv).modifies = false) : changed a argv m = m := by
  simp only [Options.modifies, Bool.or_eq_false_iff, Option.isSome_eq_false_iff,
    Option.isNone_iff_eq_none] at h
  obtain ⟨⟨⟨hclean, hfile⟩, herase⟩, hset⟩ := h
  have hnone : edits a.fopen (optionsOf argv) = [] := by
    rw [edits, hfile, herase, hset]
    rfl
  rw [changed, hnone, hclean]
  rfl

/-- What has become of a section when the block is stored. -/
theorem stored_section (envType type : NvOsType) (block : Bytes) (w : World ν) :
    (stored a envType block w).flash.sections type =
      if a.nvSave then
        if a.nvOSCfgSet ∧ type = envType then some block else w.working.sections type
      else w.flash.sections type := by
  rw [stored_flash]
  cases a.nvSave with
  | false => rfl
  | true =>
    cases a.nvOSCfgSet with
    | false => simp
    | true =>
      simp only [if_true, true_and]
      exact Function.update_apply w.working.sections envType (some block) type

/-- Only the section counts. -/
theorem Keeps.congr {flash' : Store ν} (h : Keeps flash m)
    (hsame : flash'.sections .nvosUboot = flash.sections .nvosUboot) : Keeps flash' m := by
  obtain ⟨data, L, hsection, hrest⟩ := h
  exact ⟨data, L, hsame.trans hsection, hrest⟩

/-- One run: it makes its changes when it succeeds, and none when it does
not. -/
theorem run_keeps (h : Keeps flash m) (hfinds : Finds a argv) {out : Outcome Stop ℤ} {w' : World ν}
    (hrun : Ends (handler a) (main prodInfoDataSize argv0 argv) (started working flash) out w') :
    Keeps w'.flash (if envTypeOf argv0 = some .nvosUboot ∧ out = .ret exitSuccess then
      changed a argv m else m) := by
  have hunchanged : w'.flash = flash → out ≠ .ret exitSuccess →
      Keeps w'.flash (if envTypeOf argv0 = some .nvosUboot ∧ out = .ret exitSuccess then
        changed a argv m else m) := by
    intro hflash hout
    rw [if_neg fun hboth => hout hboth.2, hflash]
    exact h
  rcases run_cases hrun with ⟨hflash, l, f, -, -, hout⟩ | ⟨hflash, hout⟩ |
    ⟨l, d, w, hloaded, hattempt, hflash, hworking, hout, hw'⟩
  · exact hunchanged hflash (by simp [hout])
  · refine hunchanged hflash ?_
    rcases hout with hout | hout | ⟨code, hout⟩ <;> simp [hout, exitFailure, exitSuccess]
  · obtain ⟨htype, hopts, -, -, hothers⟩ := loaded_cases hloaded
    by_cases hkind : l.envType = .nvosUboot
    · obtain ⟨data, L, hsection, hL, hdistinct, hm⟩ := h
      obtain ⟨hsame, hblock⟩ := loaded_flash hloaded hfinds hsection hkind
      obtain ⟨L', hL', hdistinct', hm', -, hsize⟩ :=
        draft_keeps hkind hopts hblock hL hdistinct hm hattempt
      have hsealed : sealedBlock d.data (envLen l.block.length) = sealed d.data := by
        rw [sealedBlock, hsize, List.take_length, sealed]
      rw [hkind] at htype
      have hbefore : Keeps flash m := ⟨data, L, hsection, hL, hdistinct, hm⟩
      have hkept : w.working.sections .nvosUboot = flash.sections .nvosUboot := by
        rw [hworking, ← hsame]
      rw [hw', hout, concluded, hkind, hsealed]
      cases hmod : l.o.modifies with
      | false =>
        simp only [Bool.false_eq_true, if_false]
        rw [if_pos ⟨htype, trivial⟩, changed_same (hopts ▸ hmod)]
        exact hbefore.congr (congrArg (Store.sections · .nvosUboot) hflash)
      | true =>
        simp only [if_true]
        by_cases hboth : a.nvOSCfgSet = true ∧ a.nvSave = true
        · rw [if_pos ⟨htype, congrArg Outcome.ret (storedStatus_eq_success.mpr hboth)⟩]
          refine ⟨d.data, L', ?_, hL', hdistinct', hm'⟩
          rw [stored_section, if_pos hboth.2, if_pos ⟨hboth.1, rfl⟩]
        · have hfailed : ¬(envTypeOf argv0 = some .nvosUboot ∧
              (Outcome.ret (storedStatus a) : Outcome Stop ℤ) = .ret exitSuccess) := by
            rintro ⟨-, hstatus⟩
            exact hboth (storedStatus_eq_success.mp (Outcome.ret.inj hstatus))
          rw [if_neg hfailed]
          refine hbefore.congr ?_
          rw [stored_section]
          split
          · rename_i hsave
            rw [if_neg fun hset => hboth ⟨hset.1, hsave⟩, hkept]
          · rw [hflash]
    · have hnot : envTypeOf argv0 ≠ some .nvosUboot := by
        rw [htype]
        exact fun hsome => hkind (Option.some.inj hsome)
      rw [if_neg fun hboth => hnot hboth.1]
      refine h.congr ?_
      rw [hw', concluded]
      split
      · rw [stored_section]
        split
        · rw [if_neg fun hboth => hkind hboth.2.symm, hworking]
          exact hothers .nvosUboot (Ne.symm hkind)
        · rw [hflash]
      · rw [hflash]

end Runs

section Printing

variable {ν : Type} {prodInfoDataSize : ℕ} {a : Answers ν} {argv0 : CString} {argv : List Opt}
  {working flash : Store ν} {m : Values}

/-- The line for a name that is the one of a network setting. -/
def settingFor (a : Answers ν) (var : CString) : Bytes :=
  match a.nvCriticalGet, envHaveToUseNvram .nvosUboot var with
  | some crit, some index =>
    (settingLine a.nvToStringIP crit index.val).toList.flatMap (· ++ [newline])
  | _, _ => []

/-- What is printed for a name. -/
def printedFor (a : Answers ν) (m : Values) (var : CString) : Bytes :=
  settingFor a var ++ (m var.val).elim [] fun v => var.val ++ varAsign :: v ++ [newline]

/-- The line of a network setting is printed. -/
theorem setting_shows (var : CString) :
    Shows a (envPrintenvNvramVars .nvosUboot (some var)) (settingFor a var) := by
  intro w
  have hask := ends_perform (E := Stop) (h := handler a) .nvCriticalGet w
  have hsilent : output a (ask .nvCriticalGet) w = [] := rfl
  have hcrit : (handler a .nvCriticalGet w).1 = a.nvCriticalGet := rfl
  unfold envPrintenvNvramVars settingFor
  rw [output_andThen hask, hsilent, List.nil_append, ← hcrit]
  cases hget : (handler a .nvCriticalGet w).1 with
  | none =>
    have hrest := shows_nothing (a := a) w
    exact ⟨hask.andThen (by rw [hget]; exact hrest.1), hrest.2⟩
  | some crit =>
    cases hindex : envHaveToUseNvram .nvosUboot var with
    | none =>
      have hrest := shows_nothing (a := a) w
      exact ⟨hask.andThen (by rw [hget]; dsimp only; rw [hindex]; exact hrest.1),
        by dsimp only; rw [hindex]; exact hrest.2⟩
    | some index =>
      have hrest := printNvramVar_shows (a := a) crit index.val w
      exact ⟨hask.andThen (by rw [hget]; dsimp only; rw [hindex]; exact hrest.1),
        by dsimp only; rw [hindex]; exact hrest.2⟩

/-- Looking a name up in a block finds the first string of the name. -/
theorem varInEnv_holds {mem : Bytes} {L : List Bytes} (h : Holds 0 mem L) (k : VarName) :
    varInEnv mem mem.length k.text = .ok (L.find? (assigns k.text.val)) := by
  cases hfound : L.find? (assigns k.text.val) with
  | none =>
    have habsent := EnvRepeats.getVarAddr_absent h k
      (List.countP_eq_zero.mpr (List.find?_eq_none.mp hfound))
    rw [varInEnv, habsent]
    rfl
  | some e =>
    obtain ⟨hassigns, A, B, hL, hA⟩ := List.find?_eq_some_iff_append.mp hfound
    have hfirst : EnvRepeats.entriesOf k A = 0 :=
      List.countP_eq_zero.mpr fun s hs => by simpa using hA s hs
    obtain ⟨addr, hpresent, hload⟩ := EnvRepeats.getVarAddr_present h k hL hfirst hassigns
    rw [varInEnv, hpresent]
    change (loadString mem addr >>= _) = _
    rw [hload]
    rfl

/-- Printing the names of a list. -/
theorem printVars_shows {mem : Bytes} {L : List Bytes} (h : Holds 0 mem L) (hm : Agree L m)
    {vars : List CString} (hplain : ∀ var ∈ vars, varAsign ∉ var.val)
    (hfound : lookups mem mem.length vars = .ok ()) :
    Shows a (printVars .nvosUboot mem mem.length vars) (vars.flatMap (printedFor a m)) := by
  induction vars with
  | nil => exact shows_nothing
  | cons var vars ih =>
    obtain ⟨line, hline, hrest⟩ := ok_of_bind hfound
    have hshort : var.val.length < envMaxVarNameLen := by
      by_contra hlong
      rw [varInEnv, getVarAddr_long (Nat.not_lt.mp hlong)] at hline
      cases hline
    have hvar := hplain var (List.mem_cons_self ..)
    have hvalue := hm var.val hvar
    have hlookup := varInEnv_holds h ⟨var, hvar, hshort⟩
    have hlines : (L.find? (assigns var.val)).toList.flatMap (· ++ [newline]) =
        (m var.val).elim [] fun v => var.val ++ varAsign :: v ++ [newline] := by
      rw [← hvalue, valueIn]
      cases hentry : L.find? (assigns var.val) with
      | none => rfl
      | some e =>
        rw [Option.map_some, Option.elim_some, ← found_eq hentry]
        exact List.flatMap_singleton ..
    have htail := ih (fun var' hmem => hplain var' (List.mem_cons_of_mem _ hmem)) hrest
    have hone := (printLines_shows (a := a) (L.find? (assigns var.val)).toList).andThen (f := fun _ =>
      printVars .nvosUboot mem mem.length vars) htail
    have hall := (setting_shows (a := a) var).andThen (f := fun _ =>
      printLines (L.find? (assigns var.val)).toList >>= fun _ =>
        printVars .nvosUboot mem mem.length vars) hone
    rw [hlines, ← List.append_assoc] at hall
    rw [printVars, if_pos rfl, hlookup]
    exact hall

/-- A run that succeeds prints what the map says after its changes. -/
theorem run_prints {printlist : CString} {w' : World ν} (h : Keeps flash m) (hfinds : Finds a argv)
    (hkind : envTypeOf argv0 = some .nvosUboot)
    (hprint : (optionsOf argv).printlist = some printlist)
    (hplain : ∀ var ∈ varNames printlist, varAsign ∉ var.val)
    (hrun : Ends (handler a) (main prodInfoDataSize argv0 argv) (started working flash)
      (.ret exitSuccess) w') :
    output a (main prodInfoDataSize argv0 argv) (started working flash) =
      (varNames printlist).flatMap (printedFor a (changed a argv m)) := by
  rcases run_cases hrun with ⟨-, l, f, -, -, hout⟩ | ⟨-, hout | hout | ⟨code, hout⟩⟩ |
    ⟨l, d, w, hloaded, hattempt, -⟩
  · cases hout
  · cases hout
  · cases hout
  · cases hout
  obtain ⟨htype, hopts, -, -, -⟩ := loaded_cases hloaded
  have hl : l.envType = .nvosUboot := (Option.some.inj (hkind.symm.trans htype)).symm
  have hdump : l.o.dump = false := by
    obtain ⟨envType, -, h⟩ := Option.bind_eq_some_iff.mp hloaded
    obtain ⟨o, ho, -⟩ := Option.bind_eq_some_iff.mp h
    unfold acceptedOptions at ho
    dsimp only at ho
    split at ho
    · cases ho
    · rename_i hrefused
      rw [hopts]
      cases hdump : (optionsOf argv).dump with
      | false => rfl
      | true =>
        rw [hdump, hprint] at hrefused
        simp at hrefused
  obtain ⟨data, L, hsection, hL, hdistinct, hm⟩ := h
  obtain ⟨-, hblock⟩ := loaded_flash hloaded hfinds hsection hl
  obtain ⟨L', hL', -, hm', -, hsize⟩ := draft_keeps hl hopts hblock hL hdistinct hm hattempt
  obtain ⟨env, -, -, hchecked⟩ := attempt_start hattempt
  obtain ⟨_, hshown, -⟩ := ok_of_bind hchecked
  obtain ⟨v, houtput⟩ := @main_output ν a l d prodInfoDataSize argv0 argv working flash
    hloaded hattempt
  rw [shown, hdump, hopts, hprint, hsize] at hshown
  have hshows := printVars_shows (a := a) hL' hm' hplain hshown
  rw [houtput, hl, hsize, envPrintenv, hdump, hopts, hprint]
  exact (hshows v).2

end Printing

section Histories

variable {ν : Type} {prodInfoDataSize : ℕ} {flash : Store ν} {m : Values}

/-- One run of the program. -/
structure Invocation (ν : Type) where
  /-- What its calls answer. -/
  answers : Answers ν
  /-- Its name. -/
  argv0 : CString
  /-- Its options. -/
  argv : List Opt
  /-- The working copy before the NVRAM is initialised. -/
  working : Store ν

/-- What comes of a run. -/
def Invocation.run (prodInfoDataSize : ℕ) (i : Invocation ν) (flash : Store ν) :
    Run EnvOp Stop ℤ (World ν) :=
  exec (handler i.answers) everyCall (main prodInfoDataSize i.argv0 i.argv)
    (started i.working flash)

/-- The flash after many runs. -/
def flashAfter (prodInfoDataSize : ℕ) : List (Invocation ν) → Store ν → Store ν
  | [], flash => flash
  | i :: is, flash => flashAfter prodInfoDataSize is (i.run prodInfoDataSize flash).state.flash

/-- The map after them: the runs that succeed make their changes. -/
def valuesAfter (prodInfoDataSize : ℕ) : List (Invocation ν) → Store ν → Values → Values
  | [], _, m => m
  | i :: is, flash, m =>
    valuesAfter prodInfoDataSize is (i.run prodInfoDataSize flash).state.flash
      (if envTypeOf i.argv0 = some .nvosUboot ∧
          (i.run prodInfoDataSize flash).outcome = .ret exitSuccess then
        changed i.answers i.argv m
      else m)

/-- Many runs keep the block valid, and in it the map. -/
theorem runs_keep {is : List (Invocation ν)} (h : Keeps flash m)
    (hfinds : ∀ i ∈ is, Finds i.answers i.argv) :
    Keeps (flashAfter prodInfoDataSize is flash) (valuesAfter prodInfoDataSize is flash m) := by
  induction is generalizing flash m with
  | nil => exact h
  | cons i is ih =>
    exact ih (run_keeps h (hfinds i (List.mem_cons_self ..)) ⟨rfl, rfl⟩)
      fun i' hi' => hfinds i' (List.mem_cons_of_mem _ hi')

/-- One more run. -/
theorem valuesAfter_append (is : List (Invocation ν)) (i : Invocation ν)
    (hkind : envTypeOf i.argv0 = some .nvosUboot)
    (hsuccess : (i.run prodInfoDataSize (flashAfter prodInfoDataSize is flash)).outcome =
      .ret exitSuccess) :
    valuesAfter prodInfoDataSize (is ++ [i]) flash m =
      changed i.answers i.argv (valuesAfter prodInfoDataSize is flash m) := by
  induction is generalizing flash m with
  | nil => exact if_pos ⟨hkind, hsuccess⟩
  | cons i' is ih => exact ih hsuccess

/-- After any runs, which succeed or fail in any way, a run prints for every
name of a list what the map with the changes of the successful runs says. -/
theorem runs_print {is : List (Invocation ν)} {i : Invocation ν} {printlist : CString}
    (h : Keeps flash m) (hfinds : ∀ i' ∈ is ++ [i], Finds i'.answers i'.argv)
    (hkind : envTypeOf i.argv0 = some .nvosUboot)
    (hprint : (optionsOf i.argv).printlist = some printlist)
    (hplain : ∀ var ∈ varNames printlist, varAsign ∉ var.val)
    (hsuccess : (i.run prodInfoDataSize (flashAfter prodInfoDataSize is flash)).outcome =
      .ret exitSuccess) :
    printed (i.run prodInfoDataSize (flashAfter prodInfoDataSize is flash)).calls =
      (varNames printlist).flatMap
        (printedFor i.answers (valuesAfter prodInfoDataSize (is ++ [i]) flash m)) := by
  have hbefore : Keeps (flashAfter prodInfoDataSize is flash)
      (valuesAfter prodInfoDataSize is flash m) :=
    runs_keep h fun i' hi' => hfinds i' (List.mem_append_left _ hi')
  have hlast := hfinds i (List.mem_append_right _ (List.mem_singleton_self i))
  rw [valuesAfter_append is i hkind hsuccess]
  exact run_prints hbefore hlast hkind hprint hplain ⟨hsuccess, rfl⟩

/-- A run that is answered everything, unless nothing can be saved. -/
def plainRun (saves : Bool) (argv : List Opt) : Invocation Unit where
  answers := { plainAnswers (.file [] true) with nvSave := saves }
  argv0 := ubootenv
  argv := argv
  working := ubootFlash []

/-- A string of the example. -/
theorem plain_b2 : (0 : UInt8) ∉ text "b=2" := by decide

/-- A string of the example. -/
theorem plain_a7 : (0 : UInt8) ∉ text "a=7" := by decide

/-- A name of the example. -/
theorem plain_a : (0 : UInt8) ∉ text "a" := by decide

/-- `--set b=2` succeeds, `--set a=7` fails, and `--erase a` succeeds. -/
def plainRuns : List (Invocation Unit) :=
  [plainRun true [.set ⟨text "b=2", plain_b2⟩], plainRun false [.set ⟨text "a=7", plain_a7⟩],
    plainRun true [.erase ⟨text "a", plain_a⟩]]

/-- `--set c=3 --print "a b c"`. -/
def printingRun : Invocation Unit :=
  plainRun true [.set ⟨text "c=3", by decide⟩, .print ⟨text "a b c", by decide⟩]

set_option maxRecDepth 16000 in
/-- What is printed after these runs. -/
theorem runs_print_example :
    printed (printingRun.run 0 (flashAfter 0 plainRuns (ubootFlash roomyBlock))).calls =
      text "b=2\nc=3\n" := by
  have hstart : Keeps (ubootFlash roomyBlock) (valueIn [text "a=1"]) := by
    refine ⟨_, [text "a=1"], rfl, ⟨?_, List.prefix_append _ _⟩, List.nodup_singleton _,
      fun _ _ => rfl⟩
    intro s hs
    rw [List.mem_singleton.mp hs]
    exact ⟨by decide, by decide⟩
  have hfound : ∀ i ∈ plainRuns ++ [printingRun], i.answers.nvOSCfgFind 0 = true := by decide
  have hprinted := @runs_print Unit 0 _ (valueIn [text "a=1"]) plainRuns printingRun
    ⟨text "a b c", by decide⟩ hstart (fun i hi _ => hfound i hi) rfl rfl (by decide) rfl
  exact hprinted.trans rfl

end Histories

end MetaDigi.EnvHistories
