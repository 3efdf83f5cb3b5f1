import MetaDigi.FlashInit

/-!
# Images in other directories

The kind of an image is told by its name, but the expressions are searched for
in the whole path, and the first one that is found counts. So a directory may
decide. It does exactly when an expression that comes before the one for the
name is found in the directory, or, for the expression with two parts, begins
there.
-/

namespace MetaDigi.FlashNames

open CStrings TextScan SystemProgram FlashTypes FlashInit

/-- The two texts of an expression of `axFileType`, of which one may be empty. -/
def fileTypeTexts : FileType → Bytes × Bytes
  | .ftUBoot => (text "u-boot-", text ".bin")
  | .ftKernel => (text "uImage-", [])
  | .ftFPGA => ([], text ".biu")
  | .ftNVRAM => (text "nvram-", [])
  | .ftJFFS2 => ([], text ".jffs2")
  | .ftSQUASHFS => ([], text ".squashfs")
  | .ftUBI => ([], text ".ubi")
  | .ftBootstream => ([], text ".sb")
  | .ftUnknown => ([], [])

/-- Every expression looks for its two texts with anything in between. -/
theorem axFileType_between :
    ∀ entry ∈ axFileType, regcomp entry.2 =
      between (fileTypeTexts entry.1).1 (fileTypeTexts entry.1).2 := by
  decide

/-- The slash. -/
def slash : UInt8 := 47

theorem slash_not_mem (fileType : FileType) :
    slash ∉ (fileTypeTexts fileType).1 ∧ slash ∉ (fileTypeTexts fileType).2 := by
  cases fileType <;> decide

/-- An expression begins in the directory and ends in the name: only the one
with two texts can. -/
def Straddles (fileType : FileType) (d b : Bytes) : Prop :=
  fileType = .ftUBoot ∧ text "u-boot-" <:+: d ∧ text ".bin" <:+: b

/-- Only the first expression has two texts. -/
theorem one_text {fileType : FileType} (hother : fileType ≠ .ftUBoot) :
    (fileTypeTexts fileType).1 = [] ∨ (fileTypeTexts fileType).2 = [] := by
  cases fileType <;> first
    | exact .inl rfl
    | exact .inr rfl
    | exact absurd rfl hother

/-- The first text is found in the directory and the second one in the name. -/
theorem found_apart {fileType : FileType} {d b : Bytes} (hl : (fileTypeTexts fileType).1 <:+: d)
    (hm : (fileTypeTexts fileType).2 <:+: b) :
    regexec (between (fileTypeTexts fileType).1 (fileTypeTexts fileType).2) d = true ∨
      regexec (between (fileTypeTexts fileType).1 (fileTypeTexts fileType).2) b = true ∨
        Straddles fileType d b := by
  by_cases hboot : fileType = .ftUBoot
  · rw [hboot] at hl hm
    exact .inr (.inr ⟨hboot, hl, hm⟩)
  · rcases one_text hboot with hnil | hnil
    · refine .inr (.inl ((regexec_between _ _ _).mpr ⟨[], b, rfl, ?_, hm⟩))
      rw [hnil]
    · refine .inl ((regexec_between _ _ _).mpr ⟨d, [], (List.append_nil d).symm, hl, ?_⟩)
      rw [hnil]

/-- An expression is found in a path when it is found in the directory or in
the name, or begins in the one and ends in the other. -/
theorem regexec_path {entry : FileType × Bytes} (hentry : entry ∈ axFileType) (d b : Bytes) :
    regexec (regcomp entry.2) (d ++ [slash] ++ b) = true ↔
      regexec (regcomp entry.2) (d ++ [slash]) = true ∨ regexec (regcomp entry.2) b = true ∨
        Straddles entry.1 (d ++ [slash]) b := by
  obtain ⟨hslash1, hslash2⟩ := slash_not_mem entry.1
  rw [axFileType_between entry hentry]
  constructor
  · intro hfound
    obtain ⟨u, v, hsplit, hl, hm⟩ := (regexec_between _ _ _).mp hfound
    rcases List.append_eq_append_iff.mp hsplit with ⟨t, hu, hb⟩ | ⟨t, hd, hv⟩
    · have hmb : (fileTypeTexts entry.1).2 <:+: b :=
        hm.trans (by rw [hb]; exact (List.suffix_append ..).isInfix)
      rw [hu] at hl
      rcases (infix_append_sep hslash1 d t).mp hl with hld | hlt
      · exact found_apart hld hmb
      · exact .inr (.inl ((regexec_between _ _ _).mpr ⟨t, v, hb, hlt, hm⟩))
    · have hld : (fileTypeTexts entry.1).1 <:+: d ++ [slash] :=
        hl.trans (by rw [hd]; exact (List.prefix_append ..).isInfix)
      rcases List.eq_nil_or_concat t with hnil | ⟨t', c, ht⟩
      · rw [hnil, List.nil_append] at hv
        exact found_apart hld (hv ▸ hm)
      · rw [List.concat_eq_append] at ht
        rw [ht, ← List.append_assoc] at hd
        have hc : slash = c := List.singleton_inj.mp (List.append_inj' hd rfl).2
        rw [hv, ht, ← hc] at hm
        rcases (infix_append_sep hslash2 t' b).mp hm with hmt | hmb
        · refine .inl ((regexec_between _ _ _).mpr ⟨u, t' ++ [slash], ?_, hl, hmt⟩)
          rw [hd, hc, List.append_assoc]
        · exact found_apart hld hmb
  · rintro (hfound | hfound | ⟨hboot, hl, hm⟩)
    · obtain ⟨u, v, hd, hl, hm⟩ := (regexec_between _ _ _).mp hfound
      refine (regexec_between _ _ _).mpr ⟨u, v ++ b, ?_, hl, ?_⟩
      · rw [hd, List.append_assoc]
      · exact hm.trans (List.prefix_append ..).isInfix
    · obtain ⟨u, v, hb, hl, hm⟩ := (regexec_between _ _ _).mp hfound
      refine (regexec_between _ _ _).mpr ⟨d ++ [slash] ++ u, v, ?_, ?_, hm⟩
      · rw [hb, List.append_assoc _ u v]
      · exact hl.trans (List.suffix_append ..).isInfix
    · rw [hboot]
      exact (regexec_between _ _ _).mpr ⟨d ++ [slash], b, rfl, hl, hm⟩

/-- What `MtdPartDetermineAndCheckFileType` decides: to reject the image, or
its kind and whether it is JFFS2. -/
def decision (pMtd : MtdPartition) (szImageFileName : Path) : Option (FileType × Bool) :=
  match mtdPartDetermineAndCheckFileType { pMtd with szImageFileName } with
  | .ret pMtd => some (pMtd.eFileType, pMtd.cIsJFFS2)
  | _ => none

/-- What is decided for a kind of image. -/
def decisionFor (pMtd : MtdPartition) : Option FileType → Option (FileType × Bool)
  | none => some (pMtd.eFileType, pMtd.cIsJFFS2)
  | some eType =>
    if pMtd.eFileTypeNeeded ≠ eType ∧ pMtd.eFileTypeNeeded ≠ .ftUnknown then none
    else some (eType, if eType = .ftJFFS2 then true else pMtd.cIsJFFS2)

/-- The decision rests on the kind of the image. -/
theorem decision_eq (pMtd : MtdPartition) (szImageFileName : Path) :
    decision pMtd szImageFileName = decisionFor pMtd (fileTypeOfName szImageFileName) := by
  unfold decision decisionFor mtdPartDetermineAndCheckFileType
  dsimp only
  cases fileTypeOfName szImageFileName with
  | none => rfl
  | some eType =>
    dsimp only
    by_cases hreject : pMtd.eFileTypeNeeded ≠ eType ∧ pMtd.eFileTypeNeeded ≠ .ftUnknown
    · rw [if_pos hreject, if_pos hreject]
    · rw [if_neg hreject, if_neg hreject]
      by_cases hjffs2 : eType = .ftJFFS2
      · rw [if_pos hjffs2, if_pos hjffs2]
        rfl
      · rw [if_neg hjffs2, if_neg hjffs2]
        rfl

/-- The expressions that come before the one for a name. -/
def triedBefore (b : Bytes) : List (FileType × Bytes) :=
  axFileType.takeWhile (fun entry => !regexec (regcomp entry.2) b)

/-- None of them is found in the directory, or begins there and ends in the
name. -/
def DirectoryIsSilent (d b : Bytes) : Prop :=
  ∀ entry ∈ triedBefore b, regexec (regcomp entry.2) d = false ∧ ¬Straddles entry.1 d b

/-- The first entry that a wider test accepts has the same key, when no entry
in front of it is only accepted by the wider test. -/
theorem find?_key_iff {α β : Type} {p q : α × β → Bool} {entries : List (α × β)}
    (hkeys : (entries.map Prod.fst).Nodup) (hwider : ∀ e ∈ entries, p e = true → q e = true)
    (hsome : ∃ e ∈ entries, p e = true) :
    (entries.find? q).map Prod.fst = (entries.find? p).map Prod.fst ↔
      ∀ e ∈ entries.takeWhile (fun e => !p e), q e = false := by
  induction entries with
  | nil =>
    obtain ⟨e, he, -⟩ := hsome
    exact absurd he List.not_mem_nil
  | cons e entries ih =>
    rw [List.map_cons, List.nodup_cons] at hkeys
    cases hp : p e with
    | true =>
      have hq := hwider e (List.mem_cons_self ..) hp
      rw [List.find?_cons_of_pos hq, List.find?_cons_of_pos hp,
        List.takeWhile_cons_of_neg (by rw [hp]; decide)]
      exact iff_of_true rfl fun _ h => absurd h List.not_mem_nil
    | false =>
      have hnot : ¬p e = true := by
        rw [hp]
        exact Bool.false_ne_true
      have hrest : ∃ e ∈ entries, p e = true := by
        obtain ⟨e', he', hp'⟩ := hsome
        rcases List.mem_cons.mp he' with heq | hmem
        · exact absurd (heq ▸ hp') hnot
        · exact ⟨e', hmem, hp'⟩
      rw [List.find?_cons_of_neg hnot, List.takeWhile_cons_of_pos (by rw [hp]; rfl),
        List.forall_mem_cons]
      cases hq : q e with
      | true =>
        rw [List.find?_cons_of_pos hq]
        refine iff_of_false (fun hsame => ?_) fun hall => absurd hall.1 nofun
        obtain ⟨e', he'⟩ := Option.isSome_iff_exists.mp (List.find?_isSome.mpr hrest)
        rw [he', Option.map_some, Option.map_some, Option.some.injEq] at hsame
        exact hkeys.1 (hsame ▸ List.mem_map_of_mem (List.mem_of_find?_eq_some he'))
      | false =>
        rw [List.find?_cons_of_neg (by rw [hq]; exact Bool.false_ne_true)]
        rw [ih hkeys.2 (fun e he => hwider e (List.mem_cons_of_mem _ he)) hrest]
        exact (and_iff_right rfl).symm

/-- The last expression is found in every path. -/
theorem found_last (s : Path) :
    ∃ entry ∈ axFileType, regexec (regcomp entry.2) s = true := by
  refine ⟨(.ftUnknown, text ".*"), by decide, ?_⟩
  rw [axFileType_between (.ftUnknown, text ".*") (by decide)]
  exact (regexec_between _ _ _).mpr ⟨[], s, rfl, List.infix_refl [], List.nil_infix⟩

/-- A path has the kind of its name exactly when the directory is silent. -/
theorem fileTypeOfName_path_iff (d b : Bytes) :
    fileTypeOfName (d ++ [slash] ++ b) = fileTypeOfName b ↔
      DirectoryIsSilent (d ++ [slash]) b := by
  unfold fileTypeOfName
  rw [find?_key_iff (by decide) (fun entry hentry hfound =>
    (regexec_path hentry d b).mpr (.inr (.inl hfound))) (found_last b)]
  refine forall₂_congr fun entry hmem => ?_
  have hentry : entry ∈ axFileType := (List.takeWhile_sublist _).mem hmem
  have hunfound : ¬regexec (regcomp entry.2) b = true := by
    have hbefore := List.mem_takeWhile_imp hmem
    rw [Bool.not_eq_true'] at hbefore
    rw [hbefore]
    exact Bool.false_ne_true
  rw [← Bool.not_eq_true, regexec_path hentry, not_or, not_or, Bool.not_eq_true]
  exact and_congr_right fun _ => and_iff_right hunfound

/-- Every path has a kind. -/
theorem fileTypeOfName_some (s : Path) : ∃ eType, fileTypeOfName s = some eType := by
  obtain ⟨e, he⟩ := Option.isSome_iff_exists.mp (List.find?_isSome.mpr (found_last s))
  exact ⟨e.1, by rw [fileTypeOfName, he, Option.map_some]⟩

/-- What is decided for an image in a directory is what is decided for its name
alone, for every partition, exactly when the directory is silent. -/
theorem decision_path_iff (d b : Bytes) :
    (∀ pMtd, decision pMtd (d ++ [slash] ++ b) = decision pMtd b) ↔
      DirectoryIsSilent (d ++ [slash]) b := by
  rw [← fileTypeOfName_path_iff]
  constructor
  · intro hsame
    obtain ⟨t, ht⟩ := fileTypeOfName_some (d ++ [slash] ++ b)
    obtain ⟨t', ht'⟩ := fileTypeOfName_some b
    have hany := hsame { cleared with eFileTypeNeeded := .ftUnknown }
    rw [decision_eq, decision_eq, ht, ht'] at hany
    have haccept : ∀ eType : FileType,
        ¬(FileType.ftUnknown ≠ eType ∧ FileType.ftUnknown ≠ .ftUnknown) := fun _ h => h.2 rfl
    unfold decisionFor at hany
    dsimp only at hany
    rw [if_neg (haccept t), if_neg (haccept t')] at hany
    rw [ht, ht', (Prod.mk.inj (Option.some.inj hany)).1]
  · intro hkind pMtd
    rw [decision_eq, decision_eq, hkind]

/-- In a directory for backups a root file system is taken for an environment,
and its partition is not erased whole. -/
theorem backup_is_nvram :
    decision { cleared with eFileTypeNeeded := .ftUnknown }
        (text "nvram-backup" ++ [slash] ++ text "rootfs.jffs2") = some (.ftNVRAM, false) ∧
      decision { cleared with eFileTypeNeeded := .ftUnknown } (text "rootfs.jffs2") =
        some (.ftJFFS2, true) ∧
      ¬∀ pMtd, decision pMtd (text "nvram-backup" ++ [slash] ++ text "rootfs.jffs2") =
        decision pMtd (text "rootfs.jffs2") := by
  refine ⟨by decide, by decide, fun hall => ?_⟩
  exact absurd (hall { cleared with eFileTypeNeeded := .ftUnknown }) (by decide)

end MetaDigi.FlashNames
