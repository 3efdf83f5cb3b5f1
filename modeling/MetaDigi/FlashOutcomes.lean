import MetaDigi.FlashVerdicts
import MetaDigi.FlashImages
import MetaDigi.FlashStaging

/-!
# What an update makes of the flash

An update is described without the tool: for every element of the list the
blocks that its image needs are erased, and the image is laid over the good
pages. On a system where no call fails, a run that gets to its end has changed
flash to just that. The contents before it do not matter inside the blocks
that are needed, and nothing changes outside of them.
-/

namespace MetaDigi.FlashOutcomes

open CStrings SystemProgram SystemRuns FlashTypes FlashInit FlashTransfer FlashMain FlashWorld
open FlashEffects FlashRuns FlashRecords FlashDevice FlashErasing FlashWriting FlashImages
open FlashVerifying FlashVerdicts FlashChecksum FlashStaging BlockLayout Crc32 Prog

section Plan

variable (env : Env) (opts : Options)

/-- The blocks of a partition are all erased: because of the options, or
because the image is JFFS2. -/
def erasesAll (l : Listed) : Bool :=
  opts.cEraseAll || (opts.cWriteCleanMarker && !env.oobAtomic) ||
    namesJFFS2 opts.cNoImageTypeCheck l.file

/-- The blocks that are needed for an element of the list. -/
def blocksFor (files : Files) (l : Listed) : List ℕ :=
  neededBlocks env l.part (erasesAll env opts l) (contents files l.file).length

/-- The pages that hold its image. -/
def pagesFor (files : Files) (l : Listed) : List (ℕ × Bytes) :=
  (layout (pageSize env l.part) (goodPages env l.part) (contents files l.file)).map fun page =>
    (page.1, fillPage (namesJFFS2 opts.cNoImageTypeCheck l.file) (pageSize env l.part) page.2)

/-- The cells of a partition after an element of the list has been dealt with. -/
def flashed (files : Files) (l : Listed) (cells : ℕ → UInt8) : ℕ → UInt8 :=
  putAll (putAll cells ((blocksFor env opts files l).map fun o =>
    (o, List.replicate (env.info l.part).erasesize flashErasedByte))) (pagesFor env opts files l)

/-- The flash after the whole list. -/
def updated (files : Files) (ls : List Listed) (mem : FlashMem) : FlashMem :=
  ls.foldl (fun mem l => setPart mem l.part (flashed env opts files l (mem l.part))) mem

/-- A cell of a block that is needed for the list. -/
def Needed (files : Files) (ls : List Listed) (part a : ℕ) : Prop :=
  ∃ l ∈ ls, l.part = part ∧ ∃ o ∈ blocksFor env opts files l,
    o ≤ a ∧ a < o + (env.info part).erasesize

/-- The first of the list, then the others. -/
theorem updated_cons (files : Files) (l : Listed) (ls : List Listed) (mem : FlashMem) :
    updated env opts files (l :: ls) mem =
      updated env opts files ls (setPart mem l.part (flashed env opts files l (mem l.part))) := rfl

end Plan

section Flags

/-- The flags of a record that has been named. -/
structure Flagged (g : Globals) (pMtd : MtdPartition) : Prop where
  /-- JFFS2 needs a full erase. -/
  all : pMtd.cEraseAll = (g.cEraseAll || (!g.cVerifyOnly && pMtd.cIsJFFS2))
  /-- Clean markers are written when they were asked for, or for JFFS2. -/
  marker : pMtd.cWriteCleanMarker = true → g.cWriteCleanMarker = true ∨ pMtd.cIsJFFS2 = true
  /-- The partition is closed again. -/
  closed : pMtd.isOpen = false

/-- The flags that the options ask for. -/
def Asked (g : Globals) (pMtd : MtdPartition) : Prop :=
  pMtd.cEraseAll = g.cEraseAll ∧ pMtd.cWriteCleanMarker = g.cWriteCleanMarker

variable (g : Globals)

/-- The driver has been asked. -/
theorem mtdPartReadInfo_asked (pMtd : MtdPartition) :
    (mtdPartReadInfo g pMtd).Sat Quiet AnyReason (Asked g) := by
  unfold mtdPartReadInfo
  refine sat_sysOrFail_andThen (.inl rfl) trivial fun _ xInfo _ => ?_
  refine Sat.andThen (sat_quiet (sat_relax (countBadBlocks_sat g _))) fun uiBadBlocks _ => ?_
  refine Sat.andThen (sat_quiet (sat_relax (mtdPartDeterminePartType_sat _))) fun q hq => ?_
  obtain ⟨ePartType, eFileTypeNeeded, hq⟩ := hq
  rw [hq]
  exact sat_ret ⟨rfl, rfl⟩

/-- Naming an image keeps this. -/
theorem mtdPartUseFile_asked {pMtd : MtdPartition} (h : Asked g pMtd) (szImageFileName : Path) :
    (mtdPartUseFile g pMtd szImageFileName).Sat Quiet AnyReason (Asked g) := by
  unfold mtdPartUseFile mtdPartDetermineAndCheckFileType
  refine sat_sysOrFail_andThen (.inr rfl) trivial fun _ st_size _ => ?_
  dsimp only
  split
  · split
    · exact sat_exit trivial
    · split
      · exact sat_ret h
      · split
        · exact sat_ret h
        · split
          · exact sat_exit trivial
          · split
            · exact sat_ret h
            · exact sat_ret h
  · exact sat_ret h

/-- The flags of a record after `MtdPartInit`. -/
theorem mtdPartInit_flagged (uiPartition : ℕ) (szImageFileName : Path) :
    (mtdPartInit g uiPartition szImageFileName).Sat Quiet AnyReason (Flagged g) := by
  unfold mtdPartInit
  refine Sat.andThen (sat_quiet (sat_relax (mtdPartOpen_sat g _ _))) fun p₁ _ => ?_
  refine Sat.andThen (mtdPartReadInfo_asked g p₁) fun p₂ h₂ => ?_
  refine Sat.andThen (R := Asked g) ?_ fun p₃ h₃ => ?_
  · refine sat_sys_andThen (.inl rfl) fun atomic => ?_
    split
    · exact sat_ret h₂
    · refine (sat_quiet (sat_relax (mtdPartInitCleanMarker_sat p₂))).mono (fun _ h => h)
        (fun _ h => h) fun q hq => ?_
      obtain ⟨uiClMPos, uiClMLen, xCleanMarker, hq⟩ := hq
      rw [hq]
      exact h₂
  refine Sat.andThen (mtdPartUseFile_asked g h₃ _) fun p₄ h₄ => ?_
  refine Sat.andThen (sat_quiet (sat_relax (mtdPartClose_sat p₄))) fun p₅ hp₅ => ?_
  have hall : p₅.cEraseAll = g.cEraseAll := by
    rw [hp₅]
    exact h₄.1
  have hmarker : p₅.cWriteCleanMarker = g.cWriteCleanMarker := by
    rw [hp₅]
    exact h₄.2
  have hclosed : p₅.isOpen = false := by rw [hp₅]
  split
  · rename_i hjffs2
    rw [Bool.and_eq_true] at hjffs2
    have hboth : true = (g.cEraseAll || (!g.cVerifyOnly && p₅.cIsJFFS2)) := by
      rw [hjffs2.1, hjffs2.2, Bool.and_self, Bool.or_true]
    refine sat_sys_andThen (.inl rfl) fun atomic => ?_
    split
    · exact sat_ret ⟨hboth, fun h => .inl (hmarker ▸ h), hclosed⟩
    · exact sat_ret ⟨hboth, fun _ => .inr hjffs2.2, hclosed⟩
  · rename_i hplain
    have hnone : (!g.cVerifyOnly && p₅.cIsJFFS2) = false := Bool.eq_false_iff.mpr hplain
    refine sat_ret ⟨?_, fun h => .inl (hmarker ▸ h), hclosed⟩
    rw [hnone, Bool.or_false, hall]

/-- The flags of all records of a list. -/
theorem nameParts_flagged (hparts : g.cChecksumOnly = false) (left : ℕ) (args : List Bytes) :
    (nameParts g left args).Sat Quiet AnyReason (fun parts => ∀ p ∈ parts, Flagged g p) := by
  have hnone : ∀ p ∈ ([] : List MtdPartition), Flagged g p := fun p hp => absurd hp List.not_mem_nil
  induction left generalizing args with
  | zero =>
    cases args with
    | nil => exact sat_ret hnone
    | cons arg args => exact sat_exit trivial
  | succ left ih =>
    cases args with
    | nil => exact sat_ret hnone
    | cons arg args =>
      unfold nameParts
      split
      · exact sat_exit trivial
      refine Sat.andThen (R := fun r => Flagged g r.1) ?_ fun r hr => ?_
      · unfold namePart
        dsimp only
        rw [if_neg (by rw [hparts]; exact Bool.false_ne_true)]
        split
        · exact sat_exit trivial
        · split
          · exact sat_exit trivial
          · split
            · exact sat_exit trivial
            · exact Sat.andThen (mtdPartInit_flagged g _ _) fun p hp => sat_ret hp
      refine Sat.andThen (R := fun r => Flagged g r.1) ?_ fun q hq => ?_
      · unfold nameChecksum
        split
        · split
          · exact sat_exit trivial
          · split
            · exact sat_exit trivial
            · exact sat_ret ⟨hr.all, hr.marker, hr.closed⟩
        · exact sat_ret hr
      exact Sat.andThen (ih q.2) fun parts hparts => sat_ret (List.forall_mem_cons.mpr ⟨hq, hparts⟩)

/-- A full erase is done when one was asked for, or for clean markers that the
platform can write. -/
theorem prepare_erases {env : Env} {opts : Options} {fuel : ℕ} {w w' : World}
    (hrun : Ends (system env) (prepare opts fuel) w (.ret g) w') :
    g.cEraseAll = (opts.cEraseAll || (opts.cWriteCleanMarker && !env.oobAtomic)) ∧
      (g.cWriteCleanMarker = true → opts.cWriteCleanMarker = true) := by
  unfold prepare at hrun
  obtain ⟨o, w₁, hmarker, hrun⟩ := Ends.split hrun
  have ho : o = { opts with cWriteCleanMarker := opts.cWriteCleanMarker && !env.oobAtomic } := by
    cases hasked : opts.cWriteCleanMarker with
    | false =>
      rw [hasked, if_neg Bool.false_ne_true] at hmarker
      rw [hmarker.pure_inv.1, Bool.false_and, ← hasked]
    | true =>
      rw [hasked, if_pos rfl] at hmarker
      obtain ⟨atomic, w₂, hasks, hmarker⟩ := Ends.split hmarker
      have hatomic : atomic = env.oobAtomic := hasks.perform_inv.1
      rw [hatomic] at hmarker
      cases hoob : env.oobAtomic with
      | false =>
        rw [hoob, if_neg Bool.false_ne_true] at hmarker
        rw [hmarker.pure_inv.1, Bool.true_and, Bool.not_false, ← hasked]
      | true =>
        rw [hoob, if_pos rfl] at hmarker
        rw [hmarker.pure_inv.1, Bool.true_and, Bool.not_true]
  rw [ho] at hrun
  dsimp only at hrun
  have hoptions : g.toOptions = { opts with
      cWriteCleanMarker := opts.cWriteCleanMarker && !env.oobAtomic
      cEraseAll := opts.cEraseAll || (opts.cWriteCleanMarker && !env.oobAtomic) } := by
    split at hrun
    · rw [hrun.pure_inv.1]
    · exact (hrun.result (mtdInit_sat _ _)).1
  have hall := congrArg Options.cEraseAll hoptions
  have hmark := congrArg Options.cWriteCleanMarker hoptions
  refine ⟨hall, fun h => ?_⟩
  rw [h] at hmark
  exact (Bool.and_eq_true_iff.mp hmark.symm).1

end Flags

section Element

variable {env : Env} {opts : Options} {program : UInt8 → UInt8 → UInt8} {g : Globals}

/-- A record is ready for an element of the list: it describes the partition,
the image is the file of the list, with the size that was noted, and fits. -/
structure Ready (env : Env) (opts : Options) (files : Files) (l : Listed) (p : MtdPartition) :
    Prop where
  /-- The record describes the partition. -/
  describes : Describes env p
  /-- The record is for this partition. -/
  part : p.uiPartition = l.part
  /-- The size is that of the good blocks. -/
  size : p.iSize = goodBytes env p.uiPartition
  /-- The image is the file of the list. -/
  image : p.szImageFileName = l.file
  /-- So is the file to compare with. -/
  original : p.szOrigImageFileName = l.file
  /-- The file is there and has this size. -/
  length : (files l.file).map List.length = some p.iFileSize
  /-- The image fits. -/
  fits : p.iFileSize ≤ goodBytes env p.uiPartition
  /-- The image is JFFS2 when its name says so. -/
  jffs2 : p.cIsJFFS2 = namesJFFS2 opts.cNoImageTypeCheck l.file
  /-- Whether all blocks are erased. -/
  all : p.cEraseAll = erasesAll env opts l
  /-- Clean markers go to the out-of-band area. -/
  marker : p.cWriteCleanMarker = true → p.cIsNAND = true

/-- What a record has to share with a ready one. -/
theorem Ready.of_settled {files : Files} {l : Listed} {p q : MtdPartition}
    (h : Ready env opts files l p) (hq : settled q = settled p)
    (hname : q.szImageFileName = p.szImageFileName) : Ready env opts files l q := by
  have hpart := congrArg MtdPartition.uiPartition hq
  have hinfo := congrArg MtdPartition.xInfo hq
  have hnand := congrArg MtdPartition.cIsNAND hq
  have hpage := congrArg MtdPartition.iPageSize hq
  have hsize := congrArg MtdPartition.iSize hq
  have horiginal := congrArg MtdPartition.szOrigImageFileName hq
  have hlength := congrArg MtdPartition.iFileSize hq
  have hjffs2 := congrArg MtdPartition.cIsJFFS2 hq
  have hall := congrArg MtdPartition.cEraseAll hq
  have hmarker := congrArg MtdPartition.cWriteCleanMarker hq
  dsimp only [settled] at hpart hinfo hnand hpage hsize horiginal hlength hjffs2 hall hmarker
  refine ⟨⟨?_, ?_, ?_⟩, ?_, ?_, ?_, ?_, ?_, ?_, ?_, ?_, ?_⟩
  · rw [hinfo, hpart, h.describes.info]
  · rw [hnand, hpart, h.describes.nand]
  · rw [hpage, hpart, h.describes.page]
  · rw [hpart, h.part]
  · rw [hsize, hpart, h.size]
  · rw [hname, h.image]
  · rw [horiginal, h.original]
  · rw [hlength, h.length]
  · rw [hlength, hpart]
    exact h.fits
  · rw [hjffs2, h.jffs2]
  · rw [hall, h.all]
  · rw [hmarker, hnand]
    exact h.marker

/-- The file of a ready record. -/
theorem Ready.content {files : Files} {l : Listed} {p : MtdPartition}
    (h : Ready env opts files l p) :
    files l.file = some (contents files l.file) ∧ (contents files l.file).length = p.iFileSize := by
  obtain ⟨content, hfile, hlength⟩ := Option.map_eq_some_iff.mp h.length
  unfold contents
  rw [hfile, Option.getD_some]
  exact ⟨rfl, hlength⟩

variable {l : Listed} {p : MtdPartition} {w w' : World} {files : Files}
  (hg : Geometry env l.part) (hready : Ready env opts files l p) (hfiles : w.files = files)

include hg hready hfiles

/-- Erasing and writing does to a partition what is to be done for the element
of the list. -/
theorem erase_then_write_mem (hworks : Works env) (hprog : Programs env program)
    (herased : ∀ b, program flashErasedByte b = b) (hdry : g.cDryRun = false)
    (hfuel : pageCount env l.part < g.fuel) :
    ∃ q w', Ends (system env) (mtdPartErase g p >>= fun _ => mtdPartWrite g p) w (.ret q) w' ∧
      w'.mem = setPart w.mem l.part (flashed env opts files l (w.mem l.part)) ∧
      w'.files = files := by
  obtain ⟨hfile, hlength⟩ := hready.content
  have hd := hready.describes
  have hpart := hready.part
  have hgq : Geometry env p.uiPartition := hpart.symm ▸ hg
  have hfits := hready.fits
  have hfits' : (contents files l.file).length ≤ goodBytes env p.uiPartition := by omega
  have hsize : eraseSize p = ((if p.cEraseAll then goodBytes env p.uiPartition
      else (contents files l.file).length : ℕ) : ℤ) := by
    unfold eraseSize
    split
    · exact hready.size
    · rw [hlength]
  have hroom : (if p.cEraseAll then goodBytes env p.uiPartition
      else (contents files l.file).length) ≤ goodBytes env p.uiPartition := by
    split
    · exact Nat.le_refl _
    · exact hfits'
  obtain ⟨t₁, herase⟩ := mtdPartErase_ends g p hworks hprog hdry hready.marker hgq hd w hsize
    hroom (Nat.lt_of_le_of_lt hgq.blockCount_le (hpart.symm ▸ hfuel))
  rw [hd.info, ← neededBlocks_eq hgq, hready.all, hpart] at herase
  have hblocks : neededBlocks env l.part (erasesAll env opts l) (contents files l.file).length =
      blocksFor env opts files l := rfl
  rw [hblocks] at herase
  have hmem : ({ afterErases p w (blocksFor env opts files l) with time := t₁ } : World).mem
      p.uiPartition = putAll (w.mem p.uiPartition)
        (erasedBlocks p (blocksFor env opts files l)) := setPart_same _ _ _
  have hcell : ∀ page ∈ pagesOf p (goodPages env p.uiPartition) (contents files l.file),
      Accepts program (({ afterErases p w (blocksFor env opts files l) with time := t₁ } : World).mem
        p.uiPartition) page.1 page.2 := by
    intro page hpage a b hle hb
    obtain ⟨o, ho, hlo, hhi⟩ := page_in_neededBlock hgq hd (erasesAll env opts l) hpage
    rw [hpart] at ho
    have hlt := (List.getElem?_eq_some_iff.mp hb).1
    have hin : ∃ o ∈ blocksFor env opts files l,
        o ≤ a ∧ a < o + (env.info p.uiPartition).erasesize := ⟨o, ho, by omega, by omega⟩
    rw [hmem, erasedBlocks, hd.info, putAll_replicate _ (.inr hin)]
    exact herased b
  obtain ⟨t₂, hwrite⟩ := mtdPartWrite_ends g p hgq hd hworks hprog
    { afterErases p w (blocksFor env opts files l) with time := t₁ }
    (by rw [hready.image]; exact (congrFun hfiles _).trans hfile)
    (Nat.le_of_lt (hpart.symm ▸ hfuel)) fun _ => hcell
  have hwhole : fitting env p.uiPartition (contents files l.file) = contents files l.file :=
    List.take_of_length_le hfits'
  rw [hwhole, if_pos hlength.symm] at hwrite
  refine ⟨_, _, Ends.andThen herase hwrite, ?_, hfiles⟩
  have hpages : pagesOf p (goodPages env p.uiPartition) (contents files l.file) =
      pagesFor env opts files l := by
    rw [pagesOf, pagesFor, hd.page, hready.jffs2, hpart]
  dsimp only [afterWriting, afterWrites, afterErases]
  rw [written_wet g hdry, setPart_same, setPart_setPart, hpages, erasedBlocks, hd.info, hpart]
  rfl

omit hfiles in
/-- Writing an image and checking it writes it. -/
theorem writeAndCheck_split {q : MtdPartition}
    (hrun : Ends (system env) (writeAndCheck g p) w (.ret q) w') (hstill : Still env) :
    ∃ r w₁, Ends (system env) (mtdPartWrite g p) w (.ret r) w₁ ∧ w'.mem = w₁.mem ∧
      w'.files = w₁.files := by
  obtain ⟨r, w₁, hwrite, hrun⟩ := Ends.split hrun
  obtain ⟨x, w₂, hcheck, hclose⟩ := Ends.split hrun
  have hr := hwrite.result (mtdPartWrite_sat g p)
  have hd : Describes env r := by
    have hpart := congrArg MtdPartition.uiPartition hr
    have hinfo := congrArg MtdPartition.xInfo hr
    have hnand := congrArg MtdPartition.cIsNAND hr
    have hpage := congrArg MtdPartition.iPageSize hr
    dsimp only [settled] at hpart hinfo hnand hpage
    refine ⟨?_, ?_, ?_⟩
    · rw [hinfo, hpart, hready.describes.info]
    · rw [hnand, hpart, hready.describes.nand]
    · rw [hpage, hpart, hready.describes.page]
  have hpart : r.uiPartition = l.part := by
    have hsame := congrArg MtdPartition.uiPartition hr
    exact (hsame : r.uiPartition = p.uiPartition).trans hready.part
  have hlast := sat_file (sat_quiet (mtdPartClose_sat x))
  obtain ⟨hmem, -⟩ := flash_kept hclose hlast
  have hkept := files_kept hstill hclose (sat_quiet (mtdPartClose_sat x))
  refine ⟨r, w₁, hwrite, ?_⟩
  rw [hmem, hkept]
  split at hcheck
  · obtain ⟨⟨cRes, y⟩, w₃, hverify, hcheck⟩ := Ends.split hcheck
    obtain ⟨⟨cRes', z⟩, w₄, hcompare, htell⟩ := Ends.split hverify
    obtain ⟨_, w₅, hcall, htell⟩ := Ends.split htell
    obtain ⟨-, hmem₄, -, hfiles₄, -⟩ := comparePart_inv (hpart.symm ▸ hg) hd (hstill.sized _)
      hcompare
    obtain ⟨-, hw₃⟩ := htell.pure_inv
    obtain ⟨-, hw₅⟩ := hcall.perform_inv
    have hw₂ : w₂ = w₃ := by
      cases cRes with
      | true => exact hcheck.pure_inv.2
      | false => exact hcheck.exit_inv.elim
    rw [hw₂, hw₃, hw₅, ← hmem₄, ← hfiles₄ hstill]
    exact ⟨rfl, hstill _ _⟩
  · split at hcheck
    · have hsum := mtdPartCheckCRC32_sat g r
      exact ⟨(flash_kept hcheck (sat_file (sat_quiet hsum))).1,
        files_kept hstill hcheck (sat_quiet hsum)⟩
    · rw [hcheck.pure_inv.2]
      exact ⟨rfl, rfl⟩

/-- Flashing a partition that no external program flashes. -/
theorem updatePart_inv {q : MtdPartition} (hworks : Works env) (hprog : Programs env program)
    (herased : ∀ b, program flashErasedByte b = b) (hdry : g.cDryRun = false)
    (hfuel : pageCount env l.part < g.fuel) (hraw : ¬FlashedExternally p)
    (hrun : Ends (system env) (updatePart g p) w (.ret q) w') :
    w'.mem = setPart w.mem l.part (flashed env opts files l (w.mem l.part)) ∧ w'.files = files := by
  have hstill : Still env := hworks.interfere
  unfold FlashedExternally at hraw
  obtain ⟨hubi, hboot⟩ := not_or.mp hraw
  unfold updatePart at hrun
  obtain ⟨r, w₁, hopen, hrun⟩ := Ends.split hrun
  obtain ⟨hr, hw₁⟩ := mtdPartOpen_inv hopen
  subst hr
  obtain ⟨_, w₂, herase, hrun⟩ := Ends.split hrun
  rw [if_pos hubi] at herase
  rw [if_neg hboot, if_neg hubi] at hrun
  have hready₁ := hready.of_settled (q := { p with
    acName := g.szMtdPrefix ++ decimal p.uiPartition, isOpen := true }) rfl rfl
  have hfiles₁ : w₁.files = files := by
    rw [hw₁]
    exact (hstill _ _).trans hfiles
  have hmem₁ : w₁.mem = w.mem := by
    rw [hw₁]
    rfl
  obtain ⟨x, v, hboth, hmem, hkept⟩ := erase_then_write_mem hg hready₁ hfiles₁ hworks hprog herased
    hdry hfuel
  obtain ⟨y, w₃, hwrite, hmem', hfiles'⟩ := writeAndCheck_split hg hready₁ hrun hstill
  obtain ⟨-, hsame⟩ := hboth.unique (Ends.andThen herase hwrite)
  rw [hmem', hfiles', ← hsame, hmem, hkept, hmem₁]
  exact ⟨rfl, rfl⟩

end Element

section Lists

variable {env : Env} {opts : Options} {program : UInt8 → UInt8 → UInt8} {g : Globals}
  {w w' : World} {files : Files}

/-- Not a call of an external flasher. -/
def Internal (o : Op) : Prop := callKind o ≠ .external

/-- A later state of a record, with the same image. -/
def Resumed (p q : MtdPartition) : Prop :=
  settled q = settled p ∧ q.szImageFileName = p.szImageFileName

/-- What an external program flashes is flashed by a call of that program. -/
theorem updatePart_external {p : MtdPartition} (hext : FlashedExternally p) :
    (updatePart g p).MustCall (fun o => callKind o = .external) := by
  unfold updatePart
  refine Sat.andThen_mustCall (mtdPartOpen_sat g p false) fun q hq => ?_
  rw [hq]
  refine Sat.andThen_mustCall (sat_any _) fun _ _ => ?_
  split
  · refine Sat.andThen_mustCall (sat_any _) fun q _ => MustCall.andThen ?_
    unfold runKobs
    dsimp only
    split
    · exact .inl rfl
    · trivial
  · rename_i hboot
    have hubi : p.eFileType = .ftUBI := hext.resolve_right hboot
    rw [if_pos hubi]
    exact Sat.andThen_mustCall (sat_any _) fun q _ => MustCall.andThen (.inl rfl)

/-- Copying and summing the images in place keeps their names. -/
theorem checkFiles_resumed (hstay : g.szTmpDir = none) (parts : List MtdPartition) :
    (checkFiles g parts).Sat Copying AnyReason (List.Forall₂ Resumed parts) := by
  refine (checkFiles_copies g parts).mono (fun _ h => h) (fun _ h => h) fun qs hqs => ?_
  refine hqs.imp fun p q hq => ?_
  obtain ⟨x, hq, hname, -⟩ := hq
  rw [hq]
  refine ⟨rfl, ?_⟩
  rw [flashedName, hstay] at hname
  exact hname

/-- Dealing with the mounts keeps the records. -/
theorem remountAll_resumed (szRootDev : RootDev) (parts : List MtdPartition) :
    (remountAll g szRootDev parts).Sat Plain Device (List.Forall₂ Resumed parts) := by
  have hone : ∀ szRootDev p, (mtdPartRemountAllReadOnly g szRootDev p).Sat Plain Device
      (fun r => Resumed p r.2) := by
    intro szRootDev p
    unfold mtdPartRemountAllReadOnly
    refine Sat.andThen (getRootDevice_sat szRootDev) fun szRootDev _ => ?_
    split
    · exact sat_ret ⟨rfl, rfl⟩
    · refine sat_sysOrFail_andThen rfl rfl fun _ _ _ => ?_
      refine Sat.andThen (remountLoop_sat szRootDev _ _) fun _ _ => ?_
      exact sat_sys_andThen rfl fun _ => sat_ret ⟨rfl, rfl⟩
  induction parts generalizing szRootDev with
  | nil => exact List.Forall₂.nil
  | cons p parts ih =>
    refine Sat.andThen (hone szRootDev p) fun r hr => ?_
    exact Sat.andThen (ih r.1) fun qs hqs => List.Forall₂.cons hr hqs

/-- Records that are ready stay so. -/
theorem ready_of_resumed {ls : List Listed} {ps qs : List MtdPartition}
    (hready : List.Forall₂ (Ready env opts files) ls ps) (hqs : List.Forall₂ Resumed ps qs) :
    List.Forall₂ (Ready env opts files) ls qs := by
  induction hready generalizing qs with
  | nil =>
    cases hqs
    exact .nil
  | cons hp _ ih =>
    cases hqs with
    | cons hq hqs => exact .cons (hp.of_settled hq.1 hq.2) (ih hqs)

/-- Flashing the records one after the other. -/
theorem updateParts_inv {ls : List Listed} {ps qs : List MtdPartition}
    (hg : ∀ l ∈ ls, Geometry env l.part) (hworks : Works env) (hprog : Programs env program)
    (herased : ∀ b, program flashErasedByte b = b) (hdry : g.cDryRun = false)
    (hfuel : ∀ l ∈ ls, pageCount env l.part < g.fuel)
    (hready : List.Forall₂ (Ready env opts files) ls ps) (hfiles : w.files = files)
    (hraw : Makes (system env) Internal (Prog.mapList (updatePart g) ps) w)
    (hrun : Ends (system env) (Prog.mapList (updatePart g) ps) w (.ret qs) w') :
    w'.mem = updated env opts files ls w.mem ∧ w'.files = files := by
  induction hready generalizing w w' qs with
  | nil =>
    rw [hrun.ret_inv.2]
    exact ⟨rfl, hfiles⟩
  | @cons l p ls ps hp _ ih =>
    obtain ⟨q, w₁, hone, hrun⟩ := Ends.split hrun
    obtain ⟨rs, w₂, hrest, hrun⟩ := Ends.split hrun
    obtain ⟨hfirst, hlater⟩ := hone.makes_andThen.mp hraw
    have hother := (hrest.makes_andThen.mp hlater).1
    have hinternal : ¬FlashedExternally p := by
      intro hext
      obtain ⟨o, ho, hkind⟩ := (updatePart_external hext).exec (system env) w hone.1
      exact hfirst o ho hkind
    obtain ⟨hmem₁, hfiles₁⟩ := updatePart_inv (hg l (List.mem_cons_self ..)) hp hfiles hworks hprog
      herased hdry (hfuel l (List.mem_cons_self ..)) hinternal hone
    obtain ⟨hmem₂, hfiles₂⟩ := ih (fun d hd => hg d (List.mem_cons_of_mem _ hd))
      (fun d hd => hfuel d (List.mem_cons_of_mem _ hd)) hfiles₁ hother hrest
    rw [hrun.ret_inv.2, hmem₂, hmem₁, updated_cons]
    exact ⟨rfl, hfiles₂⟩

end Lists

section Run

variable {env : Env} {opts : Options} {program : UInt8 → UInt8 → UInt8} {args : List Bytes}
  {fuel : ℕ} {w w' : World}

/-- The options of an update that changes flash and takes the images from where
they are. -/
structure Updates (opts : Options) : Prop where
  /-- Not only checksums. -/
  sums : opts.cChecksumOnly = false
  /-- Not only a comparison. -/
  verify : opts.cVerifyOnly = false
  /-- Not a dry run. -/
  wet : opts.cDryRun = false
  /-- No temporary directory. -/
  stay : opts.szTmpDir = none

/-- Where clean markers are written, the memory is NAND, which has another
place for them than the pages. -/
def MarksOutside (env : Env) (opts : Options) (ls : List Listed) : Prop :=
  ∀ l ∈ ls, opts.cWriteCleanMarker = true ∨ namesJFFS2 opts.cNoImageTypeCheck l.file = true →
    (env.info l.part).type = .nandFlash

/-- The records that a run has made of its arguments. -/
theorem named_ready {g : Globals} {w₁ w₂ : World} {parts : List MtdPartition}
    (hopts : Updates opts) (hstill : Still env)
    (hg : ∀ l ∈ listed opts.cHasChecksum args, Geometry env l.part)
    (hmarks : MarksOutside env opts (listed opts.cHasChecksum args))
    (hprepare : Ends (system env) (prepare opts fuel) w (.ret g) w₁)
    (hname : Ends (system env) (nameParts g maxMtdParts args) w₁ (.ret parts) w₂) :
    w₂.mem = w.mem ∧ w₂.files = w.files ∧
      List.Forall₂ (Ready env opts w.files) (listed opts.cHasChecksum args) parts := by
  have hprepared := prepare_sat opts fuel
  have hnamed := nameParts_sat g maxMtdParts args
  obtain ⟨-, cEraseAll, cWriteCleanMarker, hsame⟩ := hprepare.result hprepared
  have hsums : g.cChecksumOnly = false := by rw [hsame, ← hopts.sums]
  have hset : g.cHasChecksum = opts.cHasChecksum := by rw [hsame]
  have honly : g.cVerifyOnly = false := by rw [hsame, ← hopts.verify]
  have hcheck : g.cNoImageTypeCheck = opts.cNoImageTypeCheck := by rw [hsame]
  obtain ⟨herases, hasked⟩ := prepare_erases g hprepare
  have hfiles₁ : w₁.files = w.files := files_kept hstill hprepare hprepared
  have hfiles₂ : w₂.files = w₁.files := files_kept hstill hname hnamed
  have hmem₁ := (flash_kept hprepare (sat_file hprepared)).1
  have hmem₂ := (flash_kept hname (sat_file hnamed)).1
  refine ⟨hmem₂.trans hmem₁, hfiles₂.trans hfiles₁, ?_⟩
  have hbegins := nameParts_inv (hset ▸ hg) hsums hname
  have hflags := hname.result (nameParts_flagged g hsums maxMtdParts args)
  rw [hset] at hbegins
  have hboth := List.forall₂_iff_get.mp hbegins
  refine List.forall₂_iff_get.mpr ⟨hboth.1, fun i hl hp => ?_⟩
  obtain ⟨hb, hlength⟩ := hboth.2 i hl hp
  have hf := hflags _ (List.get_mem parts ⟨i, hp⟩)
  have hjffs2 : (parts.get ⟨i, hp⟩).cIsJFFS2 =
      namesJFFS2 opts.cNoImageTypeCheck ((listed opts.cHasChecksum args).get ⟨i, hl⟩).file := by
    rw [hb.jffs2, hcheck]
  refine ⟨hb.describes, hb.part, hb.size, hb.image, hb.original, ?_, hb.fits, hjffs2, ?_, ?_⟩
  · rw [← hfiles₁]
    exact hlength (hstill.sized _)
  · rw [hf.all, herases, honly, Bool.not_false, Bool.true_and, hjffs2]
    rfl
  · intro hmark
    rw [hb.describes.nand, hb.part]
    refine decide_eq_true (hmarks _ (List.get_mem _ ⟨i, hl⟩) ?_)
    exact (hf.marker hmark).imp hasked fun h => hjffs2 ▸ h

/-- A run that updates and gets to its end has changed flash as it should be,
and nothing else. -/
theorem main_updates (hopts : Updates opts) (hworks : Works env) (hprog : Programs env program)
    (herased : ∀ b, program flashErasedByte b = b)
    (hg : ∀ l ∈ listed opts.cHasChecksum args, Geometry env l.part)
    (hmarks : MarksOutside env opts (listed opts.cHasChecksum args))
    (hfuel : ∀ l ∈ listed opts.cHasChecksum args, pageCount env l.part < fuel)
    (hraw : Makes (system env) Internal (main opts args fuel) w)
    (hrun : Ends (system env) (main opts args fuel) w (.ret ()) w') :
    w'.mem = updated env opts w.files (listed opts.cHasChecksum args) w.mem ∧
      w'.files = w.files := by
  have hstill : Still env := hworks.interfere
  obtain ⟨g, w₁, hprepare, hrun⟩ := Ends.split hrun
  obtain ⟨parts, w₂, hname, hrun⟩ := Ends.split hrun
  obtain ⟨_, w₃, hcommand, hfinish⟩ := Ends.split hrun
  have hraw₁ := (hprepare.makes_andThen.mp hraw).2
  have hraw₂ := (hname.makes_andThen.mp hraw₁).2
  have hraw₃ := (hcommand.makes_andThen.mp hraw₂).1
  obtain ⟨hmem₂, hfiles₂, hready⟩ := named_ready hopts hstill hg hmarks hprepare hname
  obtain ⟨hfuel', cEraseAll, cWriteCleanMarker, hsame⟩ := hprepare.result (prepare_sat opts fuel)
  have hsums : g.cChecksumOnly = false := by rw [hsame, ← hopts.sums]
  have honly : g.cVerifyOnly = false := by rw [hsame, ← hopts.verify]
  have hdry : g.cDryRun = false := by rw [hsame, ← hopts.wet]
  have hstay : g.szTmpDir = none := by rw [hsame, ← hopts.stay]
  have hupdate : runCommand g parts = doMtdUpdate g parts := by
    rw [runCommand, hsums, if_neg Bool.false_ne_true, honly, if_neg Bool.false_ne_true]
  have hend : w'.mem = w₃.mem ∧ w'.files = w₃.files := by
    unfold finish at hfinish
    split at hfinish
    · rw [hfinish.perform_inv.2]
      exact ⟨rfl, hstill _ _⟩
    · rw [hfinish.pure_inv.2]
      exact ⟨rfl, rfl⟩
  rw [hupdate] at hcommand hraw₃
  obtain ⟨qs, v₁, hcheck, hcommand⟩ := Ends.split hcommand
  obtain ⟨rs, v₂, hrelease, hcommand⟩ := Ends.split hcommand
  obtain ⟨ps, v₃, hflash, hunlink⟩ := Ends.split hcommand
  have hraw₄ := (hcheck.makes_andThen.mp hraw₃).2
  have hraw₅ := (hrelease.makes_andThen.mp hraw₄).2
  have hraw₆ := (hflash.makes_andThen.mp hraw₅).1
  have hready₁ := ready_of_resumed hready (hcheck.result (checkFiles_resumed hstay parts))
  have hready₂ := ready_of_resumed hready₁ (hrelease.result (remountAll_resumed noRootDev qs))
  have hsat := remountAll_sat g noRootDev qs
  have hchecked : v₁.mem = w₂.mem ∧ v₁.files = w₂.files := by
    have hquiet : (checkFiles g parts).Sat Quiet AnyReason AnyResult := by
      unfold checkFiles
      rw [hstay]
      dsimp only
      split
      · exact sat_forget (Sat.mapList fun p _ => mtdPartVerifyFile_sat g p)
      · trivial
    exact ⟨(flash_kept hcheck (sat_file hquiet)).1, files_kept hstill hcheck hquiet⟩
  have hreleased : v₂.mem = v₁.mem ∧ v₂.files = v₁.files :=
    ⟨(flash_kept hrelease (sat_file (sat_quiet hsat))).1,
      files_kept hstill hrelease (sat_quiet hsat)⟩
  have hlast : w₃ = v₃ := by
    unfold unlinkTmpFiles at hunlink
    rw [hstay, Option.isSome_none, if_neg Bool.false_ne_true] at hunlink
    exact hunlink.pure_inv.2
  obtain ⟨hmem, hfiles⟩ := updateParts_inv hg hworks hprog herased hdry
    (fun l hl => hfuel'.symm ▸ hfuel l hl) hready₂
    (hreleased.2.trans (hchecked.2.trans hfiles₂)) hraw₆ hflash
  rw [hend.1, hend.2, hlast, hmem, hreleased.1, hchecked.1, hmem₂]
  exact ⟨rfl, hfiles⟩

/-- All memory of the small system is NAND. -/
theorem smallEnv_marks (opts : Options) (ls : List Listed) : MarksOutside smallEnv opts ls :=
  fun _ _ _ => rfl

/-- It has few pages. -/
theorem smallEnv_pages (part : ℕ) : pageCount smallEnv part < 20 := (by decide : 64 / 4 < 20)

set_option maxRecDepth 16000 in
/-- Updating the small system runs no external flasher. -/
theorem smallUpdate_internal :
    Makes (system smallEnv) Internal (main {} [text "uImage-x", text "0"] 20) smallErased := by
  have hall : (exec (system smallEnv) everyCall (main {} [text "uImage-x", text "0"] 20)
      smallErased).calls.all (fun o => callKind o != .external) = true := rfl
  exact fun o ho => bne_iff_ne.mp (List.all_eq_true.mp hall o ho)

end Run

section Results

variable (env : Env) (opts : Options) (files : Files)

/-- A record that has what an element of the list needs. -/
def recordFor (l : Listed) : MtdPartition :=
  { cleared with
    uiPartition := l.part
    xInfo := env.info l.part
    cIsNAND := decide ((env.info l.part).type = .nandFlash)
    iPageSize := pageSize env l.part
    cIsJFFS2 := namesJFFS2 opts.cNoImageTypeCheck l.file }

/-- The record describes its partition. -/
theorem recordFor_describes (l : Listed) : Describes env (recordFor env opts l) := ⟨rfl, rfl, rfl⟩

variable {env opts files}

/-- The pages of an image lie in the blocks that are needed. -/
theorem page_in_blocksFor {l : Listed} (hg : Geometry env l.part) {page : ℕ × Bytes}
    (hpage : page ∈ pagesFor env opts files l) :
    ∃ o ∈ blocksFor env opts files l,
      o ≤ page.1 ∧ page.1 + page.2.length ≤ o + (env.info l.part).erasesize :=
  @page_in_neededBlock (recordFor env opts l) env hg (recordFor_describes env opts l) _ _ _ hpage

/-- Nothing changes outside of the blocks that are needed. -/
theorem flashed_outside {l : Listed} (hg : Geometry env l.part) {cells : ℕ → UInt8} {a : ℕ}
    (ha : ∀ o ∈ blocksFor env opts files l, a < o ∨ o + (env.info l.part).erasesize ≤ a) :
    flashed env opts files l cells a = cells a := by
  unfold flashed
  rw [putAll_outside, putAll_outside]
  · intro piece hpiece
    obtain ⟨o, ho, rfl⟩ := List.mem_map.mp hpiece
    rw [List.length_replicate]
    exact ha o ho
  · intro page hpage
    obtain ⟨o, ho, hlo, hhi⟩ := page_in_blocksFor hg hpage
    rcases ha o ho with h | h
    · exact .inl (by omega)
    · exact .inr (by omega)

/-- Inside of these blocks nothing depends on what was there. -/
theorem flashed_congr {l : Listed} {cells cells' : ℕ → UInt8} {a : ℕ}
    (h : (∀ o ∈ blocksFor env opts files l, a < o ∨ o + (env.info l.part).erasesize ≤ a) →
      cells a = cells' a) :
    flashed env opts files l cells a = flashed env opts files l cells' a := by
  unfold flashed
  refine putAll_congr ?_ _
  by_cases hin : ∃ o ∈ blocksFor env opts files l, o ≤ a ∧ a < o + (env.info l.part).erasesize
  · rw [putAll_replicate _ (.inr hin), putAll_replicate _ (.inr hin)]
  · have hout : ∀ o ∈ blocksFor env opts files l,
        a < o ∨ o + (env.info l.part).erasesize ≤ a := by
      intro o ho
      by_cases hlt : a < o
      · exact .inl hlt
      · exact .inr (Nat.le_of_not_lt fun h => hin ⟨o, ho, Nat.le_of_not_lt hlt, h⟩)
    exact putAll_congr (h hout) _

/-- A cell that is not needed for a list is not needed for its elements. -/
theorem not_needed {ls : List Listed} {part a : ℕ} (h : ¬Needed env opts files ls part a)
    {l : Listed} (hl : l ∈ ls) (hpart : l.part = part) :
    ∀ o ∈ blocksFor env opts files l, a < o ∨ o + (env.info l.part).erasesize ≤ a := by
  intro o ho
  by_cases hlt : a < o
  · exact .inl hlt
  · refine .inr (Nat.le_of_not_lt fun hin => h ⟨l, hl, hpart, o, ho, Nat.le_of_not_lt hlt, ?_⟩)
    rw [← hpart]
    exact hin

/-- What the list does not need its tail does not need. -/
theorem not_needed_tail {l : Listed} {ls : List Listed} {part a : ℕ}
    (h : ¬Needed env opts files (l :: ls) part a) : ¬Needed env opts files ls part a := by
  rintro ⟨d, hd, hrest⟩
  exact h ⟨d, List.mem_cons_of_mem _ hd, hrest⟩

/-- Cells that are not needed stay as they are. -/
theorem updated_outside {ls : List Listed} (hg : ∀ l ∈ ls, Geometry env l.part) {mem : FlashMem}
    {part a : ℕ} (ha : ¬Needed env opts files ls part a) :
    updated env opts files ls mem part a = mem part a := by
  induction ls generalizing mem with
  | nil => rfl
  | cons l ls ih =>
    rw [updated_cons, ih (fun d hd => hg d (List.mem_cons_of_mem _ hd)) (not_needed_tail ha)]
    unfold setPart
    split
    · rename_i hpart
      rw [hpart]
      exact flashed_outside (hg l (List.mem_cons_self ..))
        (not_needed ha (List.mem_cons_self ..) hpart.symm)
    · rfl

/-- Two states of flash that differ in needed cells only are updated to the
same state. -/
theorem updated_congr {ls : List Listed} {mem mem' : FlashMem}
    (h : ∀ part a, ¬Needed env opts files ls part a → mem part a = mem' part a) :
    updated env opts files ls mem = updated env opts files ls mem' := by
  induction ls generalizing mem mem' with
  | nil =>
    funext part a
    exact h part a fun hneeded => by
      obtain ⟨l, hl, -⟩ := hneeded
      exact List.not_mem_nil hl
  | cons l ls ih =>
    rw [updated_cons, updated_cons]
    refine ih fun part a ha => ?_
    unfold setPart
    split
    · rename_i hpart
      refine flashed_congr fun hout => h l.part a ?_
      rintro ⟨d, hd, hsame, o, ho, hlo, hhi⟩
      rcases List.mem_cons.mp hd with rfl | hd
      · rcases hout o ho with hlt | hle
        · omega
        · omega
      · exact ha ⟨d, hd, hsame.trans hpart.symm, o, ho, hlo, hpart ▸ hhi⟩
    · rename_i hpart
      refine h part a ?_
      rintro ⟨d, hd, hsame, hrest⟩
      rcases List.mem_cons.mp hd with rfl | hd
      · exact hpart hsame.symm
      · exact ha ⟨d, hd, hsame, hrest⟩

/-- Updating again changes nothing. -/
theorem updated_again {ls : List Listed} (hg : ∀ l ∈ ls, Geometry env l.part) (mem : FlashMem) :
    updated env opts files ls (updated env opts files ls mem) = updated env opts files ls mem :=
  updated_congr fun _ _ ha => updated_outside hg ha

/-- A partition holds the image that has been laid over it. -/
theorem flashed_holds {l : Listed} (hg : Geometry env l.part)
    (hfits : (contents files l.file).length ≤ goodBytes env l.part) {mem : FlashMem}
    {cells : ℕ → UInt8} (hcells : mem l.part = flashed env opts files l cells) :
    Holds env l.part (namesJFFS2 opts.cNoImageTypeCheck l.file) (contents files l.file) mem := by
  have hd := recordFor_describes env opts l
  have hgq : Geometry env (recordFor env opts l).uiPartition := hg
  refine ⟨image_take_written (recordFor env opts l) hgq hd hcells hfits, ?_⟩
  obtain ⟨tail, htail, htake⟩ := image_written (recordFor env opts l) hgq hd hcells hfits
  cases hjffs2 : namesJFFS2 opts.cNoImageTypeCheck l.file with
  | true => exact .inl rfl
  | false =>
    refine .inr fun b hb => ?_
    have hpages : (image env l.part mem).take (((contents files l.file).length +
        pageSize env l.part - 1) / pageSize env l.part * pageSize env l.part) =
          contents files l.file ++ tail := htake
    rw [hpages, List.drop_left] at hb
    rcases htail with hnil | ⟨bytes, hfill⟩
    · rw [hnil] at hb
      exact absurd hb List.not_mem_nil
    · have hplain : (recordFor env opts l).cIsJFFS2 = false := hjffs2
      rw [hplain, fillPage_plain] at hfill
      rw [← List.append_cancel_left hfill] at hb
      exact List.eq_of_mem_replicate hb

/-- Every partition of a list without repetitions holds its image. -/
theorem updated_holds {ls : List Listed} (hg : ∀ l ∈ ls, Geometry env l.part)
    (hfits : ∀ l ∈ ls, (contents files l.file).length ≤ goodBytes env l.part)
    (hdistinct : (ls.map Listed.part).Nodup) (mem : FlashMem) :
    ∀ l ∈ ls, Holds env l.part (namesJFFS2 opts.cNoImageTypeCheck l.file)
      (contents files l.file) (updated env opts files ls mem) := by
  have hother : ∀ (ls : List Listed) (mem : FlashMem) (part : ℕ),
      part ∉ ls.map Listed.part → updated env opts files ls mem part = mem part := by
    intro ls
    induction ls with
    | nil => exact fun _ _ _ => rfl
    | cons l ls ih =>
      intro mem part hpart
      rw [List.map_cons, List.mem_cons, not_or] at hpart
      rw [updated_cons, ih _ part hpart.2, setPart, if_neg hpart.1]
  induction ls generalizing mem with
  | nil => exact fun l hl => absurd hl List.not_mem_nil
  | cons l ls ih =>
    rw [List.map_cons, List.nodup_cons] at hdistinct
    intro d hd
    rw [updated_cons]
    rcases List.mem_cons.mp hd with rfl | hd
    · have hflashed := hother ls (setPart mem d.part (flashed env opts files d (mem d.part))) d.part
        hdistinct.1
      rw [setPart_same] at hflashed
      exact flashed_holds (hg d (List.mem_cons_self ..)) (hfits d (List.mem_cons_self ..)) hflashed
    · exact ih (fun x hx => hg x (List.mem_cons_of_mem _ hx))
        (fun x hx => hfits x (List.mem_cons_of_mem _ hx)) hdistinct.2 _ d hd

end Results

end MetaDigi.FlashOutcomes
