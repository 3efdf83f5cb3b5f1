import MetaDigi.FlashEffects
import MetaDigi.FlashErasing

/-!
# The records of the partitions

What `MtdPartInit` has found out when it returns: the record describes the
partition, its size is that of the good blocks, and the image that has been
named fits. The records of a run begin with what the arguments list. Nothing
else has changed.
-/

namespace MetaDigi.FlashRecords

open CStrings TextScan SystemProgram SystemRuns FlashTypes FlashInit FlashTransfer FlashMain
open FlashWorld FlashEffects BlockLayout FlashDevice FlashErasing

/-- Nobody else changes the files. -/
def Still (env : Env) : Prop := ∀ t files, env.interfere t files = files

/-- The other processes do not change the length of a file. -/
def Sized (env : Env) (path : Path) : Prop :=
  ∀ t files, (env.interfere t files path).map List.length = (files path).map List.length

theorem Still.sized {env : Env} (h : Still env) (path : Path) : Sized env path := fun t files => by
  rw [h]

section Kept

variable {env : Env} {α : Type} {p : Flash α} {w w' : World} {o : Outcome ExitReason α}
  {X : ExitReason → Prop} {R : α → Prop}

/-- A call for a file leaves flash alone. -/
theorem respond_filing (env : Env) (failed : Bool) {o : Op} (w : World) (ho : Filing o) :
    (respond env failed o w).2.mem = w.mem ∧ (respond env failed o w).2.log = w.log := by
  cases o <;> first
    | exact absurd ho (fun h =>
        h.elim (fun h => h.elim CallKind.noConfusion CallKind.noConfusion) CallKind.noConfusion)
    | exact ⟨rfl, rfl⟩
    | (dsimp only [respond]
       repeat' split
       all_goals exact ⟨rfl, rfl⟩)

/-- A program that works on files leaves flash alone. -/
theorem flash_kept (hrun : Ends (system env) p w o w') (hp : p.Sat Filing X R) :
    w'.mem = w.mem ∧ w'.log = w.log :=
  hrun.keeps (I := fun v => v.mem = w.mem ∧ v.log = w.log) hp
    (fun q t hq ht => by
      obtain ⟨hmem, hlog⟩ := respond_filing env (env.fails t.time q) (t.enter env) hq
      exact ⟨hmem.trans ht.1, hlog.trans ht.2⟩) ⟨rfl, rfl⟩

/-- A quiet call leaves the files alone. -/
theorem respond_quiet (env : Env) (failed : Bool) {o : Op} (w : World) (ho : Quiet o) :
    (respond env failed o w).2.files = w.files := by
  cases o <;> first
    | exact absurd ho (fun h => h.elim CallKind.noConfusion CallKind.noConfusion)
    | rfl
    | (dsimp only [respond]
       repeat' split
       all_goals rfl)

/-- A quiet program leaves the files alone when nobody else changes them. -/
theorem files_kept (hstill : Still env)
    (hrun : Ends (system env) p w o w') (hp : p.Sat Quiet X R) : w'.files = w.files :=
  hrun.keeps (I := fun v => v.files = w.files) hp
    (fun q t hq ht => by
      have hkept := respond_quiet env (env.fails t.time q) (t.enter env) hq
      have henter : (t.enter env).files = t.files := hstill _ _
      exact hkept.trans (henter.trans ht)) rfl

/-- A quiet program leaves the length of a file alone. -/
theorem length_kept {path : Path} (hsized : Sized env path) (hrun : Ends (system env) p w o w')
    (hp : p.Sat Quiet X R) : (w'.files path).map List.length = (w.files path).map List.length :=
  hrun.keeps (I := fun v => (v.files path).map List.length = (w.files path).map List.length) hp
    (fun q t hq ht => by
      have hkept := respond_quiet env (env.fails t.time q) (t.enter env) hq
      have henter : ((t.enter env).files path).map List.length =
          (t.files path).map List.length := hsized _ _
      exact (congrArg (fun f : Files => (f path).map List.length) hkept).trans
        (henter.trans ht)) rfl

end Kept

section Init

variable {env : Env} {g : Globals} {w w' : World}

/-- The driver tells about a partition. -/
theorem memGetInfo_inv {inside : Func} {part : ℕ} {xInfo : MtdInfo}
    (hrun : Ends (system env) (sysOrFail inside (.memGetInfo part) id) w (.ret xInfo) w') :
    xInfo = env.info part := by
  obtain ⟨hanswer, -⟩ := sysOrFail_inv hrun
  dsimp only [system, respond, id] at hanswer
  split at hanswer
  · exact absurd hanswer nofun
  · exact (Option.some.inj hanswer).symm

/-- Only NAND has bad blocks. -/
theorem goodUnits_all {bad : ℕ → Bool} (hgood : ∀ o, bad o = false) (unit first count : ℕ) :
    (goodUnits bad unit first count).length = count := by
  induction count generalizing first with
  | zero => rfl
  | succ count ih =>
    rw [goodUnits_good _ _ (hgood _), List.length_cons, ih]

variable {pMtd : MtdPartition}

/-- The blocks that are not counted as bad are the good ones. -/
theorem countBadBlocks_inv {uiBadBlocks : ℕ}
    (hrun : Ends (system env) (countBadBlocks g pMtd) w (.ret uiBadBlocks) w')
    (hg : Geometry env pMtd.uiPartition) (hinfo : pMtd.xInfo = env.info pMtd.uiPartition)
    (hnand : pMtd.cIsNAND = decide ((env.info pMtd.uiPartition).type = .nandFlash)) :
    uiBadBlocks + (goodBlocks env pMtd.uiPartition).length = blockCount env pMtd.uiPartition := by
  unfold countBadBlocks at hrun
  split at hrun
  · refine Ends.loop_invariant (I := fun st _ => ∃ i ≤ blockCount env pMtd.uiPartition,
        st.1 = i * pMtd.xInfo.erasesize ∧ st.2 + (goodUnits (env.badAt pMtd.uiPartition)
          (env.info pMtd.uiPartition).erasesize 0 i).length = i)
      (Q := fun n _ => n + (goodBlocks env pMtd.uiPartition).length =
        blockCount env pMtd.uiPartition) ?_
      ⟨0, Nat.zero_le _, (Nat.zero_mul _).symm, rfl⟩ hrun
    rintro ⟨iOffset, uiBadBlocks⟩ v ⟨i, hi, hoffset, hcount⟩ step v' hpass
    dsimp only at hoffset hcount
    have hsize : pMtd.xInfo.size = blockCount env pMtd.uiPartition * pMtd.xInfo.erasesize := by
      rw [hinfo, hg.blocks_mul]
    dsimp only [countBadBlocksPass] at hpass
    split at hpass
    · rename_i hinside
      obtain ⟨bad, v₁, hask, hrest⟩ := Ends.split hpass
      obtain ⟨hbad, -⟩ := mtdPartIsBadBlock_inv hask
      obtain ⟨hstep, -⟩ := hrest.pure_inv
      rw [hoffset, hsize] at hinside
      have hlt := Nat.lt_of_mul_lt_mul_right hinside
      rw [hstep]
      refine ⟨i + 1, hlt, ?_, ?_⟩
      · dsimp only
        rw [hoffset, Nat.succ_mul]
      · dsimp only
        rw [hoffset, hinfo] at hbad
        rw [goodUnits_add, List.length_append, Nat.zero_add, goodUnits, goodUnits, ← hbad]
        cases bad with
        | true =>
          simp only [if_true, List.length_nil]
          omega
        | false =>
          simp only [Bool.false_eq_true, if_false, List.length_cons, List.length_nil]
          omega
    · rename_i hend
      obtain ⟨hstep, -⟩ := hpass.pure_inv
      have hlast : i = blockCount env pMtd.uiPartition := by
        rcases Nat.lt_or_ge i (blockCount env pMtd.uiPartition) with hlt | hge
        · rw [hoffset, hsize] at hend
          have hpos : 0 < pMtd.xInfo.erasesize := by
            rw [hinfo]
            exact hg.erase_pos
          exact absurd (Nat.mul_lt_mul_of_pos_right hlt hpos) hend
        · omega
      rw [hstep, goodBlocks]
      rw [hlast] at hcount
      exact hcount
  · rename_i hnor
    obtain ⟨hzero, -⟩ := hrun.pure_inv
    have hgood : ∀ o, env.badAt pMtd.uiPartition o = false := by
      intro o
      rw [hnand, decide_eq_true_eq] at hnor
      exact decide_eq_false fun h => hnor h.1
    rw [hzero, Nat.zero_add, goodBlocks, goodUnits_all hgood]

/-- A record once the driver has been asked. -/
def described (env : Env) (g : Globals) (pMtd : MtdPartition) (uiBadBlocks : ℕ)
    (ePartType : PartType) (eFileTypeNeeded : FileType) : MtdPartition :=
  { pMtd with
    xInfo := env.info pMtd.uiPartition
    iSize := goodBytes env pMtd.uiPartition
    cIsNAND := (env.info pMtd.uiPartition).type = .nandFlash
    uiBadBlocks := uiBadBlocks
    cEraseAll := g.cEraseAll
    cWriteCleanMarker := g.cWriteCleanMarker
    iPageSize := pageSize env pMtd.uiPartition
    ePartType := ePartType
    eFileTypeNeeded := eFileTypeNeeded }

/-- The size of the good blocks, as it is calculated in 32 bits. -/
theorem goodBytes_eq {uiBadBlocks : ℕ} (hg : Geometry env pMtd.uiPartition)
    (hcount : uiBadBlocks + (goodBlocks env pMtd.uiPartition).length =
      blockCount env pMtd.uiPartition) :
    ((env.info pMtd.uiPartition).size : ℤ) -
      ((env.info pMtd.uiPartition).erasesize * uiBadBlocks % 2 ^ 32 : ℕ) =
        goodBytes env pMtd.uiPartition := by
  have hgood := length_goodBlocks env pMtd.uiPartition
  have hblocks := hg.blocks_mul
  rw [← hcount, Nat.add_mul, hgood, Nat.mul_comm uiBadBlocks] at hblocks
  have hlt := (env.info pMtd.uiPartition).size_lt
  rw [Nat.mod_eq_of_lt (by omega)]
  omega

/-- The first part of `MtdPartInit` describes the partition. -/
theorem mtdPartReadInfo_inv {q : MtdPartition} (hg : Geometry env pMtd.uiPartition)
    (hrun : Ends (system env) (mtdPartReadInfo g pMtd) w (.ret q) w') :
    ∃ uiBadBlocks ePartType eFileTypeNeeded,
      q = described env g pMtd uiBadBlocks ePartType eFileTypeNeeded := by
  obtain ⟨xInfo, w₁, hinfo, hrun⟩ := Ends.split hrun
  obtain ⟨uiBadBlocks, w₂, hbad, hrun⟩ := Ends.split hrun
  obtain ⟨p₁, w₃, htype, hrun⟩ := Ends.split hrun
  have hxInfo := memGetInfo_inv hinfo
  rw [hxInfo] at hbad htype hrun
  have hcount := countBadBlocks_inv hbad hg rfl rfl
  obtain ⟨ePartType, eFileTypeNeeded, hp₁⟩ := htype.result (mtdPartDeterminePartType_sat _)
  obtain ⟨hq, -⟩ := hrun.pure_inv
  refine ⟨uiBadBlocks, ePartType, eFileTypeNeeded, ?_⟩
  rw [hp₁] at hq
  dsimp only at hq
  rw [goodBytes_eq hg hcount] at hq
  rw [hq]
  unfold described pageSize
  simp only [decide_eq_true_eq]

/-- Whether an image is taken for JFFS2. -/
def namesJFFS2 (cNoImageTypeCheck : Bool) (szImageFileName : Path) : Bool :=
  !cNoImageTypeCheck && fileTypeOfName szImageFileName = some .ftJFFS2

/-- An image that has been named fits into an open partition. -/
theorem mtdPartUseFile_inv {szImageFileName : Path} {q : MtdPartition} (hopen : pMtd.isOpen = true)
    (hplain : pMtd.cIsJFFS2 = false)
    (hrun : Ends (system env) (mtdPartUseFile g pMtd szImageFileName) w (.ret q) w') :
    ∃ iFileSize eFileType,
      q = { pMtd with
        szOrigImageFileName := szImageFileName
        szImageFileName := szImageFileName
        iFileSize := iFileSize
        eFileType := eFileType
        cIsJFFS2 := namesJFFS2 g.cNoImageTypeCheck szImageFileName } ∧
      (iFileSize : ℤ) ≤ pMtd.iSize ∧
      ((w.enter env).files szImageFileName).map List.length = some iFileSize := by
  obtain ⟨st_size, w₁, hstat, hrun⟩ := Ends.split hrun
  obtain ⟨hanswer, -⟩ := sysOrFail_inv hstat
  have hlength : ((w.enter env).files szImageFileName).map List.length = some st_size := by
    dsimp only [system, respond, id] at hanswer
    split at hanswer
    · exact absurd hanswer nofun
    · exact hanswer
  dsimp only at hrun
  rw [if_pos hopen] at hrun
  split at hrun
  · exact hrun.exit_inv.elim
  · rename_i hfits
    refine ⟨st_size, ?_⟩
    have hle : (st_size : ℤ) ≤ pMtd.iSize := Int.not_lt.mp hfits
    unfold namesJFFS2
    cases hcheck : g.cNoImageTypeCheck with
    | true =>
      rw [hcheck, if_pos rfl] at hrun
      obtain ⟨hq, -⟩ := hrun.pure_inv
      rw [Bool.not_true, Bool.false_and, ← hplain]
      exact ⟨_, hq, hle, hlength⟩
    | false =>
      rw [hcheck, if_neg Bool.false_ne_true] at hrun
      unfold mtdPartDetermineAndCheckFileType at hrun
      dsimp only at hrun
      rw [Bool.not_false, Bool.true_and]
      cases htype : fileTypeOfName szImageFileName with
      | none =>
        rw [htype] at hrun
        obtain ⟨hq, -⟩ := hrun.pure_inv
        rw [decide_eq_false nofun, ← hplain]
        exact ⟨_, hq, hle, hlength⟩
      | some eType =>
        rw [htype] at hrun
        dsimp only at hrun
        split at hrun
        · exact hrun.exit_inv.elim
        · split at hrun
          · rename_i hjffs2
            obtain ⟨hq, -⟩ := hrun.pure_inv
            rw [decide_eq_true (congrArg some hjffs2)]
            exact ⟨_, hq, hle, hlength⟩
          · rename_i hother
            obtain ⟨hq, -⟩ := hrun.pure_inv
            rw [decide_eq_false fun h => hother (Option.some.inj h), ← hplain]
            exact ⟨_, hq, hle, hlength⟩

/-- A record as `MtdPartInit` leaves it. -/
structure Named (env : Env) (g : Globals) (name : Path) (p : MtdPartition) : Prop where
  /-- The record describes the partition. -/
  describes : Describes env p
  /-- The size is that of the good blocks. -/
  size : p.iSize = goodBytes env p.uiPartition
  /-- The file of the command line. -/
  original : p.szOrigImageFileName = name
  /-- This file is flashed. -/
  image : p.szImageFileName = name
  /-- The image fits. -/
  fits : p.iFileSize ≤ goodBytes env p.uiPartition
  /-- No handle is open. -/
  closed : p.isOpen = false
  /-- The image is JFFS2 when its name says so. -/
  jffs2 : p.cIsJFFS2 = namesJFFS2 g.cNoImageTypeCheck name
  /-- No checksum has been calculated. -/
  uncalculated : p.cChecksumCalculated = false

/-- A partition that has been initialised is described, and its image fits. -/
theorem mtdPartInit_inv {part : ℕ} {name : Path} {p : MtdPartition} (hg : Geometry env part)
    (hrun : Ends (system env) (mtdPartInit g part name) w (.ret p) w') :
    p.uiPartition = part ∧ Named env g name p ∧ p.cChecksumSet = false ∧
      (Sized env name → (w.files name).map List.length = some p.iFileSize) := by
  obtain ⟨p₁, w₁, hopen, hrun⟩ := Ends.split hrun
  obtain ⟨p₂, w₂, hinfo, hrun⟩ := Ends.split hrun
  obtain ⟨p₃, w₃, hmarker, hrun⟩ := Ends.split hrun
  obtain ⟨p₄, w₄, huse, hrun⟩ := Ends.split hrun
  obtain ⟨p₅, w₅, hclose, hrun⟩ := Ends.split hrun
  obtain ⟨hp₁, -⟩ := mtdPartOpen_inv hopen
  have hpart : p₁.uiPartition = part := by rw [hp₁]
  obtain ⟨uiBadBlocks, ePartType, eFileTypeNeeded, hp₂⟩ := mtdPartReadInfo_inv (hpart ▸ hg) hinfo
  have hsat : Prog.Sat Quiet Device (fun q => ∃ uiClMPos uiClMLen xCleanMarker, q = { p₂ with
      uiClMPos := uiClMPos, uiClMLen := uiClMLen, xCleanMarker := xCleanMarker })
      (sys .isNandOobAtomic >>= fun atomic =>
        if atomic then return p₂ else mtdPartInitCleanMarker p₂) :=
    sat_sys_andThen (.inl rfl) fun atomic => by
      split
      · exact ⟨_, _, _, rfl⟩
      · exact sat_quiet (mtdPartInitCleanMarker_sat p₂)
  obtain ⟨uiClMPos, uiClMLen, xCleanMarker, hp₃⟩ := hmarker.result hsat
  have hopen₃ : p₃.isOpen = true := by
    rw [hp₃, hp₂, hp₁]
    rfl
  have hplain₃ : p₃.cIsJFFS2 = false := by
    rw [hp₃, hp₂, hp₁]
    rfl
  obtain ⟨iFileSize, eFileType, hp₄, hfits, hlength⟩ := mtdPartUseFile_inv hopen₃ hplain₃ huse
  obtain ⟨hp₅, -⟩ := mtdPartClose_inv hclose
  obtain ⟨cEraseAll, cWriteCleanMarker, hp⟩ := Ends.result (P := Quiet) (X := Device)
    (R := fun q => ∃ cEraseAll cWriteCleanMarker, q = { p₅ with
      cEraseAll := cEraseAll, cWriteCleanMarker := cWriteCleanMarker }) hrun <| by
    split
    · refine sat_sys_andThen (.inl rfl) fun atomic => ?_
      split
      · exact ⟨_, _, rfl⟩
      · exact ⟨_, _, rfl⟩
    · exact ⟨_, _, rfl⟩
  subst hp₁ hp₂ hp₃ hp₄ hp₅ hp
  refine ⟨rfl, ⟨⟨rfl, rfl, rfl⟩, rfl, rfl, rfl, Int.ofNat_le.mp hfits, rfl, rfl, rfl⟩, rfl,
    fun hsized => ?_⟩
  have henter : ((w₃.enter env).files name).map List.length =
      (w₃.files name).map List.length := hsized _ _
  rw [henter, length_kept hsized hmarker hsat,
    length_kept hsized hinfo (sat_quiet (mtdPartReadInfo_sat g _)),
    length_kept hsized hopen (sat_quiet (mtdPartOpen_sat g _ false))] at hlength
  exact hlength

end Init

section List

/-- One element of the list in the arguments. -/
structure Listed where
  /-- The image. -/
  file : Path
  /-- The partition. -/
  part : ℕ
  /-- The checksum, when there has to be one. -/
  crc : Option Crc

/-- The number at the start of an argument. -/
def listedPart (number : Bytes) : ℕ := ((scanUnsigned 32 number).map Prod.fst).getD 0

/-- The checksum at the start of an argument. -/
def listedCrc (szCRC32 : Bytes) : Crc :=
  BitVec.ofNat 32 (((scanHex 32 szCRC32).map Prod.fst).getD 0)

/-- The list in the arguments behind the options, of pairs or, with checksums,
of triples. -/
def listed : Bool → List Bytes → List Listed
  | true, file :: number :: szCRC32 :: rest =>
    ⟨file, listedPart number, some (listedCrc szCRC32)⟩ :: listed true rest
  | false, file :: number :: rest => ⟨file, listedPart number, none⟩ :: listed false rest
  | _, _ => []

/-- A record begins with an element of the list. -/
structure Begins (env : Env) (g : Globals) (l : Listed) (p : MtdPartition) : Prop
    extends Named env g l.file p where
  /-- The record is for this partition. -/
  part : p.uiPartition = l.part
  /-- A checksum is set when the list has one. -/
  set : p.cChecksumSet = l.crc.isSome
  /-- The checksum is that of the list. -/
  crc : ∀ c, l.crc = some c → p.uiCRC32 = c

variable {env : Env} {g : Globals} {w w' : World}

/-- A file and its partition have been named. -/
theorem namePart_inv {file number : Bytes} {rest args : List Bytes} {p : MtdPartition}
    (hg : Geometry env (listedPart number)) (hparts : g.cChecksumOnly = false)
    (hrun : Ends (system env) (namePart g (file :: number :: rest)) w (.ret (p, args)) w') :
    args = rest ∧ Begins env g ⟨file, listedPart number, none⟩ p ∧
      (Sized env file → (w.files file).map List.length = some p.iFileSize) := by
  unfold namePart at hrun
  dsimp only at hrun
  rw [if_neg (by rw [hparts]; exact Bool.false_ne_true)] at hrun
  split at hrun
  · exact hrun.exit_inv.elim
  · rename_i uiPartition text hnumber
    have hpart : listedPart number = uiPartition := by
      rw [listedPart, hnumber]
      rfl
    split at hrun
    · exact hrun.exit_inv.elim
    · obtain ⟨q, w₁, hinit, hrun⟩ := Ends.split hrun
      obtain ⟨hresult, -⟩ := hrun.pure_inv
      obtain ⟨hp, hargs⟩ := Prod.mk.inj hresult
      obtain ⟨hq, hnamed, hunset, hlength⟩ := mtdPartInit_inv (hpart ▸ hg) hinit
      rw [hp, hargs]
      exact ⟨rfl, ⟨hnamed, hq.trans hpart.symm, hunset, nofun⟩, hlength⟩

/-- The checksum behind a file has been taken. -/
theorem nameChecksum_inv {szCRC32 : Bytes} {rest args : List Bytes} {file : Path} {part : ℕ}
    {p q : MtdPartition} (hset : g.cHasChecksum = true) (hp : Begins env g ⟨file, part, none⟩ p)
    (hrun : Ends (system env) (nameChecksum g p (szCRC32 :: rest)) w (.ret (q, args)) w') :
    args = rest ∧ Begins env g ⟨file, part, some (listedCrc szCRC32)⟩ q ∧
      q.iFileSize = p.iFileSize := by
  unfold nameChecksum at hrun
  rw [if_pos hset] at hrun
  dsimp only at hrun
  split at hrun
  · exact hrun.exit_inv.elim
  · rename_i uiCRC32 text hscan
    obtain ⟨hresult, -⟩ := hrun.pure_inv
    obtain ⟨hq, hargs⟩ := Prod.mk.inj hresult
    have hcrc : listedCrc szCRC32 = BitVec.ofNat 32 uiCRC32 := by
      rw [listedCrc, hscan]
      rfl
    rw [hq, hargs]
    exact ⟨rfl, ⟨⟨⟨hp.describes.info, hp.describes.nand, hp.describes.page⟩, hp.size, hp.original,
      hp.image, hp.fits, hp.closed, hp.jffs2, hp.uncalculated⟩, hp.part, rfl,
      fun c hc => hcrc.symm.trans (Option.some.inj hc)⟩, rfl⟩

/-- The records begin with the elements of the list. -/
theorem nameParts_inv {left : ℕ} {args : List Bytes} {parts : List MtdPartition}
    (hg : ∀ l ∈ listed g.cHasChecksum args, Geometry env l.part) (hparts : g.cChecksumOnly = false)
    (hrun : Ends (system env) (nameParts g left args) w (.ret parts) w') :
    List.Forall₂ (fun l p => Begins env g l p ∧ (Sized env l.file →
      (w.files l.file).map List.length = some p.iFileSize)) (listed g.cHasChecksum args) parts := by
  induction left generalizing args parts w w' with
  | zero =>
    cases args with
    | nil =>
      obtain ⟨hnil, -⟩ := hrun.pure_inv
      rw [hnil]
      cases g.cHasChecksum <;> exact .nil
    | cons file rest => exact hrun.exit_inv.elim
  | succ left ih =>
    cases args with
    | nil =>
      obtain ⟨hnil, -⟩ := hrun.pure_inv
      rw [hnil]
      cases g.cHasChecksum <;> exact .nil
    | cons file rest =>
      unfold nameParts at hrun
      split at hrun
      · exact hrun.exit_inv.elim
      · rename_i henough
        obtain ⟨⟨p, args₁⟩, w₁, hname, hrun⟩ := Ends.split hrun
        obtain ⟨⟨q, args₂⟩, w₂, hcrc, hrun⟩ := Ends.split hrun
        obtain ⟨qs, w₃, hrest, hrun⟩ := Ends.split hrun
        obtain ⟨hresult, -⟩ := hrun.pure_inv
        have hlater : ∀ l : Listed, Sized env l.file →
            (w₂.files l.file).map List.length = (w.files l.file).map List.length := fun l hsized => by
          rw [length_kept hsized hcrc (nameChecksum_sat g p args₁),
            length_kept hsized hname (namePart_sat g _)]
        have hstart : ∀ l p, (Begins env g l p ∧ (Sized env l.file →
              (w₂.files l.file).map List.length = some p.iFileSize)) →
            Begins env g l p ∧ (Sized env l.file →
              (w.files l.file).map List.length = some p.iFileSize) := fun l p h =>
          ⟨h.1, fun hsized => (hlater l hsized).symm.trans (h.2 hsized)⟩
        rw [hresult]
        cases rest with
        | nil =>
          refine absurd ?_ henough
          unfold argsPerPart
          rw [if_neg (by rw [hparts]; exact Bool.false_ne_true)]
          dsimp only [List.length_cons, List.length_nil]
          omega
        | cons number rest =>
          cases hset : g.cHasChecksum with
          | false =>
            rw [hset, listed] at hg
            rw [hset] at ih
            rw [listed]
            have hpart := hg _ (List.mem_cons_self ..)
            obtain ⟨hargs₁, hp, hsize⟩ := namePart_inv hpart hparts hname
            unfold nameChecksum at hcrc
            rw [if_neg (by rw [hset]; exact Bool.false_ne_true)] at hcrc
            obtain ⟨hq, hargs₂⟩ := Prod.mk.inj hcrc.pure_inv.1
            rw [hargs₂, hargs₁] at hrest
            rw [hq]
            exact .cons ⟨hp, hsize⟩ ((ih (fun l hl => hg l (List.mem_cons_of_mem _ hl)) hrest).imp
              hstart)
          | true =>
            cases rest with
            | nil =>
              refine absurd ?_ henough
              unfold argsPerPart
              rw [if_neg (by rw [hparts]; exact Bool.false_ne_true), if_pos hset]
              dsimp only [List.length_cons, List.length_nil]
              omega
            | cons szCRC32 rest =>
              rw [hset, listed] at hg
              rw [hset] at ih
              rw [listed]
              have hpart := hg _ (List.mem_cons_self ..)
              obtain ⟨hargs₁, hp, hsize⟩ := namePart_inv hpart hparts hname
              rw [hargs₁] at hcrc
              obtain ⟨hargs₂, hq, hsame⟩ := nameChecksum_inv hset hp hcrc
              rw [hargs₂] at hrest
              rw [← hsame] at hsize
              exact .cons ⟨hq, hsize⟩ ((ih (fun l hl => hg l (List.mem_cons_of_mem _ hl)) hrest).imp
                hstart)

end List

end MetaDigi.FlashRecords
