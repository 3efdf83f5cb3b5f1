import MetaDigi.FlashMain

/-!
# Which calls each part of the tool makes

Every part is held against two questions, whatever the system answers: can it
issue a call that changes flash, and can it be left because of its input. Up
to the first partition that is flashed the tool only looks; from there on no
input is judged any more. A dry run changes flash only through an external
flasher.
-/

namespace MetaDigi.FlashEffects

open CStrings TextScan SystemProgram FlashTypes FlashInit FlashTransfer FlashMain Crc32 Prog

/-- A call that neither looks at files nor changes flash, and tells nothing. -/
def Plain (o : Op) : Prop := callKind o = .harmless

/-- A call that leaves flash and files as they are and tells nothing. -/
def Quiet (o : Op) : Prop := Plain o ∨ callKind o = .reads

/-- A call that leaves flash as it is and tells nothing. -/
def Filing (o : Op) : Prop := Quiet o ∨ callKind o = .files

/-- A call that may be made while a partition is flashed. -/
def Spared (g : Globals) (o : Op) : Prop :=
  Plain o ∨ (callKind o = .flash ∧ ¬ g.cDryRun = true)

/-- A call that may be made while an image is flashed. -/
def Flashing (g : Globals) (o : Op) : Prop := Spared g o ∨ callKind o = .reads

/-- A call that may be made for one page: it reads the page or asks for memory,
or it changes flash and the run is not dry. -/
def Paging (g : Globals) : Op → Prop
  | .malloc _ => True
  | .pread _ _ _ => True
  | .pwrite _ _ _ => ¬ g.cDryRun = true
  | .memSetBadBlock _ _ => ¬ g.cDryRun = true
  | _ => False

/-- A reason to stop that lies in the arguments, in an image or in its copy:
the arguments are malformed, the image does not fit the partition in size or
type, its checksum or its JFFS2 structure is wrong, or the temporary directory
is refused or a copy fails. -/
def rejectsInput : ExitReason → Bool
  | .tooManyPartitions => true
  | .requireFilename _ _ => true
  | .wrongPartitionNumber => true
  | .haveOnlyPartitions _ => true
  | .invalidChecksum _ => true
  | .fileTooBig _ _ _ _ => true
  | .fileTypeMismatch _ _ _ => true
  | .crcMismatch inside _ _ _ => inside ≠ .mtdPartCheckCRC32
  | .noJffs2Header => true
  | .noCleanMarkers => true
  | .cleanMarkerAtOffset _ => true
  | .tmpOnJffs2 => true
  | .tmpOnNfs => true
  | .systemError inside _ => inside = .verifyTmpDir ∨ inside = .mtdPartCopyFile
  | .filesizeChanged inside _ => inside = .mtdPartCopyFile
  | _ => false

/-- A reason to stop that does not lie in the input. -/
def Device (e : ExitReason) : Prop := rejectsInput e = false

/-- Any reason. -/
abbrev AnyReason : ExitReason → Prop := fun _ => True

/-- Any result. -/
abbrev AnyResult {α : Type} : α → Prop := fun _ => True

section Rules

variable {P : Op → Prop} {X : ExitReason → Prop} {α β : Type} {R : α → Prop} {S : β → Prop}

/-- A call that leaves on failure brings an answer that was successful. -/
theorem sat_sysOrFail {inside : Func} {o : Op} {answer : Resp o → Option α} (ho : P o)
    (hX : X (.systemError inside o)) :
    (sysOrFail inside o answer).Sat P X (fun a => ∃ r, answer r = some a) := by
  unfold sysOrFail
  refine ⟨ho, fun r => ?_⟩
  simp only [Prog.bind]
  split
  · rename_i a ha
    exact ⟨r, ha⟩
  · exact hX

/-- Such a call in front of the rest of a function. -/
theorem sat_sysOrFail_andThen {inside : Func} {o : Op} {answer : Resp o → Option α}
    {f : α → Flash β} (ho : P o) (hX : X (.systemError inside o))
    (hf : ∀ r a, answer r = some a → (f a).Sat P X S) :
    (sysOrFail inside o answer >>= f).Sat P X S :=
  (sat_sysOrFail ho hX).andThen fun a ⟨r, hr⟩ => hf r a hr

/-- A call in front of the rest of a function. -/
theorem sat_sys_andThen {o : Op} {f : Resp o → Flash β} (ho : P o)
    (hf : ∀ r, (f r).Sat P X S) : (sys o >>= f).Sat P X S :=
  ⟨ho, hf⟩

/-- The reasons need not be known. -/
theorem sat_relax {p : Flash α} (hp : p.Sat P Device R) : p.Sat P AnyReason R :=
  hp.mono (fun _ h => h) (fun _ _ => trivial) (fun _ h => h)

/-- A plain program is quiet. -/
theorem sat_quiet {p : Flash α} (hp : p.Sat Plain X R) : p.Sat Quiet X R :=
  hp.mono (fun _ h => .inl h) (fun _ h => h) (fun _ h => h)

/-- A plain program is fine in a dry run. -/
theorem sat_spare (g : Globals) {p : Flash α} (hp : p.Sat Plain X R) : p.Sat (Spared g) X R :=
  hp.mono (fun _ h => .inl h) (fun _ h => h) (fun _ h => h)

/-- A program that is fine in a dry run may be part of flashing an image. -/
theorem sat_flashing (g : Globals) {p : Flash α} (hp : p.Sat (Spared g) X R) :
    p.Sat (Flashing g) X R :=
  hp.mono (fun _ h => .inl h) (fun _ h => h) (fun _ h => h)

/-- A quiet program leaves flash as it is. -/
theorem sat_file {p : Flash α} (hp : p.Sat Quiet X R) : p.Sat Filing X R :=
  hp.mono (fun _ h => .inl h) (fun _ h => h) (fun _ h => h)

/-- The results need not be known. -/
theorem sat_forget {p : Flash α} (hp : p.Sat P X R) : p.Sat P X AnyResult :=
  hp.mono (fun _ h => h) (fun _ h => h) (fun _ _ => trivial)

end Rules

/-- What stays of a record once it has been named. -/
def settled (pMtd : MtdPartition) : MtdPartition :=
  { pMtd with
    szImageFileName := []
    uiCRC32 := 0
    cChecksumSet := false
    cChecksumCalculated := false
    acName := []
    isOpen := false
    cAlreadyPrintedVerifyWarning := false
    cAlreadyRemounted := false }

/-- The record after a look into a block: only a warning is remembered. -/
def Warned (pMtd q : MtdPartition) : Prop :=
  ∃ v, q = { pMtd with cAlreadyPrintedVerifyWarning := v }

/-- Nothing has been warned of. -/
theorem Warned.refl (pMtd : MtdPartition) : Warned pMtd pMtd := ⟨_, rfl⟩

/-- One warning after another. -/
theorem Warned.trans {pMtd q r : MtdPartition} (hq : Warned pMtd q) (hr : Warned q r) :
    Warned pMtd r := by
  obtain ⟨v, rfl⟩ := hq
  obtain ⟨v', rfl⟩ := hr
  exact ⟨v', rfl⟩

section Partitions

variable (g : Globals) (pMtd : MtdPartition)

/-- Opening is quiet and sets the name of the node. -/
theorem mtdPartOpen_sat (cReadOnly : Bool) :
    (mtdPartOpen g pMtd cReadOnly).Sat Plain Device (fun q =>
      q = { pMtd with acName := g.szMtdPrefix ++ decimal pMtd.uiPartition, isOpen := true }) := by
  unfold mtdPartOpen
  split
  · exact sat_exit rfl
  · exact sat_sysOrFail_andThen rfl rfl fun _ _ _ => rfl

/-- Closing is quiet. -/
theorem mtdPartClose_sat :
    (mtdPartClose pMtd).Sat Plain Device (fun q => q = { pMtd with isOpen := false }) := by
  unfold mtdPartClose
  exact sat_sysOrFail_andThen rfl rfl fun _ _ _ => rfl

/-- Asking for a bad block is quiet. -/
theorem mtdPartIsBadBlock_sat (iOffset : ℕ) :
    (mtdPartIsBadBlock pMtd iOffset).Sat Plain Device AnyResult :=
  sat_forget (sat_sysOrFail rfl rfl)

/-- Counting bad blocks is quiet. -/
theorem countBadBlocks_sat : (countBadBlocks g pMtd).Sat Plain Device AnyResult := by
  unfold countBadBlocks
  split
  swap
  · trivial
  refine Sat.loop (I := AnyResult) (fun st _ => ?_) g.fuel trivial
  obtain ⟨iOffset, uiBadBlocks⟩ := st
  dsimp only [countBadBlocksPass]
  split
  · exact Sat.andThen (mtdPartIsBadBlock_sat pMtd _) fun _ _ => trivial
  · exact trivial

/-- Reading the lines of `/proc/mtd` is quiet. -/
theorem seekProcMtdLine_sat (left : ℕ) (acBuffer : Bytes) :
    (seekProcMtdLine left acBuffer).Sat Plain Device AnyResult := by
  induction left generalizing acBuffer with
  | zero => trivial
  | succ left ih => exact sat_sysOrFail_andThen rfl rfl fun _ line _ => ih _

/-- Finding the kind of a partition is quiet and sets the kinds. -/
theorem mtdPartDeterminePartType_sat :
    (mtdPartDeterminePartType pMtd).Sat Plain Device (fun q => ∃ ePartType eFileTypeNeeded,
      q = { pMtd with ePartType := ePartType, eFileTypeNeeded := eFileTypeNeeded }) := by
  unfold mtdPartDeterminePartType
  refine sat_sysOrFail_andThen rfl rfl fun _ _ _ => sat_sys_andThen rfl fun _ => ?_
  refine Sat.andThen (seekProcMtdLine_sat _ _) fun acBuffer _ => ?_
  split
  · exact sat_exit rfl
  · split
    · exact sat_exit rfl
    · exact sat_sysOrFail_andThen rfl rfl fun _ _ _ => ⟨_, _, rfl⟩

/-- Reading what the driver says is quiet. -/
theorem mtdPartReadInfo_sat : (mtdPartReadInfo g pMtd).Sat Plain Device AnyResult := by
  unfold mtdPartReadInfo
  refine sat_sysOrFail_andThen rfl rfl fun _ xInfo _ => ?_
  refine Sat.andThen (countBadBlocks_sat g _) fun uiBadBlocks _ => ?_
  exact Sat.andThen (mtdPartDeterminePartType_sat _) fun _ _ => trivial

/-- Preparing the clean marker is quiet and sets what belongs to it. -/
theorem mtdPartInitCleanMarker_sat :
    (mtdPartInitCleanMarker pMtd).Sat Plain Device (fun q => ∃ uiClMPos uiClMLen xCleanMarker,
      q = { pMtd with
        uiClMPos := uiClMPos, uiClMLen := uiClMLen, xCleanMarker := xCleanMarker }) := by
  unfold mtdPartInitCleanMarker
  dsimp only
  split
  · refine sat_sysOrFail_andThen rfl rfl fun _ xoobInfo _ => ?_
    split
    · split
      · exact sat_exit rfl
      · split
        · exact ⟨_, _, _, rfl⟩
        · split
          · exact ⟨_, _, _, rfl⟩
          · exact ⟨_, _, _, rfl⟩
          · exact ⟨_, _, _, rfl⟩
          · exact sat_exit rfl
    · exact ⟨_, _, _, rfl⟩
  · exact ⟨_, _, _, rfl⟩

/-- Holding an image against a partition is quiet. -/
theorem mtdPartUseFile_sat (szImageFileName : Path) :
    (mtdPartUseFile g pMtd szImageFileName).Sat Quiet AnyReason AnyResult := by
  unfold mtdPartUseFile
  refine sat_sysOrFail_andThen (.inr rfl) trivial fun _ st_size _ => ?_
  dsimp only
  split
  · split
    · exact sat_exit trivial
    · split
      · trivial
      · unfold mtdPartDetermineAndCheckFileType
        split
        · trivial
        · dsimp only
          split
          · exact sat_exit trivial
          · split
            · trivial
            · trivial
  · trivial

/-- Initialising a partition is quiet. -/
theorem mtdPartInit_sat (uiPartition : ℕ) (szImageFileName : Path) :
    (mtdPartInit g uiPartition szImageFileName).Sat Quiet AnyReason AnyResult := by
  unfold mtdPartInit
  refine Sat.andThen (sat_quiet (sat_relax (mtdPartOpen_sat g _ _))) fun pMtd _ => ?_
  refine Sat.andThen (sat_quiet (sat_relax (mtdPartReadInfo_sat g pMtd))) fun pMtd _ => ?_
  refine Sat.andThen (R := AnyResult) ?_ fun pMtd _ => ?_
  · refine sat_sys_andThen (.inl rfl) fun atomic => ?_
    split
    · trivial
    · exact sat_forget (sat_quiet (sat_relax (mtdPartInitCleanMarker_sat pMtd)))
  refine Sat.andThen (mtdPartUseFile_sat g pMtd _) fun pMtd _ => ?_
  refine Sat.andThen (sat_quiet (sat_relax (mtdPartClose_sat pMtd))) fun pMtd _ => ?_
  split
  · refine sat_sys_andThen (.inl rfl) fun atomic => ?_
    split
    · trivial
    · trivial
  · trivial

end Partitions

section Transfer

variable (g : Globals) (pMtd : MtdPartition)

/-- What is not a dry run may change flash. -/
theorem spared_of_not_dry (hdry : ¬ g.cDryRun = true) (o : Op) (ho : callKind o = .flash) :
    Spared g o :=
  .inr ⟨ho, hdry⟩

/-- Erasing a block changes flash unless the run is dry. -/
theorem eraseBlock_sat (start : ℕ) :
    (eraseBlock g pMtd start).Sat (Spared g) Device AnyResult := by
  unfold eraseBlock
  split
  · trivial
  · rename_i hdry
    have hspared := spared_of_not_dry g hdry
    refine sat_sysOrFail_andThen (hspared _ rfl) rfl fun _ _ _ => ?_
    split
    · split
      · exact sat_forget (sat_sysOrFail (hspared _ rfl) rfl)
      · exact sat_forget (sat_sysOrFail (hspared _ rfl) rfl)
    · trivial

/-- Erasing changes flash unless the run is dry. -/
theorem mtdPartErase_sat : (mtdPartErase g pMtd).Sat (Spared g) Device AnyResult := by
  refine Sat.loop (I := AnyResult) (fun st _ => ?_) g.fuel trivial
  obtain ⟨start, iBytesErasedTotal⟩ := st
  dsimp only [erasePass]
  split
  · refine Sat.andThen (sat_spare g (mtdPartIsBadBlock_sat pMtd _)) fun bad _ => ?_
    split
    · trivial
    · exact Sat.andThen (eraseBlock_sat g pMtd _) fun _ _ => trivial
  · trivial

/-- The calls for a page change flash only if the run is not dry. -/
theorem spared_of_paging {o : Op} (h : Paging g o) : Spared g o := by
  cases o <;> first
    | exact h.elim
    | exact .inl rfl
    | exact .inr ⟨rfl, h⟩

/-- The attempts to write a page, of which the first one is taken for good in a
dry run. -/
theorem writeAttempts_sat (pucBuffer : Bytes) (iCurrentOffs left : ℕ) (pucBufferMtd : Bytes) :
    (writeAttempts g pMtd pucBuffer iCurrentOffs left pucBufferMtd).Sat (Paging g) Device
      (fun done => g.cDryRun = true → left ≠ 0 → done = true) := by
  induction left generalizing pucBufferMtd with
  | zero => exact fun _ h => absurd rfl h
  | succ left ih =>
    unfold writeAttempts pwriteUnlessDry
    by_cases hdry : g.cDryRun = true
    · simp only [hdry, if_true, Bool.not_true, Bool.false_and, ne_eq]
      exact Sat.andThen (R := fun n => n = (pucBuffer.length : ℤ)) rfl fun n hn => by
        simp only [hn, not_true_eq_false, if_false, Bool.false_eq_true]
        exact fun _ _ => rfl
    · have hretry : ∀ buffer, (writeAttempts g pMtd pucBuffer iCurrentOffs left buffer).Sat
          (Paging g) Device (fun done => g.cDryRun = true → left + 1 ≠ 0 → done = true) :=
        fun buffer => (ih buffer).mono (fun _ h => h) (fun _ h => h) (fun _ _ h => absurd h hdry)
      rw [if_neg hdry]
      refine sat_sys_andThen hdry fun written => ?_
      split
      · split
        · exact hretry _
        · exact sat_exit rfl
      · split
        · refine sat_sys_andThen trivial fun bytes => ?_
          split
          · exact hretry _
          · dsimp only
            split
            · exact hretry _
            · exact fun _ _ => rfl
        · exact fun _ _ => rfl

/-- Writing a page. -/
theorem writePage_sat (pucBuffer : Bytes) (iCurrentOffs : ℕ) :
    (writePage g pMtd pucBuffer iCurrentOffs).Sat (Paging g) Device AnyResult := by
  unfold writePage readBackBuffer
  refine Sat.andThen (R := AnyResult) ?_ fun pucBufferMtd _ => ?_
  · split
    · exact sat_forget (sat_sysOrFail trivial rfl)
    · trivial
  refine Sat.andThen (writeAttempts_sat g pMtd _ _ _ _) fun done hdone => ?_
  split
  · trivial
  · rename_i hfailed
    have hdry : ¬ g.cDryRun = true := fun h => hfailed (hdone h (by decide))
    exact sat_sys_andThen hdry fun _ => sat_exit rfl

/-- The end of a pass moves the offset in flash only. -/
theorem writeState_step_kept {I : ℕ → Crc → Prop} (st : WriteState)
    (hst : I st.iBytesReadTotal st.uiCRC32) :
    Sum.elim (fun st' => I st'.iBytesReadTotal st'.uiCRC32)
      (fun st' => I st'.iBytesReadTotal st'.uiCRC32) (st.step pMtd) := by
  unfold WriteState.step
  dsimp only
  split
  · exact hst
  · exact hst

/-- Writing an image changes flash unless the run is dry, and of the record
only the checksum. -/
theorem mtdPartWrite_sat :
    (mtdPartWrite g pMtd).Sat (Flashing g) Device (fun q => settled q = settled pMtd) := by
  unfold mtdPartWrite
  refine sat_sysOrFail_andThen (.inl (.inl rfl)) rfl fun _ _ _ => ?_
  refine sat_sysOrFail_andThen (.inr rfl) rfl fun _ _ _ => ?_
  refine sat_sysOrFail_andThen (.inl (.inl rfl)) rfl fun _ _ _ => ?_
  refine Sat.andThen (R := AnyResult) ?_ fun st _ => ?_
  · refine Sat.loop (I := AnyResult) (fun st _ => ?_) g.fuel trivial
    have hstep : ∀ st : WriteState, Sum.elim (AnyResult (α := WriteState))
        (AnyResult (α := WriteState)) (st.step pMtd) := fun st =>
      writeState_step_kept (I := fun _ _ => True) pMtd st trivial
    unfold writePass
    refine Sat.andThen (sat_flashing g (sat_spare g (mtdPartIsBadBlock_sat pMtd _))) fun bad _ => ?_
    split
    · exact hstep _
    · refine sat_sysOrFail_andThen (.inr rfl) rfl fun _ bytes _ => ?_
      split
      · trivial
      · have hpage := (writePage_sat g pMtd (fillPage pMtd.cIsJFFS2 pMtd.iPageSize bytes.1)
          st.iCurrentOffs).mono (fun _ h => spared_of_paging g h) (fun _ h => h) (fun _ h => h)
        exact Sat.andThen (sat_flashing g hpage) fun _ _ => hstep _
  · refine sat_sysOrFail_andThen (.inr rfl) rfl fun _ _ _ => ?_
    split
    · exact sat_exit rfl
    · unfold recordWritten
      split
      · exact sat_ret rfl
      · exact sat_ret rfl

/-- The attempts to read a page are quiet, and in a dry run the first one is
the last. -/
theorem readAttempts_sat (iOffsMtd left : ℕ) :
    (readAttempts g pMtd iOffsMtd left).Sat Plain Device
      (fun r => g.cDryRun = true → left ≠ 0 → r ≠ none) := by
  induction left with
  | zero => exact fun _ h => absurd rfl h
  | succ left ih =>
    unfold readAttempts
    refine sat_sys_andThen rfl fun bytes => ?_
    split
    · exact fun _ _ h => nomatch h
    · split
      · rename_i hretry
        have hdry : ¬ g.cDryRun = true := fun h => by simp [h] at hretry
        exact ih.mono (fun _ h => h) (fun _ h => h) (fun _ _ h => absurd h hdry)
      · exact sat_exit rfl

/-- Reading a page may mark its block bad unless the run is dry. -/
theorem readPage_sat (iOffsMtd : ℕ) :
    (readPage g pMtd iOffsMtd).Sat (Spared g) Device AnyResult := by
  unfold readPage
  refine Sat.andThen (sat_spare g (readAttempts_sat g pMtd _ _)) fun r hr => ?_
  split
  · trivial
  · have hdry : ¬ g.cDryRun = true := fun h => hr h (by decide) rfl
    exact sat_sys_andThen (spared_of_not_dry g hdry _ rfl) fun _ => sat_exit rfl

/-- A pass of the loop of `MtdPartVerify` reads, and may mark a block bad unless
the run is dry. -/
theorem verifyPass_sat {P : Op → Prop} (hspared : ∀ o, Spared g o → P o)
    (hread : ∀ size, P (.readSrc size)) (st : VerifyState) :
    (verifyPass g pMtd st).Sat P Device AnyResult := by
  have hdump : ∀ buffer iOffset iLen, P (.memDump buffer iOffset iLen) :=
    fun _ _ _ => hspared _ (.inl rfl)
  unfold verifyPass
  refine Sat.andThen ((sat_spare g (mtdPartIsBadBlock_sat pMtd _)).mono hspared (fun _ h => h)
    fun _ h => h) fun bad _ => ?_
  split
  · trivial
  · refine sat_sysOrFail_andThen (hread _) rfl fun _ bytesSrc _ => ?_
    split
    · trivial
    · refine Sat.andThen ((readPage_sat g pMtd _).mono hspared (fun _ h => h) fun _ h => h)
        fun bytesMtd _ => ?_
      dsimp only
      split
      · trivial
      · split
        · exact sat_sys_andThen (hdump _ _ _) fun _ =>
            sat_sys_andThen (hdump _ _ _) fun _ => trivial
        · split <;> trivial

/-- The loop of `MtdPartVerify`. -/
theorem verifyLoop_sat {P : Op → Prop} (hspared : ∀ o, Spared g o → P o)
    (hread : ∀ size, P (.readSrc size)) (fuel : ℕ) (st : VerifyState) :
    (Prog.loop (verifyPass g pMtd) fuel st).Sat P Device AnyResult := by
  refine Sat.loop (I := AnyResult) (fun st _ => ?_) fuel trivial
  exact (verifyPass_sat g pMtd hspared hread st).mono (fun _ h => h) (fun _ h => h)
    fun step _ => by cases step <;> trivial

/-- Comparing an image may mark a block bad unless the run is dry; of the
record only the handle changes. -/
theorem comparePart_sat :
    (comparePart g pMtd).Sat (Flashing g) Device (fun r => settled r.2 = settled pMtd) := by
  unfold comparePart
  refine sat_sysOrFail_andThen (.inl (.inl rfl)) rfl fun _ pucBufferSrc _ => ?_
  refine sat_sysOrFail_andThen (.inl (.inl rfl)) rfl fun _ pucBufferMtd _ => ?_
  refine Sat.andThen (sat_flashing g (sat_spare g (mtdPartClose_sat _))) fun p₁ hp₁ => ?_
  refine Sat.andThen (sat_flashing g (sat_spare g (mtdPartOpen_sat g _ _))) fun p₂ hp₂ => ?_
  refine sat_sysOrFail_andThen (.inr rfl) rfl fun _ _ _ => ?_
  refine Sat.andThen (verifyLoop_sat g p₂ (fun _ => .inl) (fun _ => .inr rfl) _ _)
    fun compared _ => ?_
  refine sat_sysOrFail_andThen (.inr rfl) rfl fun _ _ _ => sat_ret ?_
  rw [hp₂, hp₁]
  rfl

/-- The loop of `MtdPartCheckCRC32` is quiet. -/
theorem checkLoop_sat (fuel : ℕ) (st : CheckState) :
    (Prog.loop (checkPass pMtd) fuel st).Sat Plain Device AnyResult := by
  refine Sat.loop (I := AnyResult) (fun st _ => ?_) fuel trivial
  have hstep : ∀ st : CheckState, Sum.elim (AnyResult (α := CheckState))
      (AnyResult (α := Crc)) (st.step pMtd) := by
    intro st
    cases st.step pMtd <;> trivial
  unfold checkPass
  refine Sat.andThen (mtdPartIsBadBlock_sat pMtd _) fun bad _ => ?_
  split
  · exact hstep _
  · exact sat_sysOrFail_andThen rfl rfl fun _ _ _ => hstep _

/-- Summing the flash is quiet; of the record only the handle changes. -/
theorem mtdPartCheckCRC32_sat :
    (mtdPartCheckCRC32 g pMtd).Sat Plain Device (fun q => settled q = settled pMtd) := by
  unfold mtdPartCheckCRC32
  refine sat_sysOrFail_andThen rfl rfl fun _ _ _ => ?_
  refine Sat.andThen (mtdPartClose_sat _) fun p₁ hp₁ => ?_
  refine Sat.andThen (mtdPartOpen_sat g _ _) fun p₂ hp₂ => ?_
  refine Sat.andThen (checkLoop_sat p₂ _ _) fun uiCRC32 _ => ?_
  refine Sat.andThen (R := AnyResult) ?_ fun _ _ => sat_ret ?_
  · unfold mtdPartCompareCRC32
    split
    · exact sat_exit rfl
    · trivial
  · rw [hp₂, hp₁]
    rfl

end Transfer

section Images

variable (g : Globals) (pMtd : MtdPartition)

/-- The checksum of a record, and where it comes from. -/
def checksum (pMtd : MtdPartition) : Crc × Bool × Bool :=
  (pMtd.uiCRC32, pMtd.cChecksumSet, pMtd.cChecksumCalculated)

/-- A later state of a record: a checksum that was set is kept. -/
def Continues (pMtd q : MtdPartition) : Prop :=
  settled q = settled pMtd ∧ (pMtd.cChecksumSet = true → checksum q = checksum pMtd)

theorem Continues.refl (pMtd : MtdPartition) : Continues pMtd pMtd := ⟨rfl, fun _ => rfl⟩

theorem Continues.trans {pMtd q r : MtdPartition} (hq : Continues pMtd q) (hr : Continues q r) :
    Continues pMtd r := by
  refine ⟨hr.1.trans hq.1, fun hset => ?_⟩
  have hsame := hq.2 hset
  have hsetq : q.cChecksumSet = pMtd.cChecksumSet := congrArg (fun c => c.2.1) hsame
  exact (hr.2 (hsetq.trans hset)).trans hsame

/-- Comparing checksums issues no call. -/
theorem mtdPartCompareCRC32_sat (inside : Func) (uiCRC32 : Crc) :
    (mtdPartCompareCRC32 inside pMtd uiCRC32).Sat Plain AnyReason AnyResult := by
  unfold mtdPartCompareCRC32
  split
  · exact sat_exit trivial
  · trivial

/-- Looking into a block of an image issues no call. -/
theorem mtdPartVerifyJFFS2Block_sat (pucData : Bytes) (iSize : ℕ) :
    (mtdPartVerifyJFFS2Block pMtd pucData iSize).Sat Plain AnyReason (Continues pMtd) := by
  unfold mtdPartVerifyJFFS2Block
  split
  · exact sat_ret (.refl _)
  · dsimp only
    split
    · split
      · exact sat_exit trivial
      · exact sat_ret (.refl _)
    · split
      · exact sat_exit trivial
      · split
        · exact sat_exit trivial
        · exact sat_ret (.refl _)

/-- Keeping or comparing a checksum issues no call. -/
theorem setOrCompareCRC32_sat (inside : Func) (uiCRC32 : Crc) :
    (setOrCompareCRC32 inside pMtd uiCRC32).Sat Plain AnyReason (Continues pMtd) := by
  unfold setOrCompareCRC32
  split
  · exact Sat.andThen (mtdPartCompareCRC32_sat pMtd _ _) fun _ _ => .refl pMtd
  · rename_i hunset
    exact sat_ret ⟨rfl, fun hset => absurd hset hunset⟩

/-- Reading a whole image is as quiet as what is done with its bytes. -/
theorem fileLoop_sat {P : Op → Prop} (hP : ∀ o, Quiet o → P o) {inside : Func}
    {use : Bytes → Flash Unit} (huse : ∀ bytes, (use bytes).Sat P AnyReason AnyResult)
    (st : FileState) (hst : Continues pMtd st.pMtd) :
    (Prog.loop (filePass inside use) g.fuel st).Sat P AnyReason
      (fun st => Continues pMtd st.pMtd) := by
  refine Sat.loop (I := fun st => Continues pMtd st.pMtd) (fun st hst => ?_) g.fuel hst
  unfold filePass
  refine sat_sysOrFail_andThen (hP _ (.inr rfl)) trivial fun _ bytes _ => ?_
  split
  · exact hst
  · refine Sat.andThen (R := Continues pMtd) ?_ fun q hq => ?_
    · unfold verifyIfJFFS2
      split
      · exact (sat_quiet (mtdPartVerifyJFFS2Block_sat st.pMtd _ _)).mono hP (fun _ h => h)
          fun q hq => hst.trans hq
      · exact hst
    · exact Sat.andThen (huse _) fun _ _ => hq

/-- Writing to a copy leaves flash alone. -/
theorem writeDstOrFail_sat (bytes : Bytes) :
    (writeDstOrFail bytes).Sat Filing AnyReason AnyResult :=
  sat_forget (sat_sysOrFail (.inr rfl) trivial)

/-- Copying an image leaves flash alone. -/
theorem mtdPartCopyFile_sat (szDstFileName : Path) :
    (mtdPartCopyFile g pMtd szDstFileName).Sat Filing AnyReason (Continues pMtd) := by
  unfold mtdPartCopyFile
  refine sat_sysOrFail_andThen (.inl (.inl rfl)) trivial fun _ pucBuffer _ => ?_
  refine sat_sysOrFail_andThen (.inl (.inr rfl)) trivial fun _ _ _ => ?_
  refine sat_sysOrFail_andThen (.inr rfl) trivial fun _ _ _ => ?_
  refine Sat.andThen (fileLoop_sat g pMtd (fun _ h => .inl h) writeDstOrFail_sat _ (.refl pMtd))
    fun st hst => ?_
  refine sat_sysOrFail_andThen (.inl (.inl rfl)) trivial fun _ _ _ => ?_
  refine sat_sysOrFail_andThen (.inl (.inr rfl)) trivial fun _ _ _ => ?_
  split
  · exact sat_exit trivial
  · exact (sat_file (sat_quiet (setOrCompareCRC32_sat st.pMtd _ _))).mono (fun _ h => h) (fun _ h => h)
      fun q hq => hst.trans hq

/-- Summing an image is quiet. -/
theorem mtdPartVerifyFile_sat :
    (mtdPartVerifyFile g pMtd).Sat Quiet AnyReason (Continues pMtd) := by
  unfold mtdPartVerifyFile
  refine sat_sysOrFail_andThen (.inl rfl) trivial fun _ pucBuffer _ => ?_
  refine sat_sysOrFail_andThen (.inr rfl) trivial fun _ _ _ => ?_
  have huse : ∀ bytes : Bytes, (return () : Flash Unit).Sat Quiet AnyReason AnyResult :=
    fun _ => trivial
  refine Sat.andThen (fileLoop_sat g pMtd (fun _ h => h) huse _ (.refl pMtd)) fun st hst => ?_
  refine sat_sysOrFail_andThen (.inr rfl) trivial fun _ _ _ => ?_
  exact (sat_quiet (setOrCompareCRC32_sat st.pMtd _ _)).mono (fun _ h => h) (fun _ h => h)
    fun q hq => hst.trans hq

/-- Summing a file for `-C` is quiet. -/
theorem calcCRC32OfFile_sat (szFileName : Path) :
    (calcCRC32OfFile g szFileName).Sat Quiet AnyReason AnyResult := by
  unfold calcCRC32OfFile
  refine sat_sysOrFail_andThen (.inr rfl) trivial fun _ _ _ => ?_
  refine Sat.andThen (R := AnyResult) ?_ fun uiCRC32 _ => ?_
  · refine Sat.loop (I := AnyResult) (fun st _ => ?_) g.fuel trivial
    unfold calcCRC32Pass
    refine sat_sysOrFail_andThen (.inr rfl) trivial fun _ bytes _ => ?_
    split <;> trivial
  · exact sat_sysOrFail_andThen (.inr rfl) trivial fun _ _ _ => trivial

end Images

section Arguments

variable (g : Globals)

/-- Naming a file and its partition is quiet. -/
theorem namePart_sat (args : List Bytes) : (namePart g args).Sat Quiet AnyReason AnyResult := by
  unfold namePart
  split
  · exact sat_exit trivial
  · split
    · exact Sat.andThen (mtdPartUseFile_sat g _ _) fun _ _ => trivial
    · split
      · exact sat_exit trivial
      · split
        · exact sat_exit trivial
        · split
          · exact sat_exit trivial
          · exact Sat.andThen (mtdPartInit_sat g _ _) fun _ _ => trivial

/-- Taking a checksum from the arguments is quiet. -/
theorem nameChecksum_sat (pMtd : MtdPartition) (args : List Bytes) :
    (nameChecksum g pMtd args).Sat Quiet AnyReason AnyResult := by
  unfold nameChecksum
  split
  · split
    · exact sat_exit trivial
    · split
      · exact sat_exit trivial
      · trivial
  · trivial

/-- Reading the arguments is quiet. -/
theorem nameParts_sat (left : ℕ) (args : List Bytes) :
    (nameParts g left args).Sat Quiet AnyReason AnyResult := by
  induction left generalizing args with
  | zero => cases args <;> trivial
  | succ left ih =>
    cases args with
    | nil => trivial
    | cons arg args =>
      unfold nameParts
      split
      · exact sat_exit trivial
      · refine Sat.andThen (namePart_sat g _) fun ⟨pMtd, args⟩ _ => ?_
        refine Sat.andThen (nameChecksum_sat g pMtd args) fun ⟨pMtd, args⟩ _ => ?_
        exact Sat.andThen (ih args) fun _ _ => trivial

/-- Counting the partitions is quiet and keeps the options. -/
theorem mtdInit_sat (opts : Options) (fuel : ℕ) :
    (mtdInit opts fuel).Sat Quiet AnyReason (fun g => g.toOptions = opts ∧ g.fuel = fuel) := by
  have hcount : ∀ prefix_ left n, (countMtdParts prefix_ left n).Sat Quiet AnyReason AnyResult := by
    intro prefix_ left
    induction left with
    | zero => exact fun _ => trivial
    | succ left ih =>
      intro n
      unfold countMtdParts
      refine sat_sys_andThen (.inl rfl) fun found => ?_
      split
      · exact ih _
      · trivial
  unfold mtdInit
  refine Sat.andThen (R := fun g => g.toOptions = opts ∧ g.fuel = fuel) ?_ fun g hg => ?_
  · refine sat_sys_andThen (.inl rfl) fun found => ?_
    split
    · exact sat_ret ⟨rfl, rfl⟩
    · refine sat_sys_andThen (.inl rfl) fun found => ?_
      split
      · exact sat_ret ⟨rfl, rfl⟩
      · exact sat_exit trivial
  · refine Sat.andThen (hcount _ _ _) fun n _ => ?_
    split
    · exact sat_exit trivial
    · exact sat_ret hg

/-- The options with which the tool runs: full erases and clean markers may
have been changed. -/
def Prepared (opts : Options) (fuel : ℕ) (g : Globals) : Prop :=
  g.fuel = fuel ∧ ∃ cEraseAll cWriteCleanMarker,
    g.toOptions = { opts with cEraseAll := cEraseAll, cWriteCleanMarker := cWriteCleanMarker }

/-- Preparing a run is quiet and keeps the other options. -/
theorem prepare_sat (opts : Options) (fuel : ℕ) :
    (prepare opts fuel).Sat Quiet AnyReason (Prepared opts fuel) := by
  unfold prepare
  refine Sat.andThen (R := fun o : Options => ∃ cWriteCleanMarker,
    o = { opts with cWriteCleanMarker := cWriteCleanMarker }) ?_ fun o ho => ?_
  · split
    · refine sat_sys_andThen (.inl rfl) fun atomic => ?_
      split
      · exact sat_ret ⟨_, rfl⟩
      · exact sat_ret ⟨_, rfl⟩
    · exact sat_ret ⟨_, rfl⟩
  · obtain ⟨cWriteCleanMarker, ho⟩ := ho
    rw [ho]
    dsimp only
    split
    · exact sat_ret ⟨rfl, _, _, rfl⟩
    · exact (mtdInit_sat _ _).mono (fun _ h => h) (fun _ h => h)
        fun g hg => ⟨hg.2, _, _, hg.1⟩

end Arguments

end MetaDigi.FlashEffects
