import MetaDigi.FlashDevice
import MetaDigi.FlashEffects

/-!
# The checksum of a file

Four loops of the tool sum a file: the one for `-C` in pieces of 64 KiB, the
checks before flashing by erase blocks, and flashing itself by pages. A call
of `read` may return less than it was asked for. The system is any one that
serves the file piece by piece; each of the loops arrives at the usual
checksum of the whole file.
-/

namespace MetaDigi.FileSums

open CStrings SystemProgram SystemRuns FlashTypes FlashInit FlashTransfer FlashWorld
open FlashDevice FlashEffects Crc32 Prog

/-- A system serves a file: opening starts at its front, a call to read answers
some bytes that come next, and none only behind the last one. No other call
moves the position. -/
structure Serves {σ : Type} (h : Handler Op Resp σ) (path : Path) (content : Bytes) (pos : σ → ℕ) :
    Prop where
  /-- The file is read from its front. -/
  opened : ∀ s, (h (.openSrc path) s).1 = true → pos (h (.openSrc path) s).2 = 0
  /-- The bytes come next in the file. -/
  next : ∀ s size bytes, (h (.readSrc size) s).1 = some bytes → bytes.1 <+: content.drop (pos s)
  /-- There are none only at the end. -/
  last : ∀ s size bytes, 0 < size → (h (.readSrc size) s).1 = some bytes → bytes.1 = [] →
    content.length ≤ pos s
  /-- The position moves over them. -/
  moved : ∀ s size bytes, (h (.readSrc size) s).1 = some bytes →
    pos (h (.readSrc size) s).2 = pos s + bytes.1.length
  /-- Other calls leave the position. -/
  kept : ∀ s o, callKind o ≠ .reads → pos (h o s).2 = pos s

section Loops

variable {σ α : Type} {h : Handler Op Resp σ} {path : Path} {content : Bytes} {pos : σ → ℕ}
  {s s' : σ} {inside : Func}

/-- A program that does not read leaves the position. -/
theorem position_kept (hserves : Serves h path content pos) {P : Op → Prop} {X : ExitReason → Prop}
    {R : α → Prop} {p : Flash α} {o : Outcome ExitReason α} (hrun : Ends h p s o s')
    (hp : p.Sat P X R) (hP : ∀ o, P o → callKind o ≠ .reads) : pos s' = pos s :=
  hrun.keeps (I := fun t => pos t = pos s) hp
    (fun q t hq ht => (hserves.kept t q (hP q hq)).trans ht) rfl

theorem reads_of_plain {o : Op} (ho : Plain o) : callKind o ≠ .reads := by
  rw [ho]
  exact CallKind.noConfusion

theorem reads_of_paging {g : Globals} {o : Op} (ho : Paging g o) : callKind o ≠ .reads := by
  cases o <;> first
    | exact ho.elim
    | exact CallKind.noConfusion

/-- Opening the file. -/
theorem openSrc_front (hserves : Serves h path content pos) {u : Unit}
    (hrun : Ends h (sysOrFail inside (.openSrc path) succeeded) s (.ret u) s') : pos s' = 0 := by
  obtain ⟨hanswer, hs'⟩ := sysOrFail_inv hrun
  rw [hs']
  refine hserves.opened s ?_
  unfold succeeded at hanswer
  split at hanswer
  · rename_i hopen
    exact hopen
  · exact absurd hanswer nofun

/-- The checksum of the front of the file is continued by what is read. -/
theorem readSrc_sum (hserves : Serves h path content pos) {size : ℕ} {bytes : Chunk size}
    (hrun : Ends h (sysOrFail inside (.readSrc size) id) s (.ret bytes) s') :
    pos s' = pos s + bytes.1.length ∧
      crc32 (crc32 0 (content.take (pos s))) bytes.1 = crc32 0 (content.take (pos s')) ∧
      (0 < size → bytes.1 = [] → content.take (pos s) = content) := by
  obtain ⟨hanswer, hs'⟩ := sysOrFail_inv hrun
  have hread : (h (.readSrc size) s).1 = some bytes := hanswer
  have hmoved := hserves.moved s size bytes hread
  refine ⟨by rw [hs', hmoved], ?_, fun hsize hempty => ?_⟩
  · have hnext := List.prefix_iff_eq_take.mp (hserves.next s size bytes hread)
    rw [hs', hmoved, crc32_append, List.take_add, ← hnext]
  · exact List.take_of_length_le (hserves.last s size bytes hsize hread hempty)

/-- The loop of `CalcCRC32OfFile`. -/
theorem calcCRC32OfFile_sum (hserves : Serves h path content pos) {g : Globals} {uiCRC32 : Crc}
    (hrun : Ends h (calcCRC32OfFile g path) s (.ret uiCRC32) s') : uiCRC32 = crc32 0 content := by
  obtain ⟨_, s₁, hopen, hrun⟩ := Ends.split hrun
  obtain ⟨crc, s₂, hloop, hrun⟩ := Ends.split hrun
  obtain ⟨_, s₃, -, hrun⟩ := Ends.split hrun
  obtain ⟨hcrc, -⟩ := hrun.pure_inv
  rw [hcrc]
  have hfront := openSrc_front hserves hopen
  refine Ends.loop_invariant (I := fun crc t => crc = crc32 0 (content.take (pos t)))
    (Q := fun crc _ => crc = crc32 0 content) ?_ (by rw [hfront, List.take_zero, crc32_nil]) hloop
  intro crc t hsum step t' hpass
  obtain ⟨bytes, t₁, hread, hpass⟩ := Ends.split hpass
  obtain ⟨-, hnext, hlast⟩ := readSrc_sum hserves hread
  split at hpass
  · rename_i hempty
    obtain ⟨hstep, -⟩ := hpass.pure_inv
    rw [hstep]
    exact hsum.trans (by rw [hlast (by decide) hempty])
  · obtain ⟨hstep, ht'⟩ := hpass.pure_inv
    rw [hstep, ht']
    exact (by rw [hsum, hnext] : crc32 crc bytes.1 = _)

/-- The loops that read a whole image, with what is done with the bytes. -/
theorem fileLoop_sum (hserves : Serves h path content pos) {use : Bytes → Flash Unit}
    {P : Op → Prop} (hP : ∀ o, P o → callKind o ≠ .reads)
    (huse : ∀ bytes, (use bytes).Sat P AnyReason AnyResult) {pMtd : MtdPartition}
    (hsize : 0 < pMtd.xInfo.erasesize) {fuel : ℕ} {st₀ st : FileState}
    (hfirst : Continues pMtd st₀.pMtd) (hsum : st₀.uiCRC32 = 0) (hfront : pos s = 0)
    (hloop : Ends h (Prog.loop (filePass inside use) fuel st₀) s (.ret st) s') :
    st.uiCRC32 = crc32 0 content := by
  refine Ends.loop_invariant
    (I := fun st t => Continues pMtd st.pMtd ∧ st.uiCRC32 = crc32 0 (content.take (pos t)))
    (Q := fun st _ => st.uiCRC32 = crc32 0 content) ?_
    ⟨hfirst, by rw [hfront, hsum, List.take_zero, crc32_nil]⟩ hloop
  intro st t ⟨hcont, hsum⟩ step t' hpass
  have hblock : 0 < st.pMtd.xInfo.erasesize := by
    have hinfo : st.pMtd.xInfo = pMtd.xInfo := congrArg (fun r => r.xInfo) hcont.1
    rw [hinfo]
    exact hsize
  obtain ⟨bytes, t₁, hread, hpass⟩ := Ends.split hpass
  obtain ⟨-, hnext, hlast⟩ := readSrc_sum hserves hread
  split at hpass
  · rename_i hempty
    obtain ⟨hstep, -⟩ := hpass.pure_inv
    rw [hstep]
    exact hsum.trans (by rw [hlast hblock hempty])
  · obtain ⟨q, t₂, hlook, hpass⟩ := Ends.split hpass
    obtain ⟨_, t₃, hdone, hpass⟩ := Ends.split hpass
    obtain ⟨hstep, ht'⟩ := hpass.pure_inv
    have hlooks : (verifyIfJFFS2 st.pMtd (fillBuffer st.pucBuffer bytes.1) bytes.1.length).Sat
        Plain AnyReason (Continues st.pMtd) := by
      unfold verifyIfJFFS2
      split
      · exact mtdPartVerifyJFFS2Block_sat st.pMtd _ _
      · exact .refl _
    have hpos : pos t₃ = pos t₁ := (position_kept hserves hdone (huse bytes.1) hP).trans
      (position_kept hserves hlook hlooks fun _ => reads_of_plain)
    rw [hstep, ht']
    refine ⟨hcont.trans (hlook.result hlooks), ?_⟩
    rw [hpos]
    exact (by rw [hsum, hnext] : crc32 st.uiCRC32 bytes.1 = _)

/-- The checksum that is kept or compared is the one in the record. -/
theorem setOrCompareCRC32_sum {pMtd q : MtdPartition} {uiCRC32 : Crc}
    (hrun : Ends h (setOrCompareCRC32 inside pMtd uiCRC32) s (.ret q) s') : q.uiCRC32 = uiCRC32 := by
  unfold setOrCompareCRC32 at hrun
  split at hrun
  · obtain ⟨_, s₁, hcompare, hrun⟩ := Ends.split hrun
    obtain ⟨hq, -⟩ := hrun.pure_inv
    unfold mtdPartCompareCRC32 at hcompare
    split at hcompare
    · exact hcompare.exit_inv.elim
    · rename_i hsame
      rw [hq]
      exact (not_not.mp hsame).symm
  · obtain ⟨hq, -⟩ := hrun.pure_inv
    rw [hq]

/-- `MtdPartVerifyFile`. -/
theorem mtdPartVerifyFile_sum {g : Globals} {pMtd q : MtdPartition}
    (hserves : Serves h pMtd.szImageFileName content pos) (hsize : 0 < pMtd.xInfo.erasesize)
    (hrun : Ends h (mtdPartVerifyFile g pMtd) s (.ret q) s') : q.uiCRC32 = crc32 0 content := by
  obtain ⟨pucBuffer, s₁, -, hrun⟩ := Ends.split hrun
  obtain ⟨_, s₂, hopen, hrun⟩ := Ends.split hrun
  obtain ⟨st, s₃, hloop, hrun⟩ := Ends.split hrun
  obtain ⟨_, s₄, -, hrun⟩ := Ends.split hrun
  have huse : ∀ bytes : Bytes, (return () : Flash Unit).Sat Plain AnyReason AnyResult :=
    fun _ => trivial
  rw [setOrCompareCRC32_sum hrun]
  exact fileLoop_sum hserves (fun _ => reads_of_plain) huse hsize (.refl pMtd) rfl
    (openSrc_front hserves hopen) hloop

/-- `MtdPartCopyFile`. -/
theorem mtdPartCopyFile_sum {g : Globals} {pMtd q : MtdPartition} {szDstFileName : Path}
    (hserves : Serves h pMtd.szImageFileName content pos) (hsize : 0 < pMtd.xInfo.erasesize)
    (hrun : Ends h (mtdPartCopyFile g pMtd szDstFileName) s (.ret q) s') :
    q.uiCRC32 = crc32 0 content := by
  obtain ⟨pucBuffer, s₁, -, hrun⟩ := Ends.split hrun
  obtain ⟨_, s₂, hopen, hrun⟩ := Ends.split hrun
  obtain ⟨_, s₃, hcreate, hrun⟩ := Ends.split hrun
  obtain ⟨st, s₄, hloop, hrun⟩ := Ends.split hrun
  obtain ⟨_, s₅, -, hrun⟩ := Ends.split hrun
  obtain ⟨_, s₆, -, hrun⟩ := Ends.split hrun
  split at hrun
  · exact hrun.exit_inv.elim
  · have hfiles : ∀ o : Op, callKind o = .files → callKind o ≠ .reads := fun o ho => by
      rw [ho]
      exact CallKind.noConfusion
    have huse : ∀ bytes, (writeDstOrFail bytes).Sat (fun o => callKind o = .files) AnyReason
        AnyResult := fun bytes => sat_forget (sat_sysOrFail rfl trivial)
    have hcreates : (sysOrFail .mtdPartCopyFile (.openDst szDstFileName) succeeded).Sat
        (fun o => callKind o = .files) AnyReason AnyResult := sat_forget (sat_sysOrFail rfl trivial)
    rw [setOrCompareCRC32_sum hrun]
    exact fileLoop_sum hserves hfiles huse hsize (.refl pMtd) rfl
      ((position_kept hserves hcreate hcreates hfiles).trans (openSrc_front hserves hopen)) hloop

/-- The checksum that `MtdPartWrite` keeps in the record. -/
theorem mtdPartWrite_sum {g : Globals} {pMtd q : MtdPartition}
    (hserves : Serves h pMtd.szImageFileName content pos)
    (hsums : pMtd.cChecksumCalculated = false) (hlength : pMtd.iFileSize = content.length)
    (hrun : Ends h (mtdPartWrite g pMtd) s (.ret q) s') : q.uiCRC32 = crc32 0 content := by
  obtain ⟨_, s₁, -, hrun⟩ := Ends.split hrun
  obtain ⟨_, s₂, hopen, hrun⟩ := Ends.split hrun
  obtain ⟨_, s₃, hseek, hrun⟩ := Ends.split hrun
  obtain ⟨st, s₄, hloop, hrun⟩ := Ends.split hrun
  obtain ⟨_, s₅, -, hrun⟩ := Ends.split hrun
  have hseeks : (sysOrFail .mtdPartWrite (.lseekMtd pMtd.uiPartition) succeeded).Sat Plain
      AnyReason AnyResult := sat_forget (sat_sysOrFail rfl trivial)
  have hfront : pos s₃ = 0 := (position_kept hserves hseek hseeks fun _ => reads_of_plain).trans
    (openSrc_front hserves hopen)
  have hread : st.iBytesReadTotal = pos s₄ ∧ st.uiCRC32 = crc32 0 (content.take (pos s₄)) := by
    refine Ends.loop_invariant
      (I := fun st t => st.iBytesReadTotal = pos t ∧ st.uiCRC32 = crc32 0 (content.take (pos t)))
      (Q := fun st t => st.iBytesReadTotal = pos t ∧ st.uiCRC32 = crc32 0 (content.take (pos t)))
      ?_ ⟨hfront.symm, by rw [hfront, List.take_zero, crc32_nil]⟩ hloop
    intro st t ⟨htotal, hsum⟩ step t' hpass
    have hstep : ∀ st : WriteState,
        st.iBytesReadTotal = pos t' ∧ st.uiCRC32 = crc32 0 (content.take (pos t')) →
        step = st.step pMtd → Sum.elim
          (fun st => st.iBytesReadTotal = pos t' ∧ st.uiCRC32 = crc32 0 (content.take (pos t')))
          (fun st => st.iBytesReadTotal = pos t' ∧ st.uiCRC32 = crc32 0 (content.take (pos t')))
          step := by
      intro st hst hstep
      rw [hstep]
      exact writeState_step_kept
        (I := fun n crc => n = pos t' ∧ crc = crc32 0 (content.take (pos t'))) pMtd st hst
    obtain ⟨bad, t₁, hask, hpass⟩ := Ends.split hpass
    have hasked := position_kept hserves hask (mtdPartIsBadBlock_sat pMtd _) fun _ => reads_of_plain
    cases bad with
    | true =>
      obtain ⟨hresult, ht'⟩ := hpass.pure_inv
      refine hstep st ?_ hresult
      rw [ht', hasked]
      exact ⟨htotal, hsum⟩
    | false =>
      rw [if_neg Bool.false_ne_true] at hpass
      obtain ⟨bytes, t₂, hread, hpass⟩ := Ends.split hpass
      obtain ⟨hmoved, hnext, -⟩ := readSrc_sum hserves hread
      rw [hasked] at hmoved hnext
      split at hpass
      · rename_i hempty
        obtain ⟨hresult, ht'⟩ := hpass.pure_inv
        rw [hempty, List.length_nil, Nat.add_zero] at hmoved
        rw [hresult, ht']
        show st.iBytesReadTotal = pos t₂ ∧ st.uiCRC32 = crc32 0 (content.take (pos t₂))
        rw [hmoved]
        exact ⟨htotal, hsum⟩
      · obtain ⟨_, t₃, hpage, hpass⟩ := Ends.split hpass
        obtain ⟨hresult, ht'⟩ := hpass.pure_inv
        have hpaged := position_kept hserves hpage (writePage_sat g pMtd _ _) fun _ => reads_of_paging
        refine hstep (st.add pMtd bytes.1) ?_ hresult
        rw [ht', hpaged, ← hnext, WriteState.add, hsums, htotal, hsum, hmoved]
        exact ⟨rfl, rfl⟩
  split at hrun
  · exact hrun.exit_inv.elim
  · rename_i hsize
    obtain ⟨hq, -⟩ := hrun.pure_inv
    have htotal : content.length = pos s₄ := hlength.symm.trans ((not_not.mp hsize).trans hread.1)
    rw [hq, recordWritten, if_neg (by rw [hsums]; exact Bool.false_ne_true), hread.2, ← htotal,
      List.take_length]

end Loops

end MetaDigi.FileSums
