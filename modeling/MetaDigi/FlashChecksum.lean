import MetaDigi.FlashDevice

/-!
# Summing a partition

`MtdPartCheckCRC32` walks over the erase blocks and sums as many good bytes as
the image has. Before the pass at block `i` it has summed the good bytes below
that block, cut to the size of the image; the loop ends inside the partition
when the image fits into the good bytes.
-/

namespace MetaDigi.FlashChecksum

open CStrings SystemProgram SystemRuns FlashTypes FlashInit FlashTransfer FlashWorld
open BlockLayout FlashDevice Crc32

section Invariant

variable (env : Env) (pMtd : MtdPartition) (mem : FlashMem)

/-- The good cells of the first erase blocks. -/
def goodBelow (i : ℕ) : Bytes :=
  goodCells (mem pMtd.uiPartition) (env.badAt pMtd.uiPartition) pMtd.xInfo.erasesize 0 i

/-- The loop has summed the good cells below a block, as far as the image
goes. -/
structure Summed (i : ℕ) (st : CheckState) : Prop where
  /-- The loop is at the start of the block. -/
  offset : st.iOffsMtd = i * pMtd.xInfo.erasesize
  /-- So many bytes have been summed. -/
  total : st.iBytesReadTotal = min pMtd.iFileSize (goodBelow env pMtd mem i).length
  /-- This is their checksum. -/
  sum : st.uiCRC32 = crc32 0 ((goodBelow env pMtd mem i).take pMtd.iFileSize)

variable {env pMtd mem} {i : ℕ} {st : CheckState}

/-- Nothing has been summed at the start. -/
theorem summed_start : Summed env pMtd mem 0 {} where
  offset := (Nat.zero_mul _).symm
  total := (Nat.min_eq_right (Nat.zero_le _)).symm
  sum := by
    have hnil : goodBelow env pMtd mem 0 = [] := rfl
    rw [hnil, List.take_nil, crc32_nil]

/-- The good cells below the next block. -/
theorem goodBelow_succ (i : ℕ) :
    goodBelow env pMtd mem (i + 1) = goodBelow env pMtd mem i ++
      if env.badAt pMtd.uiPartition (i * pMtd.xInfo.erasesize) then []
      else unitCells (mem pMtd.uiPartition) pMtd.xInfo.erasesize (i * pMtd.xInfo.erasesize) := by
  rw [goodBelow, goodBelow, goodCells_add, Nat.zero_add, goodCells_one]

/-- A bad block is stepped over. -/
theorem Summed.skip (h : Summed env pMtd mem i st)
    (hbad : env.badAt pMtd.uiPartition (i * pMtd.xInfo.erasesize) = true) :
    Summed env pMtd mem (i + 1)
      { st with iOffsMtd := st.iOffsMtd + pMtd.xInfo.erasesize } := by
  have hsame : goodBelow env pMtd mem (i + 1) = goodBelow env pMtd mem i := by
    rw [goodBelow_succ, if_pos hbad, List.append_nil]
  refine ⟨?_, ?_, ?_⟩
  · dsimp only
    rw [h.offset, Nat.succ_mul]
  · rw [hsame]
    exact h.total
  · rw [hsame]
    exact h.sum

/-- A good block is summed, as far as the image goes. -/
theorem Summed.sumBlock (h : Summed env pMtd mem i st)
    (hgood : env.badAt pMtd.uiPartition (i * pMtd.xInfo.erasesize) = false) {bytes : Bytes}
    (hbytes : bytes = unitCells (mem pMtd.uiPartition) pMtd.xInfo.erasesize
      (i * pMtd.xInfo.erasesize)) :
    Summed env pMtd mem (i + 1) { st.add pMtd bytes with
      iOffsMtd := (st.add pMtd bytes).iOffsMtd + pMtd.xInfo.erasesize } := by
  have hnext : goodBelow env pMtd mem (i + 1) = goodBelow env pMtd mem i ++ bytes := by
    rw [goodBelow_succ, if_neg (by rw [hgood]; exact Bool.false_ne_true), ← hbytes]
  have hlength : (goodBelow env pMtd mem (i + 1)).length =
      (goodBelow env pMtd mem i).length + bytes.length := by
    rw [hnext, List.length_append]
  have htotal := h.total
  refine ⟨?_, ?_, ?_⟩
  · dsimp only [CheckState.add]
    rw [h.offset, Nat.succ_mul]
  · dsimp only [CheckState.add]
    rw [hlength]
    split <;> omega
  · have htaken : (bytes.take (if st.iBytesReadTotal + bytes.length > pMtd.iFileSize then
        pMtd.iFileSize - st.iBytesReadTotal else bytes.length)) =
        bytes.take (pMtd.iFileSize - (goodBelow env pMtd mem i).length) := by
      split
      · rcases Nat.le_total pMtd.iFileSize (goodBelow env pMtd mem i).length with hle | hle
        · congr 1
          omega
        · congr 1
          omega
      · rw [List.take_length, List.take_of_length_le (by omega)]
    dsimp only [CheckState.add]
    rw [htaken, h.sum, crc32_append, hnext, List.take_append]

/-- Once the loop has enough bytes, the checksum is that of the image. -/
theorem Summed.enough (hg : Geometry env pMtd.uiPartition) (hd : Describes env pMtd)
    (h : Summed env pMtd mem i st) (hi : i ≤ blockCount env pMtd.uiPartition)
    (hdone : pMtd.iFileSize ≤ st.iBytesReadTotal) :
    st.uiCRC32 = crc32 0 ((image env pMtd.uiPartition mem).take pMtd.iFileSize) := by
  obtain ⟨k, hk⟩ := Nat.exists_eq_add_of_le hi
  have hcells : image env pMtd.uiPartition mem = goodBelow env pMtd mem i ++
      goodCells (mem pMtd.uiPartition) (env.badAt pMtd.uiPartition)
        (env.info pMtd.uiPartition).erasesize (0 + i) k := by
    rw [hg.image_blocks, hk, goodCells_add, goodBelow, hd.info]
  have hlong : pMtd.iFileSize ≤ (goodBelow env pMtd mem i).length := by
    have htotal := h.total
    omega
  rw [h.sum, hcells, List.take_append_of_le_length hlong]

/-- At the end of the partition the loop has enough bytes. -/
theorem Summed.total_at_end (hg : Geometry env pMtd.uiPartition) (hd : Describes env pMtd)
    (hfits : pMtd.iFileSize ≤ goodBytes env pMtd.uiPartition)
    (h : Summed env pMtd mem (blockCount env pMtd.uiPartition) st) :
    pMtd.iFileSize ≤ st.iBytesReadTotal := by
  have hall : (goodBelow env pMtd mem (blockCount env pMtd.uiPartition)).length =
      goodBytes env pMtd.uiPartition := by
    rw [goodBelow, hd.info, ← hg.image_blocks, hg.length_image]
  rw [h.total, hall]
  omega

end Invariant

section Compare

variable {σ : Type} {h : Handler Op Resp σ} {inside : Func} (pMtd : MtdPartition) {crc : Crc}
  {s s' : σ}

/-- The checksum of the record is accepted. -/
theorem compare_same (hcrc : crc = pMtd.uiCRC32) :
    Ends h (mtdPartCompareCRC32 inside pMtd crc) s (.ret ()) s := by
  unfold mtdPartCompareCRC32
  rw [if_neg (not_not.mpr hcrc)]
  exact ends_pure _ _

/-- Any other checksum is rejected. -/
theorem compare_differs (hcrc : crc ≠ pMtd.uiCRC32) :
    Ends h (mtdPartCompareCRC32 inside pMtd crc) s
      (.exit (.crcMismatch inside pMtd.szImageFileName pMtd.uiCRC32 crc)) s := by
  unfold mtdPartCompareCRC32
  rw [if_pos hcrc]
  exact ends_exit _ _

theorem compare_inv {u : Unit}
    (hrun : Ends h (mtdPartCompareCRC32 inside pMtd crc) s (.ret u) s') :
    crc = pMtd.uiCRC32 ∧ s' = s := by
  unfold mtdPartCompareCRC32 at hrun
  split at hrun
  · exact hrun.exit_inv.elim
  · rename_i hcrc
    exact ⟨not_not.mp hcrc, hrun.pure_inv.2⟩

end Compare

section Run

variable {env : Env} (pMtd : MtdPartition) (hg : Geometry env pMtd.uiPartition)
  (hd : Describes env pMtd) (hfits : pMtd.iFileSize ≤ goodBytes env pMtd.uiPartition)

include hg hd

/-- The start of a block lies in the partition. -/
theorem block_inside {i : ℕ} (hi : i < blockCount env pMtd.uiPartition) :
    i * pMtd.xInfo.erasesize + pMtd.xInfo.erasesize ≤ (env.info pMtd.uiPartition).size := by
  rw [← Nat.succ_mul, hd.info, ← hg.blocks_mul]
  exact Nat.mul_le_mul_right _ hi

/-- One pass of the loop at a block, on a system that works. -/
theorem checkPass_ends (hworks : Works env) {i : ℕ} {st : CheckState} {w : World}
    (h : Summed env pMtd w.mem i st) (hi : i < blockCount env pMtd.uiPartition) :
    ∃ t st', Summed env pMtd w.mem (i + 1) st' ∧
      Ends (system env) (checkPass pMtd st) w
        (.ret (if pMtd.iFileSize > st'.iBytesReadTotal then .inl st' else .inr st'.uiCRC32))
        { w with time := t } := by
  have hinside := block_inside pMtd hg hd hi
  have herase : 0 < pMtd.xInfo.erasesize := by
    rw [hd.info]
    exact hg.erase_pos
  have hask := mtdPartIsBadBlock_ends hworks pMtd w st.iOffsMtd
    (by rw [h.offset]; omega)
  cases hbad : env.badAt pMtd.uiPartition st.iOffsMtd with
  | true =>
    rw [hbad] at hask
    rw [h.offset] at hbad
    exact ⟨w.time + 1, _, h.skip hbad, Ends.andThen hask (ends_pure _ _)⟩
  | false =>
    rw [hbad] at hask
    rw [h.offset] at hbad
    obtain ⟨bytes, hbytes, hread⟩ := pread_ends hworks { w with time := w.time + 1 }
      .mtdPartCheckCRC32 pMtd.uiPartition pMtd.xInfo.erasesize st.iOffsMtd
    rw [h.offset, readMem_inside _ hinside] at hbytes
    exact ⟨w.time + 1 + 1, _, h.sumBlock hbad hbytes,
      Ends.andThen hask (Ends.andThen hread (ends_pure _ _))⟩

include hfits

/-- The loop sums the image, on a system that works. -/
theorem checkLoop_ends (hworks : Works env) (k i fuel : ℕ) {st : CheckState} {w : World}
    (h : Summed env pMtd w.mem i st) (hi : i + k + 1 = blockCount env pMtd.uiPartition)
    (hfuel : k < fuel) :
    ∃ t, Ends (system env) (Prog.loop (checkPass pMtd) fuel st) w
      (.ret (crc32 0 ((image env pMtd.uiPartition w.mem).take pMtd.iFileSize)))
      { w with time := t } := by
  induction k generalizing i fuel st w with
  | zero =>
    obtain ⟨fuel, rfl⟩ := Nat.exists_eq_add_one_of_ne_zero (Nat.ne_of_gt hfuel)
    obtain ⟨t, st', hst', hpass⟩ := checkPass_ends pMtd hg hd hworks h (by omega)
    have hend : i + 1 = blockCount env pMtd.uiPartition := hi
    have hdone : pMtd.iFileSize ≤ st'.iBytesReadTotal :=
      (hend ▸ hst').total_at_end hg hd hfits
    rw [if_neg (by omega), hst'.enough hg hd (by omega) hdone] at hpass
    exact ⟨t, hpass.loop_last⟩
  | succ k ih =>
    obtain ⟨fuel, rfl⟩ := Nat.exists_eq_add_one_of_ne_zero (Nat.ne_of_gt (by omega : 0 < fuel))
    obtain ⟨t, st', hst', hpass⟩ := checkPass_ends pMtd hg hd hworks h (by omega)
    by_cases hmore : pMtd.iFileSize > st'.iBytesReadTotal
    · rw [if_pos hmore] at hpass
      obtain ⟨t', hrest⟩ := ih (i + 1) fuel (w := { w with time := t }) hst' (by omega) (by omega)
      exact ⟨t', hpass.loop_next hrest⟩
    · rw [if_neg hmore, hst'.enough hg hd (by omega) (by omega)] at hpass
      exact ⟨t, hpass.loop_last⟩

/-- A loop that has returned has summed the image, on any system. -/
theorem checkLoop_inv {fuel : ℕ} {w w' : World} {uiCRC32 : Crc}
    (hrun : Ends (system env) (Prog.loop (checkPass pMtd) fuel {}) w (.ret uiCRC32) w') :
    uiCRC32 = crc32 0 ((image env pMtd.uiPartition w.mem).take pMtd.iFileSize) ∧
      w'.mem = w.mem ∧ w'.lastRead = w.lastRead := by
  have hcount := hg.blockCount_pos
  refine Ends.loop_invariant
    (I := fun st v => ∃ i < blockCount env pMtd.uiPartition, Summed env pMtd w.mem i st ∧
      v.mem = w.mem ∧ v.lastRead = w.lastRead)
    (Q := fun crc v => crc = crc32 0 ((image env pMtd.uiPartition w.mem).take pMtd.iFileSize) ∧
      v.mem = w.mem ∧ v.lastRead = w.lastRead) ?_ ⟨0, hcount, summed_start, rfl, rfl⟩ hrun
  rintro st v ⟨i, hi, hst, hmem, hread⟩ step v' hpass
  have hnext : ∀ st', Summed env pMtd w.mem (i + 1) st' → v'.mem = w.mem →
      v'.lastRead = w.lastRead →
      step = (if pMtd.iFileSize > st'.iBytesReadTotal then .inl st' else .inr st'.uiCRC32) →
      Sum.elim (fun st => ∃ i < blockCount env pMtd.uiPartition, Summed env pMtd w.mem i st ∧
          v'.mem = w.mem ∧ v'.lastRead = w.lastRead)
        (fun crc => crc = crc32 0 ((image env pMtd.uiPartition w.mem).take pMtd.iFileSize) ∧
          v'.mem = w.mem ∧ v'.lastRead = w.lastRead) step := by
    intro st' hst' hmem' hread' hstep
    rw [hstep]
    split
    · rename_i hmore
      refine ⟨i + 1, ?_, hst', hmem', hread'⟩
      rcases Nat.lt_or_ge (i + 1) (blockCount env pMtd.uiPartition) with hlt | hge
      · exact hlt
      · have hend : i + 1 = blockCount env pMtd.uiPartition := by omega
        have hdone := (hend ▸ hst').total_at_end hg hd hfits
        omega
    · exact ⟨hst'.enough hg hd (by omega) (by omega), hmem', hread'⟩
  obtain ⟨bad, v₁, hask, hrest⟩ := Ends.split hpass
  obtain ⟨hbad, hv₁⟩ := mtdPartIsBadBlock_inv hask
  rw [hst.offset] at hbad
  cases bad with
  | true =>
    obtain ⟨hstep, hv'⟩ := hrest.pure_inv
    rw [hv₁] at hv'
    exact hnext _ (hst.skip hbad.symm) (by rw [hv']; exact hmem) (by rw [hv']; exact hread) hstep
  | false =>
    obtain ⟨bytes, v₂, hpread, hlast⟩ := Ends.split hrest
    obtain ⟨hbytes, hv₂⟩ := pread_inv hpread
    obtain ⟨hstep, hv'⟩ := hlast.pure_inv
    have hmem₁ : v₁.mem = w.mem := by rw [hv₁]; exact hmem
    have hkeep : v'.mem = w.mem ∧ v'.lastRead = w.lastRead := by
      rw [hv', hv₂, hv₁]
      exact ⟨hmem, hread⟩
    rw [hst.offset, readMem_inside _ (block_inside pMtd hg hd hi), hmem₁] at hbytes
    exact hnext _ (hst.sumBlock hbad.symm hbytes) hkeep.1 hkeep.2 hstep

/-- What `MtdPartCheckCRC32` does to the record: the partition is opened
anew. -/
def reopened (g : Globals) (pMtd : MtdPartition) : MtdPartition :=
  { pMtd with acName := g.szMtdPrefix ++ decimal pMtd.uiPartition, isOpen := true }

/-- `MtdPartCheckCRC32` compares the checksum of the image in flash with the
record, on a system that works. -/
theorem mtdPartCheckCRC32_ends (hworks : Works env) (g : Globals) (w : World)
    (hfuel : blockCount env pMtd.uiPartition ≤ g.fuel) :
    ∃ t, Ends (system env) (mtdPartCheckCRC32 g pMtd) w
      (if crc32 0 ((image env pMtd.uiPartition w.mem).take pMtd.iFileSize) = pMtd.uiCRC32 then
        .ret (reopened g pMtd)
      else .exit (.crcMismatch .mtdPartCheckCRC32 pMtd.szImageFileName pMtd.uiCRC32
        (crc32 0 ((image env pMtd.uiPartition w.mem).take pMtd.iFileSize))))
      { w with time := t } := by
  have hcount := hg.blockCount_pos
  have hmalloc := malloc_ends hworks w .mtdPartCheckCRC32 pMtd.xInfo.erasesize
  have hclose := mtdPartClose_ends hworks pMtd { w with time := w.time + 1 }
  have hopen := mtdPartOpen_ends hworks { pMtd with isOpen := false }
    { w with time := w.time + 1 + 1 } g true rfl
  have hdq : Describes env (reopened g pMtd) := ⟨hd.info, hd.nand, hd.page⟩
  obtain ⟨t, hloop⟩ := checkLoop_ends (reopened g pMtd) hg hdq hfits hworks
    (blockCount env pMtd.uiPartition - 1) 0 g.fuel (w := { w with time := w.time + 1 + 1 + 1 })
    summed_start (by dsimp only [reopened]; omega) (by omega)
  refine ⟨t, Ends.andThen hmalloc (Ends.andThen hclose (Ends.andThen hopen
    (Ends.andThen hloop ?_)))⟩
  by_cases hcrc : crc32 0 ((image env pMtd.uiPartition w.mem).take pMtd.iFileSize) = pMtd.uiCRC32
  · rw [if_pos hcrc]
    exact Ends.andThen (compare_same (reopened g pMtd) hcrc) (ends_pure _ _)
  · rw [if_neg hcrc]
    exact Ends.andThen_exit (compare_differs (reopened g pMtd) hcrc)

/-- When `MtdPartCheckCRC32` has returned, the image in flash has the checksum
of the record, on any system. -/
theorem mtdPartCheckCRC32_inv {g : Globals} {w w' : World} {q : MtdPartition}
    (hrun : Ends (system env) (mtdPartCheckCRC32 g pMtd) w (.ret q) w') :
    crc32 0 ((image env pMtd.uiPartition w.mem).take pMtd.iFileSize) = pMtd.uiCRC32 ∧
      w'.mem = w.mem ∧ w'.lastRead = w.lastRead := by
  obtain ⟨cells, w₁, hmalloc, hrun⟩ := Ends.split hrun
  obtain ⟨p₁, w₂, hclose, hrun⟩ := Ends.split hrun
  obtain ⟨p₂, w₃, hopen, hrun⟩ := Ends.split hrun
  obtain ⟨crc, w₄, hloop, hrun⟩ := Ends.split hrun
  obtain ⟨_, w₅, hcompare, hrun⟩ := Ends.split hrun
  have hw₁ := malloc_inv hmalloc
  obtain ⟨hp₁, hw₂⟩ := mtdPartClose_inv hclose
  obtain ⟨hp₂, hw₃⟩ := mtdPartOpen_inv hopen
  rw [hp₁] at hp₂
  rw [hp₂] at hloop hcompare
  have hdq : Describes env (reopened g pMtd) := ⟨hd.info, hd.nand, hd.page⟩
  obtain ⟨hcrc, hmem, hread⟩ := checkLoop_inv (reopened g pMtd) hg hdq hfits hloop
  have hstart : w₃.mem = w.mem ∧ w₃.lastRead = w.lastRead := by
    rw [hw₃, hw₂, hw₁]
    exact ⟨rfl, rfl⟩
  obtain ⟨_, hw'⟩ := hrun.pure_inv
  obtain ⟨hsame, hw₅⟩ := compare_inv _ hcompare
  rw [hstart.1] at hcrc
  refine ⟨hcrc.symm.trans hsame, ?_, ?_⟩
  · rw [hw', hw₅, hmem, hstart.1]
  · rw [hw', hw₅, hread, hstart.2]

end Run

end MetaDigi.FlashChecksum
