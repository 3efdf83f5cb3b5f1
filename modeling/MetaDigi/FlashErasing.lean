import MetaDigi.FlashWriting

/-!
# Erasing a partition

`MtdPartErase` goes over the erase blocks and erases good ones until enough
bytes are erased. On a system that works it erases the first good blocks, as
many as are needed, each of them once. Clean markers are followed as far as
they go to the out-of-band area.
-/

namespace MetaDigi.FlashErasing

open CStrings SystemProgram SystemRuns FlashTypes FlashInit FlashTransfer FlashWorld
open BlockLayout FlashDevice FlashWriting

/-- The offsets of the good erase blocks of a partition. -/
def goodBlocks (env : Env) (part : ℕ) : List ℕ :=
  goodUnits (env.badAt part) (env.info part).erasesize 0 (blockCount env part)

/-- The good blocks have all good bytes. -/
theorem length_goodBlocks (env : Env) (part : ℕ) :
    (goodBlocks env part).length * (env.info part).erasesize = goodBytes env part := rfl

/-- Good blocks are good and lie in the partition. -/
theorem mem_goodBlocks {env : Env} {part : ℕ} (hg : Geometry env part) {o : ℕ}
    (ho : o ∈ goodBlocks env part) :
    env.badAt part o = false ∧ o + (env.info part).erasesize ≤ (env.info part).size := by
  obtain ⟨i, -, hi, hoi, hgood⟩ := (mem_goodUnits _ _ _ _ _).mp ho
  refine ⟨hgood, ?_⟩
  rw [hoi, ← Nat.succ_mul, ← hg.blocks_mul]
  exact Nat.mul_le_mul_right _ (by omega)

/-- The pages that are written lie in the blocks that are erased. -/
theorem page_in_block {env : Env} {part : ℕ} (hg : Geometry env part) {len x : ℕ}
    (hx : x ∈ (goodPages env part).take ((len + pageSize env part - 1) / pageSize env part)) :
    ∃ o ∈ (goodBlocks env part).take
        ((len + (env.info part).erasesize - 1) / (env.info part).erasesize),
      o ≤ x ∧ x + pageSize env part ≤ o + (env.info part).erasesize := by
  obtain ⟨k, hk⟩ := hg.page_dvd
  rw [Nat.mul_comm] at hk
  have hkpos : 0 < k := by
    refine Nat.pos_of_mul_pos_right (b := pageSize env part) ?_
    rw [← hk]
    exact hg.erase_pos
  have hpages := hg.pageCount_eq hk
  have hwalk := goodUnits_pages (env.badAt part) (hg.badAt_page hk) 0 (blockCount env part)
  rw [Nat.zero_mul, ← hk, ← hpages] at hwalk
  have hpagesOf : goodPages env part = (goodBlocks env part).flatMap
      (pagesOfUnit k (pageSize env part)) := hwalk
  rw [hpagesOf] at hx
  obtain ⟨o, ho, hxo⟩ := mem_take_pages hkpos hg.page_pos hx
  rw [← hk] at ho
  obtain ⟨j, hj, rfl⟩ := List.mem_map.mp hxo
  refine ⟨o, ho, Nat.le_add_right .., ?_⟩
  rw [hk, Nat.add_assoc, ← Nat.succ_mul]
  exact Nat.add_le_add_left (Nat.mul_le_mul_right _ (List.mem_range.mp hj)) _

section Erase

variable (g : Globals) (pMtd : MtdPartition)

/-- What is recorded of erasing a block. -/
def eraseEffects (o : ℕ) : List Effect :=
  .erase pMtd.uiPartition o pMtd.xInfo.erasesize ::
    if pMtd.cWriteCleanMarker then
      [.writeOob pMtd.uiPartition ((o + pMtd.uiClMPos) % 2 ^ 32)
        (pMtd.xCleanMarker.take pMtd.uiClMLen)]
    else []

/-- Blocks with erased cells. -/
def erasedBlocks (blocks : List ℕ) : List (ℕ × Bytes) :=
  blocks.map fun o => (o, List.replicate pMtd.xInfo.erasesize flashErasedByte)

/-- The state after blocks have been erased. -/
def afterErases (w : World) (blocks : List ℕ) : World :=
  { w with
    mem := setPart w.mem pMtd.uiPartition
      (putAll (w.mem pMtd.uiPartition) (erasedBlocks pMtd blocks))
    log := w.log ++ blocks.flatMap (eraseEffects pMtd) }

theorem afterErases_nil (w : World) : afterErases pMtd w [] = w := by
  unfold afterErases erasedBlocks
  simp only [putAll, List.map_nil, List.foldl_nil, List.flatMap_nil, List.append_nil, setPart_self]

theorem afterErases_cons (w : World) (o : ℕ) (blocks : List ℕ) :
    afterErases pMtd w (o :: blocks) = afterErases pMtd (afterErases pMtd w [o]) blocks := by
  unfold afterErases erasedBlocks
  simp only [putAll, List.map_cons, List.map_nil, List.foldl_cons, List.foldl_nil,
    List.flatMap_cons, List.flatMap_nil, List.append_nil, List.append_assoc, setPart_same,
    setPart_setPart]

/-- Erasing a range stores erased cells. -/
theorem eraseMem_put (mem : FlashMem) (part start length : ℕ) :
    eraseMem mem part start length =
      setPart mem part (put (mem part) start (List.replicate length flashErasedByte)) := by
  funext q a
  unfold eraseMem setPart put
  by_cases hq : q = part
  · rw [if_pos hq, hq]
    by_cases hle : start ≤ a
    · rw [if_pos hle]
      by_cases hlt : a < start + length
      · rw [if_pos ⟨rfl, hle, hlt⟩, List.getElem?_replicate, if_pos (by omega), Option.getD_some]
      · rw [if_neg fun h => hlt h.2.2, List.getElem?_replicate, if_neg (by omega),
          Option.getD_none]
    · rw [if_neg hle, if_neg fun h => hle h.2.1]
  · rw [if_neg hq, if_neg fun h => hq h.1]

/-- A pass when enough has been erased. -/
theorem erasePass_done {env : Env} {start total : ℕ} {iEraseSize : ℤ} {w : World}
    (hdone : ¬ (total : ℤ) < iEraseSize) :
    Ends (system env) (erasePass g pMtd iEraseSize (start, total)) w (.ret (.inr ())) w := by
  unfold erasePass
  dsimp only
  rw [if_neg hdone]
  exact ends_pure _ _

variable {env : Env} {program : UInt8 → UInt8 → UInt8} (hworks : Works env)
  (hprog : Programs env program) (hdry : g.cDryRun = false)
  (hmarker : pMtd.cWriteCleanMarker = true → pMtd.cIsNAND = true)

include hworks hprog hdry hmarker

/-- A block is erased. -/
theorem eraseBlock_ends (w : World) (o : ℕ) :
    ∃ t, Ends (system env) (eraseBlock g pMtd o) w (.ret ())
      { afterErases pMtd w [o] with time := t } := by
  have herase : Ends (system env) (sysOrFail .mtdPartErase
      (.memErase pMtd.uiPartition o pMtd.xInfo.erasesize) succeeded) w (.ret ())
      { w with
        time := w.time + 1
        mem := setPart w.mem pMtd.uiPartition (putAll (w.mem pMtd.uiPartition)
          (erasedBlocks pMtd [o]))
        log := w.log ++ [.erase pMtd.uiPartition o pMtd.xInfo.erasesize] } := by
    refine succeeded_ends hworks _ _ rfl ?_
    dsimp only [respond, World.touch]
    rw [hprog.erase, eraseMem_put]
    rfl
  unfold eraseBlock
  rw [if_neg (by rw [hdry]; exact Bool.false_ne_true)]
  cases hmark : pMtd.cWriteCleanMarker with
  | false =>
    refine ⟨w.time + 1, Ends.andThen herase ?_⟩
    have hlog : [o].flatMap (eraseEffects pMtd) =
        [.erase pMtd.uiPartition o pMtd.xInfo.erasesize] := by
      rw [List.flatMap_cons, List.flatMap_nil, List.append_nil, eraseEffects, hmark,
        if_neg Bool.false_ne_true]
    unfold afterErases
    rw [if_neg Bool.false_ne_true, hlog]
    exact ends_pure _ _
  | true =>
    refine ⟨w.time + 1 + 1, Ends.andThen herase ?_⟩
    have hlog : [o].flatMap (eraseEffects pMtd) =
        [.erase pMtd.uiPartition o pMtd.xInfo.erasesize] ++
          [.writeOob pMtd.uiPartition ((o + pMtd.uiClMPos) % 2 ^ 32)
            (pMtd.xCleanMarker.take pMtd.uiClMLen)] := by
      rw [List.flatMap_cons, List.flatMap_nil, List.append_nil, eraseEffects, hmark, if_pos rfl]
      rfl
    unfold afterErases
    rw [if_pos rfl, if_pos (hmarker hmark), hlog, ← List.append_assoc]
    refine succeeded_ends hworks _ _ rfl ?_
    dsimp only [respond, World.touch]
    rw [hprog.oob]

variable (hg : Geometry env pMtd.uiPartition) (hd : Describes env pMtd)

include hg hd

omit hprog hdry hmarker in
/-- Asking about a block inside the partition. -/
theorem askBlock_ends {i : ℕ} (hi : i < blockCount env pMtd.uiPartition) (w : World) :
    Ends (system env) (mtdPartIsBadBlock pMtd (i * pMtd.xInfo.erasesize)) w
      (.ret (env.badAt pMtd.uiPartition (i * pMtd.xInfo.erasesize)))
      { w with time := w.time + 1 } := by
  have hpos := hd.erase_pos hg
  have hinside : (i + 1) * pMtd.xInfo.erasesize ≤ (env.info pMtd.uiPartition).size := by
    rw [hd.info, ← hg.blocks_mul]
    exact Nat.mul_le_mul_right _ hi
  rw [Nat.succ_mul] at hinside
  exact mtdPartIsBadBlock_ends hworks pMtd w _ (by omega)

omit hworks hprog hdry hmarker in
/-- The offset behind a block of the partition has not wrapped. -/
theorem nextBlock {i : ℕ} (hi : i < blockCount env pMtd.uiPartition) :
    (i * pMtd.xInfo.erasesize + pMtd.xInfo.erasesize) % 2 ^ 32 =
      (i + 1) * pMtd.xInfo.erasesize := by
  have hinside : (i + 1) * pMtd.xInfo.erasesize ≤ pMtd.xInfo.size := by
    rw [hd.info, ← hg.blocks_mul]
    exact Nat.mul_le_mul_right _ hi
  rw [← Nat.succ_mul, Nat.mod_eq_of_lt (Nat.lt_of_le_of_lt hinside pMtd.xInfo.size_lt)]

section Pass

variable {i total : ℕ} {iEraseSize : ℤ} {w : World} (hi : i < blockCount env pMtd.uiPartition)
  (hmore : (total : ℤ) < iEraseSize)

include hi hmore

omit hprog hdry hmarker in
/-- A pass over a bad block. -/
theorem erasePass_bad (hbad : env.badAt pMtd.uiPartition (i * pMtd.xInfo.erasesize) = true) :
    Ends (system env) (erasePass g pMtd iEraseSize (i * pMtd.xInfo.erasesize, total)) w
      (.ret (.inl ((i + 1) * pMtd.xInfo.erasesize, total))) { w with time := w.time + 1 } := by
  have hask := askBlock_ends pMtd hworks hg hd hi w
  rw [hbad] at hask
  unfold erasePass
  dsimp only
  rw [if_pos hmore, nextBlock pMtd hg hd hi]
  exact Ends.andThen hask (ends_pure _ _)

/-- A pass over a good block. -/
theorem erasePass_good (hbad : env.badAt pMtd.uiPartition (i * pMtd.xInfo.erasesize) = false) :
    ∃ t, Ends (system env) (erasePass g pMtd iEraseSize (i * pMtd.xInfo.erasesize, total)) w
      (.ret (.inl ((i + 1) * pMtd.xInfo.erasesize, total + pMtd.xInfo.erasesize)))
      { afterErases pMtd w [i * pMtd.xInfo.erasesize] with time := t } := by
  have hask := askBlock_ends pMtd hworks hg hd hi w
  rw [hbad] at hask
  obtain ⟨t, herase⟩ := eraseBlock_ends g pMtd hworks hprog hdry hmarker
    { w with time := w.time + 1 } (i * pMtd.xInfo.erasesize)
  refine ⟨t, ?_⟩
  unfold erasePass
  dsimp only
  rw [if_pos hmore, nextBlock pMtd hg hd hi]
  exact Ends.andThen hask (Ends.andThen herase (ends_pure _ _))

end Pass

/-- The loop over the remaining blocks, when enough of them are good. -/
theorem eraseLoop_ends (k i total fuel : ℕ) {iEraseSize : ℕ} {w : World}
    (hk : i + k = blockCount env pMtd.uiPartition) (hfuel : k < fuel)
    (hroom : iEraseSize ≤ total + (goodUnits (env.badAt pMtd.uiPartition) pMtd.xInfo.erasesize
      i k).length * pMtd.xInfo.erasesize) :
    ∃ t, Ends (system env) (Prog.loop (erasePass g pMtd iEraseSize) fuel
        (i * pMtd.xInfo.erasesize, total)) w (.ret ())
      { afterErases pMtd w
          ((goodUnits (env.badAt pMtd.uiPartition) pMtd.xInfo.erasesize i k).take
            ((iEraseSize - total + pMtd.xInfo.erasesize - 1) / pMtd.xInfo.erasesize)) with
        time := t } := by
  have hpos := hd.erase_pos hg
  induction k generalizing i total fuel w with
  | zero =>
    obtain ⟨fuel, rfl⟩ := Nat.exists_eq_add_one_of_ne_zero (Nat.ne_of_gt hfuel)
    rw [goodUnits, List.length_nil, Nat.zero_mul] at hroom
    rw [goodUnits, List.take_nil, afterErases_nil]
    exact ⟨w.time, (erasePass_done g pMtd (by omega)).loop_last⟩
  | succ k ih =>
    obtain ⟨fuel, rfl⟩ := Nat.exists_eq_add_one_of_ne_zero (Nat.ne_of_gt (by omega : 0 < fuel))
    have hi : i < blockCount env pMtd.uiPartition := by omega
    by_cases hmore : total < iEraseSize
    · cases hbad : env.badAt pMtd.uiPartition (i * pMtd.xInfo.erasesize) with
      | true =>
        rw [goodUnits_bad _ _ hbad] at hroom ⊢
        obtain ⟨t, hrest⟩ := ih (i + 1) total fuel (w := { w with time := w.time + 1 })
          (by omega) (by omega) hroom
        have hpass := erasePass_bad g pMtd hworks hg hd (w := w) hi (Int.ofNat_lt.mpr hmore) hbad
        exact ⟨t, hpass.loop_next hrest⟩
      | false =>
        rw [goodUnits_good _ _ hbad] at hroom ⊢
        rw [List.length_cons, Nat.succ_mul] at hroom
        obtain ⟨t₁, hpass⟩ := erasePass_good g pMtd hworks hprog hdry hmarker hg hd (w := w) hi
          (Int.ofNat_lt.mpr hmore) hbad
        obtain ⟨t, hrest⟩ := ih (i + 1) (total + pMtd.xInfo.erasesize) fuel
          (w := { afterErases pMtd w [i * pMtd.xInfo.erasesize] with time := t₁ })
          (by omega) (by omega) (by omega)
        have hcount : (iEraseSize - total + pMtd.xInfo.erasesize - 1) / pMtd.xInfo.erasesize =
            (iEraseSize - (total + pMtd.xInfo.erasesize) + pMtd.xInfo.erasesize - 1) /
              pMtd.xInfo.erasesize + 1 := by
          rw [ceil_sub hpos (by omega), Nat.sub_sub]
        refine ⟨t, ?_⟩
        rw [hcount, List.take_succ_cons, afterErases_cons]
        exact hpass.loop_next hrest
    · have hzero : iEraseSize - total = 0 := by omega
      have hnone : (pMtd.xInfo.erasesize - 1) / pMtd.xInfo.erasesize = 0 :=
        Nat.div_eq_of_lt (by omega)
      rw [hzero, Nat.zero_add, hnone, List.take_zero, afterErases_nil]
      exact ⟨w.time, (erasePass_done g pMtd (by omega)).loop_last⟩

/-- `MtdPartErase` erases as many of the first good blocks as are needed, on a
system that works. -/
theorem mtdPartErase_ends (w : World) {iEraseSize : ℕ} (hsize : eraseSize pMtd = iEraseSize)
    (hroom : iEraseSize ≤ goodBytes env pMtd.uiPartition)
    (hfuel : blockCount env pMtd.uiPartition < g.fuel) :
    ∃ t, Ends (system env) (mtdPartErase g pMtd) w (.ret ())
      { afterErases pMtd w ((goodBlocks env pMtd.uiPartition).take
          ((iEraseSize + pMtd.xInfo.erasesize - 1) / pMtd.xInfo.erasesize)) with time := t } := by
  have hblocks : goodUnits (env.badAt pMtd.uiPartition) pMtd.xInfo.erasesize 0
      (blockCount env pMtd.uiPartition) = goodBlocks env pMtd.uiPartition := by
    rw [hd.info, goodBlocks]
  have hneeded : iEraseSize ≤ (goodUnits (env.badAt pMtd.uiPartition) pMtd.xInfo.erasesize 0
      (blockCount env pMtd.uiPartition)).length * pMtd.xInfo.erasesize := by
    rw [hblocks, hd.info, length_goodBlocks]
    exact hroom
  have hloop := eraseLoop_ends g pMtd hworks hprog hdry hmarker hg hd
    (blockCount env pMtd.uiPartition) 0 0 g.fuel (w := w) (Nat.zero_add _) hfuel (hneeded.trans
      (Nat.zero_add _).ge)
  rw [Nat.zero_mul, hblocks, Nat.sub_zero, ← hsize] at hloop
  exact hloop

end Erase

end MetaDigi.FlashErasing
