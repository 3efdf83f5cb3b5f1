import MetaDigi.FlashMarkers
import MetaDigi.FileSums

/-!
# What a JFFS2 image must look like

`MtdPartVerifyFile` reads an image by erase blocks and looks at the front of
each of them, and on NOR memory for clean markers inside. On NAND it stops
looking once it has warned; the marker it would warn about is made of zeros,
and a block with zeros in front is refused, so it never stops. The loop over
the offsets inside a block is also given with the memory, the integers and the
passes that the source has.
-/

namespace MetaDigi.FlashGate

open CStrings SystemProgram SystemRuns FlashTypes FlashInit FlashTransfer FlashWorld FlashMarkers
open FlashDevice FlashEffects FlashVerifying FileSums CheckedMemory

section Doubling

/-- How the loop over the offsets can go wrong. -/
inductive Stray where
  /-- It reads outside of a block of memory. -/
  | access (fault : Fault)
  /-- An `int` overflows. -/
  | overflow (iOffs : ℕ)
  /-- It is still running after the passes allowed to it. -/
  | running
  deriving DecidableEq, Repr

/-- The loop of `MemCmp`, with `pvS1` at an address of one block of memory and
`pvS2` at the start of another, with the bytes left and the offset. -/
def loadMemCmp (block1 : Bytes) (pvS1 : ℕ) (block2 : Bytes) : ℕ → ℕ → Except Fault (Option ℕ)
  | 0, _ => return none
  | left + 1, iOffset => do
    let c2 ← load block2 iOffset
    let c1 ← load block1 (pvS1 + iOffset)
    if c2 ≠ c1 then return some iOffset else loadMemCmp block1 pvS1 block2 left (iOffset + 1)

/-- The loop of `MtdPartVerifyJFFS2Block` over the offsets, for a block of
memory with just the data. The bound is taken in the unsigned integers of 32
bits. -/
def doublingLoop (pucData xCleanMarker : Bytes) (iSize : ℕ) : ℕ → ℕ → Except Stray (Option ℕ)
  | 0, _ => .error .running
  | passes + 1, iOffs =>
    if iOffs < (iSize + (2 ^ 32 - 4)) % 2 ^ 32 then
      match loadMemCmp pucData iOffs xCleanMarker 4 0 with
      | .error fault => .error (.access fault)
      | .ok none => .ok (some iOffs)
      | .ok (some _) =>
        if iOffs * 2 < 2 ^ 31 then doublingLoop pucData xCleanMarker iSize passes (iOffs * 2)
        else .error (.overflow iOffs)
    else .ok none

/-- Inside both blocks the loop of `MemCmp` answers, and without a difference
just when the bytes are the same. -/
theorem loadMemCmp_inside (block1 : Bytes) (pvS1 : ℕ) (block2 : Bytes) (left iOffset : ℕ)
    (h1 : pvS1 + iOffset + left ≤ block1.length) (h2 : iOffset + left ≤ block2.length) :
    ∃ differs, loadMemCmp block1 pvS1 block2 left iOffset = .ok differs ∧
      (differs = none ↔
        (block2.drop iOffset).take left = (block1.drop (pvS1 + iOffset)).take left) := by
  induction left generalizing iOffset with
  | zero => exact ⟨none, rfl, iff_of_true rfl (by rw [List.take_zero, List.take_zero])⟩
  | succ left ih =>
    have hin1 : pvS1 + iOffset < block1.length := by omega
    have hin2 : iOffset < block2.length := by omega
    have hload1 : load block1 (pvS1 + iOffset) = .ok block1[pvS1 + iOffset] := dif_pos hin1
    have hload2 : load block2 iOffset = .ok block2[iOffset] := dif_pos hin2
    unfold loadMemCmp
    rw [hload1, hload2, List.drop_eq_getElem_cons hin1, List.drop_eq_getElem_cons hin2,
      List.take_succ_cons, List.take_succ_cons, List.cons.injEq]
    dsimp only [bind, Except.bind]
    by_cases hsame : block2[iOffset] = block1[pvS1 + iOffset]
    · obtain ⟨differs, hrest, hiff⟩ := ih (iOffset + 1) (by omega) (by omega)
      rw [if_neg (not_not.mpr hsame)]
      exact ⟨differs, hrest, hiff.trans (and_iff_right hsame).symm⟩
    · rw [if_pos hsame]
      exact ⟨some iOffset, rfl, iff_of_false nofun fun h => hsame h.1⟩

/-- For a block of up to a gigabyte that begins with four bytes the loop ends,
and reads nothing outside of the data; what the buffer holds behind them does
not matter. The bound on the passes falls as the offset is doubled. -/
theorem doublingLoop_inside {pucData xCleanMarker : Bytes} (rest : Bytes)
    (hfour : 4 ≤ pucData.length) (hbound : pucData.length ≤ 2 ^ 30)
    (hmarker : 4 ≤ xCleanMarker.length) (n iOffs passes : ℕ) (hoffset : 2 ^ 30 ≤ iOffs * 2 ^ n)
    (hpasses : n < passes) :
    doublingLoop pucData xCleanMarker pucData.length passes iOffs =
      .ok (findCleanMarker (pucData ++ rest) xCleanMarker pucData.length (n + 1) iOffs) := by
  have hwrap : (pucData.length + (2 ^ 32 - 4)) % 2 ^ 32 = pucData.length - 4 := by
    have hsum : pucData.length + (2 ^ 32 - 4) = (pucData.length - 4) + 2 ^ 32 := by omega
    rw [hsum, Nat.add_mod_right, Nat.mod_eq_of_lt (by omega)]
  induction n generalizing iOffs passes with
  | zero =>
    obtain ⟨passes, rfl⟩ := Nat.exists_eq_add_one_of_ne_zero (Nat.ne_of_gt hpasses)
    unfold doublingLoop findCleanMarker
    rw [hwrap, if_neg (by omega), if_neg (by omega)]
  | succ n ih =>
    obtain ⟨passes, rfl⟩ := Nat.exists_eq_add_one_of_ne_zero (Nat.ne_of_gt (by omega : 0 < passes))
    unfold doublingLoop findCleanMarker
    rw [hwrap]
    by_cases hmore : iOffs < pucData.length - 4
    · obtain ⟨differs, hload, hiff⟩ := loadMemCmp_inside pucData iOffs xCleanMarker 4 0 (by omega)
        (by omega)
      have hfront : ((pucData ++ rest).drop iOffs).take 4 = (pucData.drop iOffs).take 4 := by
        rw [List.drop_append_of_le_length (by omega), List.take_append_of_le_length]
        rw [List.length_drop]
        omega
      rw [if_pos hmore, if_pos hmore, hload]
      rw [Nat.add_zero, List.drop_zero, ← hfront, ← memCmp_none_iff] at hiff
      cases differs with
      | none =>
        dsimp only
        rw [if_pos (hiff.mp rfl)]
      | some offset =>
        have hnone : ¬memCmp ((pucData ++ rest).drop iOffs) xCleanMarker 4 = none := fun h =>
          absurd (hiff.mpr h) nofun
        dsimp only
        rw [if_neg hnone, if_pos (by omega)]
        exact ih (iOffs * 2) passes (by rw [Nat.mul_assoc, ← Nat.pow_succ']; exact hoffset) (by omega)
    · rw [if_neg hmore, if_neg hmore]

/-- The loop finds nothing when no offset that it comes to has a marker. -/
theorem findCleanMarker_none_iff (pucData xCleanMarker : Bytes) (iSize left iOffs : ℕ)
    (hoffset : 0 < iOffs) :
    findCleanMarker pucData xCleanMarker iSize left iOffs = none ↔
      ∀ k < left, iOffs * 2 ^ k + 4 < iSize →
        xCleanMarker.take 4 ≠ (pucData.drop (iOffs * 2 ^ k)).take 4 := by
  induction left generalizing iOffs with
  | zero => exact iff_of_true rfl fun k hk => absurd hk (Nat.not_lt_zero k)
  | succ left ih =>
    unfold findCleanMarker
    by_cases hmore : iOffs < iSize - 4
    · rw [if_pos hmore]
      by_cases hmark : memCmp (pucData.drop iOffs) xCleanMarker 4 = none
      · rw [if_pos hmark]
        refine iff_of_false nofun fun hall => ?_
        have hfirst := hall 0 (Nat.zero_lt_succ left)
        rw [Nat.pow_zero, Nat.mul_one] at hfirst
        exact hfirst (by omega) ((memCmp_none_iff _ _ _).mp hmark)
      · rw [if_neg hmark, ih (iOffs * 2) (by omega)]
        constructor
        · intro hall k hk hlt
          cases k with
          | zero =>
            rw [Nat.pow_zero, Nat.mul_one]
            exact fun hsame => hmark ((memCmp_none_iff _ _ _).mpr hsame)
          | succ k =>
            rw [Nat.pow_succ', ← Nat.mul_assoc] at hlt ⊢
            exact hall k (by omega) hlt
        · intro hall k hk hlt
          rw [Nat.mul_assoc, ← Nat.pow_succ'] at hlt ⊢
          exact hall (k + 1) (by omega) hlt
    · rw [if_neg hmore]
      refine iff_of_true rfl fun k _ hlt => ?_
      have hgrow : iOffs * 1 ≤ iOffs * 2 ^ k := Nat.mul_le_mul_left _ Nat.one_le_two_pow
      omega

end Doubling

section Prepared

/-- The record of a partition with its marker as `MtdPartInitCleanMarker` left
it in a record that had been cleared; the rest of it may have changed, but no
image has been warned about. -/
def Prepared (pMtd : MtdPartition) : Prop :=
  ∃ (σ : Type) (h : Handler Op Resp σ) (s s' : σ) (before rec : MtdPartition),
    before.xCleanMarker = cleared.xCleanMarker ∧
    before.cAlreadyPrintedVerifyWarning = cleared.cAlreadyPrintedVerifyWarning ∧
    Ends h (mtdPartInitCleanMarker before) s (.ret rec) s' ∧ SameMarker rec pMtd ∧
    pMtd.cAlreadyPrintedVerifyWarning = rec.cAlreadyPrintedVerifyWarning

/-- What is in memory for a marker on the two kinds of memory. -/
structure MarkerLeft (pMtd : MtdPartition) : Prop where
  /-- No image has been warned about. -/
  unwarned : pMtd.cAlreadyPrintedVerifyWarning = false
  /-- Nothing on NAND. -/
  nand : pMtd.cIsNAND = true → pMtd.xCleanMarker = List.replicate nodeSize 0
  /-- The node on other memory. -/
  nor : pMtd.cIsNAND = false → pMtd.xCleanMarker = jffs2Node jffs2NodetypeCleanmarker nodeSize

theorem Prepared.left {pMtd : MtdPartition} (h : Prepared pMtd) : MarkerLeft pMtd := by
  obtain ⟨σ, h, s, s', before, rec, hzeros, hflag, hrun, hsame, hkept⟩ := h
  cases hnand : before.cIsNAND with
  | false =>
    have hrec := initCleanMarker_nor hnand hrun
    rw [hrec] at hsame hkept
    have hmemory : pMtd.cIsNAND = false := hsame.nand.trans hnand
    exact ⟨hkept.trans hflag, fun h => absurd (hmemory.symm.trans h) nofun, fun _ => hsame.marker⟩
  | true =>
    obtain ⟨hmarker, hmemory, hwarned⟩ := initCleanMarker_keeps hnand hrun
    have hnand' : pMtd.cIsNAND = true := hsame.nand.trans (hmemory.trans hnand)
    exact ⟨(hkept.trans hwarned).trans hflag, fun _ => (hsame.marker.trans hmarker).trans hzeros,
      fun h => absurd (hnand'.symm.trans h) nofun⟩

/-- The marker and the warning of a record stay as they are. -/
structure MarkerKept (pMtd q : MtdPartition) : Prop where
  /-- The marker is the same. -/
  marker : SameMarker pMtd q
  /-- So is the warning. -/
  warned : q.cAlreadyPrintedVerifyWarning = pMtd.cAlreadyPrintedVerifyWarning

/-- Naming an image keeps the marker. -/
theorem mtdPartUseFile_marker (g : Globals) (pMtd : MtdPartition) (szImageFileName : Path) :
    (mtdPartUseFile g pMtd szImageFileName).Sat (fun _ => True) AnyReason (MarkerKept pMtd) := by
  unfold mtdPartUseFile mtdPartDetermineAndCheckFileType
  refine sat_sysOrFail_andThen trivial trivial fun _ st_size _ => ?_
  dsimp only
  split
  · split
    · exact Prog.sat_exit trivial
    · split
      · exact Prog.sat_ret ⟨⟨rfl, rfl, rfl, rfl⟩, rfl⟩
      · split
        · exact Prog.sat_ret ⟨⟨rfl, rfl, rfl, rfl⟩, rfl⟩
        · split
          · exact Prog.sat_exit trivial
          · split
            · exact Prog.sat_ret ⟨⟨rfl, rfl, rfl, rfl⟩, rfl⟩
            · exact Prog.sat_ret ⟨⟨rfl, rfl, rfl, rfl⟩, rfl⟩
  · exact Prog.sat_ret ⟨⟨rfl, rfl, rfl, rfl⟩, rfl⟩

/-- `MtdPartInit` prepares a record, unless the platform keeps the out-of-band
area for itself. -/
theorem mtdPartInit_prepared {σ : Type} {h : Handler Op Resp σ} {s s' : σ} {g : Globals}
    {uiPartition : ℕ} {szImageFileName : Path} {pMtd : MtdPartition}
    (hoob : ∀ t, (h .isNandOobAtomic t).1 = false)
    (hrun : Ends h (mtdPartInit g uiPartition szImageFileName) s (.ret pMtd) s') :
    Prepared pMtd := by
  obtain ⟨p₁, s₁, hopen, hrun⟩ := Ends.split hrun
  obtain ⟨p₂, s₂, hinfo, hrun⟩ := Ends.split hrun
  obtain ⟨p₃, s₃, hmark, hrun⟩ := Ends.split hrun
  obtain ⟨p₄, s₄, huse, hrun⟩ := Ends.split hrun
  obtain ⟨p₅, s₅, hclose, hrun⟩ := Ends.split hrun
  have hp₁ := hopen.result (mtdPartOpen_sat g _ _)
  have hp₄ := huse.result (mtdPartUseFile_marker g p₃ szImageFileName)
  have hp₅ := hclose.result (mtdPartClose_sat p₄)
  have hbefore : p₂.xCleanMarker = cleared.xCleanMarker ∧
      p₂.cAlreadyPrintedVerifyWarning = cleared.cAlreadyPrintedVerifyWarning := by
    obtain ⟨xInfo, t₁, -, hinfo⟩ := Ends.split hinfo
    obtain ⟨uiBadBlocks, t₂, -, hinfo⟩ := Ends.split hinfo
    obtain ⟨q, t₃, htype, hinfo⟩ := Ends.split hinfo
    obtain ⟨ePartType, eFileTypeNeeded, hq⟩ := htype.result (mtdPartDeterminePartType_sat _)
    rw [(hinfo.pure_inv).1, hq, hp₁]
    exact ⟨rfl, rfl⟩
  have hinit : ∃ t, Ends h (mtdPartInitCleanMarker p₂) t (.ret p₃) s₃ := by
    obtain ⟨atomic, t, hask, hmark⟩ := Ends.split hmark
    rw [(hask.perform_inv).1, hoob, if_neg Bool.false_ne_true] at hmark
    exact ⟨t, hmark⟩
  obtain ⟨t, hinit⟩ := hinit
  have hkept : MarkerKept p₄ pMtd := by
    split at hrun
    · obtain ⟨atomic, t', -, hrun⟩ := Ends.split hrun
      split at hrun
      · rw [(hrun.pure_inv).1, hp₅]
        exact ⟨⟨rfl, rfl, rfl, rfl⟩, rfl⟩
      · rw [(hrun.pure_inv).1, hp₅]
        exact ⟨⟨rfl, rfl, rfl, rfl⟩, rfl⟩
    · rw [(hrun.pure_inv).1, hp₅]
      exact ⟨⟨rfl, rfl, rfl, rfl⟩, rfl⟩
  have hsame : SameMarker p₃ pMtd :=
    ⟨hkept.marker.nand.trans hp₄.marker.nand, hkept.marker.pos.trans hp₄.marker.pos,
      hkept.marker.len.trans hp₄.marker.len, hkept.marker.marker.trans hp₄.marker.marker⟩
  exact ⟨σ, h, t, s₃, p₂, p₃, hbefore.1, hbefore.2, hinit, hsame,
    hkept.warned.trans hp₄.warned⟩

end Prepared

section Blocks

/-- An erase block of an image. -/
def imageBlock (content : Bytes) (erasesize i : ℕ) : Bytes :=
  (content.drop (i * erasesize)).take erasesize

/-- What a block of an image for the memory of a partition must look like: it
begins with a node; if the memory is not NAND it begins with a clean marker,
and there is none at the offsets that are sixteen times a power of two. -/
def GoodBlock (pMtd : MtdPartition) (block : Bytes) : Prop :=
  if pMtd.cIsNAND then je16 jffs2MagicBitmask <+: block
  else pMtd.xCleanMarker.take 4 <+: block ∧
    ∀ k, 16 * 2 ^ k + 4 < block.length → ¬pMtd.xCleanMarker.take 4 <+: block.drop (16 * 2 ^ k)

variable {σ : Type} {h : Handler Op Resp σ} {pMtd q : MtdPartition} {s s' : σ}

/-- A block that is accepted is a good one, and the record stays as it was:
on NAND a block to be warned about is not accepted. -/
theorem verifyBlock_inv (hleft : MarkerLeft pMtd) {block : Bytes} (rest : Bytes)
    (htwo : 2 ≤ block.length) (hbound : block.length ≤ 2 ^ 30)
    (hrun : Ends h (mtdPartVerifyJFFS2Block pMtd (block ++ rest) block.length) s (.ret q) s') :
    q = pMtd ∧ s' = s ∧ GoodBlock pMtd block := by
  rw [mtdPartVerifyJFFS2Block_eq, hleft.unwarned, if_neg Bool.false_ne_true] at hrun
  unfold GoodBlock
  cases hnand : pMtd.cIsNAND with
  | true =>
    rw [if_pos hnand] at hrun
    split at hrun
    · exact hrun.exit_inv.elim
    · rename_i hmagic
      have hfront := (memCmp_none_iff _ _ _).mp (not_not.mp hmagic)
      have hbegins : je16 jffs2MagicBitmask = block.take 2 := by
        rw [List.take_append_of_le_length htwo] at hfront
        exact hfront
      have hunmarked : cleanMarkerPresent pMtd (block ++ rest) block.length = false := by
        rw [Bool.eq_false_iff]
        intro hpresent
        obtain ⟨-, hsame⟩ := (cleanMarkerPresent_iff _ _ _).mp hpresent
        have htwice := congrArg (List.take 2) hsame
        rw [hleft.nand hnand, List.take_take, List.take_take,
          List.take_append_of_le_length (by omega)] at htwice
        exact absurd (htwice.trans hbegins.symm) (by decide)
      obtain ⟨hq, hs'⟩ := hrun.pure_inv
      rw [hunmarked, ← hleft.unwarned] at hq
      rw [if_pos rfl, hbegins]
      exact ⟨hq, hs', List.take_prefix ..⟩
  | false =>
    rw [if_neg (by rw [hnand]; exact Bool.false_ne_true)] at hrun
    split at hrun
    · exact hrun.exit_inv.elim
    · rename_i habsent
      have hpresent : cleanMarkerPresent pMtd (block ++ rest) block.length = true := by
        rw [Bool.not_eq_true', Bool.not_eq_false] at habsent
        exact habsent
      obtain ⟨hfour, hfront⟩ := (cleanMarkerPresent_iff _ _ _).mp hpresent
      rw [List.take_append_of_le_length hfour] at hfront
      split at hrun
      · exact hrun.exit_inv.elim
      · rename_i hnone
        obtain ⟨hq, hs'⟩ := hrun.pure_inv
        rw [if_neg Bool.false_ne_true]
        refine ⟨hq, hs', ?_, fun k hk hbegins => ?_⟩
        · rw [hfront]
          exact List.take_prefix ..
        · have hpow : 16 * 2 ^ k < 16 * 2 ^ 27 := by omega
          have hk27 : k < 27 := (Nat.pow_lt_pow_iff_right Nat.one_lt_two).mp (by omega)
          have hdiffers := (findCleanMarker_none_iff _ _ _ _ _ (by omega)).mp hnone k hk27 hk
          have hlen : (pMtd.xCleanMarker.take 4).length = 4 := by
            rw [hleft.nor hnand]
            rfl
          have hsame := List.prefix_iff_eq_take.mp hbegins
          rw [hlen] at hsame
          rw [List.drop_append_of_le_length (by omega),
            List.take_append_of_le_length (by rw [List.length_drop]; omega)] at hdiffers
          exact hdiffers hsame

end Blocks

section Files

/-- A system serves a file in full pieces: a call to read answers as many bytes
as it was asked for, if the file has them. -/
structure ServesWhole {σ : Type} (h : Handler Op Resp σ) (path : Path) (content : Bytes)
    (pos : σ → ℕ) : Prop extends Serves h path content pos where
  /-- A piece is only shorter at the end of the file. -/
  whole : ∀ s size bytes, (h (.readSrc size) s).1 = some bytes →
    bytes.1 = (content.drop (pos s)).take size

variable {σ : Type} {h : Handler Op Resp σ} {content : Bytes} {pos : σ → ℕ}
  {pMtd q : MtdPartition} {s s' : σ} {g : Globals}

/-- Every block in front of a position is good, and the position is the start
of a block or the end of the file. -/
def LookedAt (pMtd : MtdPartition) (content : Bytes) (at' : ℕ) : Prop :=
  ∃ i, at' = min (i * pMtd.xInfo.erasesize) content.length ∧
    ∀ j < i, j * pMtd.xInfo.erasesize < content.length →
      GoodBlock pMtd (imageBlock content pMtd.xInfo.erasesize j)

/-- One pass over an image looks at one block. -/
theorem filePass_looks (hserves : ServesWhole h pMtd.szImageFileName content pos)
    (hleft : MarkerLeft pMtd) (hjffs2 : pMtd.cIsJFFS2 = true)
    (hbound : pMtd.xInfo.erasesize ≤ 2 ^ 30)
    (htwo : ∀ i, i * pMtd.xInfo.erasesize < content.length →
      2 ≤ (imageBlock content pMtd.xInfo.erasesize i).length)
    {st : FileState} {step : FileState ⊕ FileState} (hst : st.pMtd = pMtd)
    (hlooked : LookedAt pMtd content (pos s))
    (hpass : Ends h (filePass .mtdPartVerifyFile (fun _ => return ()) st) s (.ret step) s') :
    Sum.elim (fun st => st.pMtd = pMtd ∧ LookedAt pMtd content (pos s'))
      (fun st => st.pMtd = pMtd ∧ (0 < pMtd.xInfo.erasesize →
        LookedAt pMtd content content.length)) step := by
  subst hst
  obtain ⟨i, hpos, hgood⟩ := hlooked
  obtain ⟨bytes, s₁, hread, hpass⟩ := Ends.split hpass
  obtain ⟨hanswer, hs₁⟩ := sysOrFail_inv hread
  have hbytes : (h (.readSrc st.pMtd.xInfo.erasesize) s).1 = some bytes := hanswer
  have hmoved := hserves.moved s _ bytes hbytes
  rw [← hs₁] at hmoved
  split at hpass
  · rename_i hempty
    obtain ⟨hstep, -⟩ := hpass.pure_inv
    rw [hstep]
    refine ⟨rfl, fun hsize => ?_⟩
    have hlast := hserves.last s _ bytes hsize hbytes hempty
    exact ⟨i, by omega, hgood⟩
  · rename_i hsome
    obtain ⟨q, s₂, hlook, hpass⟩ := Ends.split hpass
    obtain ⟨hstep, hs'⟩ := hpass.pure_inv
    have hpiece := hserves.whole s _ bytes hbytes
    have hmore : i * st.pMtd.xInfo.erasesize < content.length := by
      by_contra hend
      rw [hpos, min_eq_right (by omega), List.drop_of_length_le (Nat.le_refl _),
        List.take_nil] at hpiece
      exact hsome hpiece
    rw [hpos, min_eq_left hmore.le] at hpiece
    have hblock : bytes.1 = imageBlock content st.pMtd.xInfo.erasesize i := hpiece
    have hlength : bytes.1.length = min st.pMtd.xInfo.erasesize
        (content.length - i * st.pMtd.xInfo.erasesize) := by
      rw [hpiece, List.length_take, List.length_drop]
    unfold verifyIfJFFS2 fillBuffer at hlook
    rw [if_pos hjffs2] at hlook
    obtain ⟨hq, hs₂, hfine⟩ := verifyBlock_inv hleft _ (hblock ▸ htwo i hmore)
      ((hlength.le.trans (min_le_left ..)).trans hbound) hlook
    rw [hstep]
    refine ⟨hq, i + 1, ?_, fun j hj hin => ?_⟩
    · rw [hs', hs₂, hmoved, hpos, hlength, Nat.succ_mul]
      omega
    · rcases Nat.lt_succ_iff_lt_or_eq.mp hj with hlt | heq
      · exact hgood j hlt hin
      · rw [heq, ← hblock]
        exact hfine

/-- `MtdPartVerifyFile` only returns when every block of the image is good. The
record is the one that was prepared after every pass, with the warning off. -/
theorem mtdPartVerifyFile_good (hserves : ServesWhole h pMtd.szImageFileName content pos)
    (hleft : MarkerLeft pMtd) (hjffs2 : pMtd.cIsJFFS2 = true)
    (hbound : pMtd.xInfo.erasesize ≤ 2 ^ 30)
    (htwo : ∀ i, i * pMtd.xInfo.erasesize < content.length →
      2 ≤ (imageBlock content pMtd.xInfo.erasesize i).length)
    (hrun : Ends h (mtdPartVerifyFile g pMtd) s (.ret q) s') (i : ℕ)
    (hin : i * pMtd.xInfo.erasesize < content.length) :
    GoodBlock pMtd (imageBlock content pMtd.xInfo.erasesize i) := by
  have hsize : 0 < pMtd.xInfo.erasesize := by
    have hlength := htwo i hin
    unfold imageBlock at hlength
    rw [List.length_take] at hlength
    omega
  obtain ⟨pucBuffer, s₁, -, hrun⟩ := Ends.split hrun
  obtain ⟨_, s₂, hopen, hrun⟩ := Ends.split hrun
  obtain ⟨st, s₃, hloop, -⟩ := Ends.split hrun
  have hfront := openSrc_front hserves.toServes hopen
  have hend := Ends.loop_invariant
    (I := fun st t => st.pMtd = pMtd ∧ LookedAt pMtd content (pos t))
    (Q := fun st _ => st.pMtd = pMtd ∧ (0 < pMtd.xInfo.erasesize →
      LookedAt pMtd content content.length))
    (fun st t hst step t' hpass => filePass_looks hserves hleft hjffs2 hbound htwo hst.1 hst.2 hpass)
    ⟨rfl, 0, by rw [hfront, Nat.zero_mul, Nat.zero_min], fun j hj => absurd hj (Nat.not_lt_zero j)⟩
    hloop
  obtain ⟨n, hn, hgood⟩ := hend.2 hsize
  have hinside : i * pMtd.xInfo.erasesize < n * pMtd.xInfo.erasesize := by omega
  exact hgood i (Nat.lt_of_mul_lt_mul_right hinside) hin

/-- The gate for JFFS2 images: what `MtdPartVerifyFile` lets pass has good
blocks only, and wherever the loop over the offsets is reached, it ends
without having read outside of the block. -/
theorem image_gate (hserves : ServesWhole h pMtd.szImageFileName content pos)
    (hprepared : Prepared pMtd) (hjffs2 : pMtd.cIsJFFS2 = true)
    (hbound : pMtd.xInfo.erasesize ≤ 2 ^ 30)
    (htwo : ∀ i, i * pMtd.xInfo.erasesize < content.length →
      2 ≤ (imageBlock content pMtd.xInfo.erasesize i).length) :
    (∀ g s q s', Ends h (mtdPartVerifyFile g pMtd) s (.ret q) s' →
      ∀ i, i * pMtd.xInfo.erasesize < content.length →
        GoodBlock pMtd (imageBlock content pMtd.xInfo.erasesize i)) ∧
    ∀ i rest, let block := imageBlock content pMtd.xInfo.erasesize i
      pMtd.cIsNAND = false → cleanMarkerPresent pMtd (block ++ rest) block.length = true →
      ∀ passes, 27 ≤ passes →
        doublingLoop block pMtd.xCleanMarker block.length passes 16 =
          .ok (findCleanMarker (block ++ rest) pMtd.xCleanMarker block.length 27 16) := by
  refine ⟨fun g s q s' hrun i hin =>
    mtdPartVerifyFile_good hserves hprepared.left hjffs2 hbound htwo hrun i hin, ?_⟩
  intro i rest block hnor hpresent passes hpasses
  have hfour := ((cleanMarkerPresent_iff _ _ _).mp hpresent).1
  have hlength : block.length ≤ pMtd.xInfo.erasesize := List.length_take_le ..
  have hmarker : 4 ≤ pMtd.xCleanMarker.length := by
    rw [hprepared.left.nor hnor, length_jffs2Node]
    decide
  exact doublingLoop_inside rest hfour (hlength.trans hbound) hmarker 26 16 passes (by decide)
    (by omega)

/-- A system that serves one file in full pieces. -/
def serveFile (content : Bytes) : Handler Op Resp ℕ := fun o pos =>
  match o with
  | .openSrc _ => (true, 0)
  | .readSrc size =>
    (some ⟨(content.drop pos).take size, List.length_take_le ..⟩,
      pos + ((content.drop pos).take size).length)
  | o => ((respond smallEnv false o (smallWorld [])).1, pos)

theorem serveFile_whole (path : Path) (content : Bytes) :
    ServesWhole (serveFile content) path content id where
  opened _ _ := rfl
  next s size bytes hread := by
    rw [← Option.some.inj hread]
    exact List.take_prefix ..
  last s size bytes hsize hread hempty := by
    rw [← Option.some.inj hread] at hempty
    rcases List.take_eq_nil_iff.mp hempty with hzero | hnil
    · omega
    · exact List.drop_eq_nil_iff.mp hnil
  moved s size bytes hread := by
    rw [← Option.some.inj hread]
    rfl
  kept s o ho := by
    cases o <;> first
      | rfl
      | exact absurd rfl ho
  whole s size bytes hread := by
    rw [← Option.some.inj hread]
    rfl

/-- The partition of the small system with blocks of thirty-two bytes. -/
def wideInfo : MtdInfo := { smallInfo with erasesize := 32 }

/-- An image of two such blocks, each with a clean marker and the second one
with some data behind it. -/
def markedImage : Bytes :=
  jffs2Node jffs2NodetypeCleanmarker nodeSize ++ List.replicate 20 flashErasedByte ++
    jffs2Node jffs2NodetypeCleanmarker nodeSize ++ text "12345678901234567890"

/-- The record for that image and memory that is not NAND. -/
def markedPart : MtdPartition :=
  { smallPart false with
    xInfo := wideInfo
    iFileSize := 64
    cIsJFFS2 := true
    uiClMLen := 8
    xCleanMarker := jffs2Node jffs2NodetypeCleanmarker nodeSize }

theorem markedPart_prepared : Prepared markedPart :=
  ⟨World, system smallEnv, smallWorld [], smallWorld [],
    { smallPart false with xInfo := wideInfo, iFileSize := 64 }, _, rfl, rfl, ⟨rfl, rfl⟩,
    ⟨rfl, rfl, rfl, (mtdPartInitJFFS2Node_eq _ _).symm⟩, rfl⟩

/-- The image passes, its blocks are good, and the loop over the offsets of the
first one ends where no further marker is. -/
theorem marked_image_passes :
    (∃ q, (exec (serveFile markedImage) everyCall (mtdPartVerifyFile { fuel := 3 } markedPart)
      0).outcome = .ret q) ∧
    (∀ i < 2, GoodBlock markedPart (imageBlock markedImage 32 i)) ∧
    doublingLoop (imageBlock markedImage 32 0) markedPart.xCleanMarker 32 27 16 =
      .ok (findCleanMarker (imageBlock markedImage 32 0 ++ []) markedPart.xCleanMarker 32 27
        16) := by
  have htwo : ∀ i, i * 32 < markedImage.length → 2 ≤ (imageBlock markedImage 32 i).length := by
    intro i hi
    have hlength : markedImage.length = 64 := by decide
    have hcases : i = 0 ∨ i = 1 := by omega
    rcases hcases with rfl | rfl <;> decide
  have hgate := image_gate (serveFile_whole markedPart.szImageFileName markedImage)
    markedPart_prepared rfl (by decide) htwo
  refine ⟨⟨_, rfl⟩, fun i hi => hgate.1 { fuel := 3 } 0 _ _ ⟨rfl, rfl⟩ i ?_, ?_⟩
  · have hlength : markedImage.length = 64 := by decide
    change i * 32 < markedImage.length
    omega
  · exact hgate.2 0 [] rfl (by decide) 27 (Nat.le_refl 27)

end Files

end MetaDigi.FlashGate
