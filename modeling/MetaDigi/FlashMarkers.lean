import MetaDigi.FlashEffects
import MetaDigi.FlashVerifying
import Mathlib.Order.CompletePartialOrder
import Mathlib.Data.Set.BooleanAlgebra

/-!
# Clean markers

JFFS2 takes an erased block for clean when it finds a marker there. What a
marker should look like and where it should be is stated here on its own: a
node with its checksum at the start of a block of NOR memory, the front of
such a node in the free bytes of the out-of-band area of NAND memory. The
record that `MtdPartInitCleanMarker` leaves is held against that. On NAND the
marker in memory is never filled in, and the place is the legacy one, or none,
where the driver names a small region or does not place data itself.
-/

namespace MetaDigi.FlashMarkers

open CStrings SystemProgram SystemRuns FlashTypes FlashInit FlashTransfer FlashWorld FlashEffects
open FlashDevice FlashVerifying Crc32 ReflectedCrc Prog

/-- The checksum that JFFS2 computes: the register starts with zero, and no
complement is taken. -/
def jffs2Crc (bytes : Bytes) : Crc := bitwise crc32Polynomial 0 0 bytes

/-- A node header of JFFS2 in front of its checksum. -/
def nodeHeader (nodetype : BitVec 16) (totlen : ℕ) : Bytes :=
  je16 jffs2MagicBitmask ++ je16 nodetype ++ je32 (BitVec.ofNat 32 totlen)

/-- A node header of JFFS2. -/
def jffs2Node (nodetype : BitVec 16) (totlen : ℕ) : Bytes :=
  nodeHeader nodetype totlen ++ je32 (jffs2Crc (nodeHeader nodetype totlen))

@[simp] theorem length_nodeHeader (nodetype : BitVec 16) (totlen : ℕ) :
    (nodeHeader nodetype totlen).length = 8 := rfl

@[simp] theorem length_jffs2Node (nodetype : BitVec 16) (totlen : ℕ) :
    (jffs2Node nodetype totlen).length = nodeSize := rfl

/-- The complements that the library takes cancel with those of the tool. -/
theorem crc32_conditioned (bytes : Bytes) :
    crc32 0xffffffff bytes ^^^ 0xffffffff = jffs2Crc bytes := by
  have hstep : crc32Step = byteSteps crc32Polynomial :=
    funext fun crc => funext fun byte => crc32Step_eq crc byte
  have hstart : (0xffffffff : BitVec 32) ^^^ 0xffffffff#32 = 0 := BitVec.xor_self
  unfold crc32 jffs2Crc bitwise
  rw [hstart, hstep]
  exact (complement_twice _).trans BitVec.xor_zero.symm

/-- `MtdPartInitJFFS2Node` makes a node header of JFFS2. -/
theorem mtdPartInitJFFS2Node_eq (uhNodeType : BitVec 16) (iLen : ℕ) :
    mtdPartInitJFFS2Node uhNodeType iLen = jffs2Node uhNodeType iLen := by
  unfold mtdPartInitJFFS2Node jffs2Node
  dsimp only
  rw [crc32_conditioned]
  rfl

/-- Two records have the same marker: the same bytes, for the same place. -/
structure SameMarker (pMtd rec : MtdPartition) : Prop where
  /-- The same kind of memory. -/
  nand : rec.cIsNAND = pMtd.cIsNAND
  /-- The same position in the out-of-band area. -/
  pos : rec.uiClMPos = pMtd.uiClMPos
  /-- The same length there. -/
  len : rec.uiClMLen = pMtd.uiClMLen
  /-- The same bytes in memory. -/
  marker : rec.xCleanMarker = pMtd.xCleanMarker

theorem SameMarker.refl (pMtd : MtdPartition) : SameMarker pMtd pMtd := ⟨rfl, rfl, rfl, rfl⟩

section Init

variable {σ : Type} {h : Handler Op Resp σ} {pMtd rec : MtdPartition} {s s' : σ}

/-- What `MtdPartInitCleanMarker` leaves when the memory is not NAND. -/
theorem initCleanMarker_nor (hnor : pMtd.cIsNAND = false)
    (hrun : Ends h (mtdPartInitCleanMarker pMtd) s (.ret rec) s') :
    rec = { pMtd with
      uiClMPos := 0
      uiClMLen := 8
      xCleanMarker := jffs2Node jffs2NodetypeCleanmarker nodeSize } := by
  unfold mtdPartInitCleanMarker at hrun
  dsimp only at hrun
  rw [if_neg (by rw [hnor]; exact Bool.false_ne_true), mtdPartInitJFFS2Node_eq] at hrun
  exact hrun.pure_inv.1

/-- The place in an area of some size before drivers placed data themselves. -/
def legacyPlace : ℕ → Option (ℕ × ℕ)
  | 8 => some (6, 2)
  | 16 => some (8, 8)
  | 64 => some (16, 8)
  | _ => none

/-- The sizes that have a place, and the others. -/
theorem legacyPlace_cases (oobsize : ℕ) :
    (oobsize = 8 ∧ legacyPlace oobsize = some (6, 2)) ∨
      (oobsize = 16 ∧ legacyPlace oobsize = some (8, 8)) ∨
      (oobsize = 64 ∧ legacyPlace oobsize = some (16, 8)) ∨
      (oobsize ≠ 8 ∧ oobsize ≠ 16 ∧ oobsize ≠ 64 ∧ legacyPlace oobsize = none) := by
  by_cases h8 : oobsize = 8
  · rw [h8]
    exact .inl ⟨rfl, rfl⟩
  · by_cases h16 : oobsize = 16
    · rw [h16]
      exact .inr (.inl ⟨rfl, rfl⟩)
    · by_cases h64 : oobsize = 64
      · rw [h64]
        exact .inr (.inr (.inl ⟨rfl, rfl⟩))
      · exact .inr (.inr (.inr ⟨h8, h16, h64, legacyPlace.eq_4 oobsize h8 h16 h64⟩))

/-- The place that `MtdPartInitCleanMarker` chooses, if it does not leave. -/
def chosenPlace (xoobInfo : OobInfo) (oobsize : ℕ) : Option (ℕ × ℕ) :=
  if xoobInfo.autoplace then
    if xoobInfo.freeLength = 0 then none
    else if xoobInfo.freeLength > 8 then some (xoobInfo.freeOffset, 8)
    else legacyPlace oobsize
  else some (0, 8)

/-- The end of `MtdPartInitCleanMarker` on NAND. -/
def placeMarker (pMtd : MtdPartition) (xoobInfo : OobInfo) : Outcome ExitReason MtdPartition :=
  match chosenPlace xoobInfo pMtd.xInfo.oobsize with
  | some (uiClMPos, uiClMLen) => .ret { pMtd with uiClMPos, uiClMLen }
  | none =>
    .exit (if xoobInfo.freeLength = 0 then .noEmptyOob else .unsupportedOobsize pMtd.xInfo.oobsize)

/-- How `MtdPartInitCleanMarker` ends on NAND. -/
theorem initCleanMarker_nand (hnand : pMtd.cIsNAND = true) {xoobInfo : OobInfo}
    (hanswer : (h (.memGetOobSel pMtd.uiPartition) s).1 = some xoobInfo) :
    Ends h (mtdPartInitCleanMarker pMtd) s (placeMarker pMtd xoobInfo)
      (h (.memGetOobSel pMtd.uiPartition) s).2 := by
  have hcall : Ends h (sysOrFail .mtdPartInitCleanMarker (.memGetOobSel pMtd.uiPartition) id) s
      (.ret xoobInfo) (h (.memGetOobSel pMtd.uiPartition) s).2 :=
    sysOrFail_ends (Prod.ext hanswer rfl) rfl
  unfold mtdPartInitCleanMarker
  dsimp only
  rw [if_pos hnand]
  refine hcall.andThen ?_
  unfold placeMarker chosenPlace
  by_cases hauto : xoobInfo.autoplace = true
  · rw [if_pos hauto, if_pos hauto]
    by_cases hnone : xoobInfo.freeLength = 0
    · rw [if_pos hnone, if_pos hnone]
      dsimp only
      rw [if_pos hnone]
      exact ends_exit _ _
    · rw [if_neg hnone, if_neg hnone]
      by_cases hroom : xoobInfo.freeLength > 8
      · rw [if_pos hroom, if_pos hroom]
        exact ends_pure _ _
      · rw [if_neg hroom, if_neg hroom]
        rcases legacyPlace_cases pMtd.xInfo.oobsize with ⟨hsize, hplace⟩ | ⟨hsize, hplace⟩ |
          ⟨hsize, hplace⟩ | ⟨h8, h16, h64, hplace⟩
        · rw [hplace, hsize]
          exact ends_pure _ _
        · rw [hplace, hsize]
          exact ends_pure _ _
        · rw [hplace, hsize]
          exact ends_pure _ _
        · rw [hplace]
          dsimp only
          rw [if_neg hnone]
          split <;> first
            | contradiction
            | exact ends_exit _ _
  · rw [if_neg hauto, if_neg hauto]
    exact ends_pure _ _

end Init

section Erase

variable {σ : Type} {h : Handler Op Resp σ}

/-- The call with which a block is marked. -/
def markCall (pMtd : MtdPartition) (start : ℕ) : Op :=
  if pMtd.cIsNAND then
    .memWriteOob pMtd.uiPartition ((start + pMtd.uiClMPos) % 2 ^ 32)
      (pMtd.xCleanMarker.take pMtd.uiClMLen)
  else .pwrite pMtd.uiPartition pMtd.xCleanMarker start

/-- Whether the mark was written, by the answer to the call. -/
def markWritten (pMtd : MtdPartition) (start : ℕ) : Flash Unit :=
  if pMtd.cIsNAND then
    sysOrFail .mtdPartErase (.memWriteOob pMtd.uiPartition ((start + pMtd.uiClMPos) % 2 ^ 32)
      (pMtd.xCleanMarker.take pMtd.uiClMLen)) succeeded
  else pwriteOrFail .mtdPartErase pMtd pMtd.xCleanMarker start

/-- A call that must succeed is the only one it makes. -/
theorem calls_sysOrFail {α : Type} {inside : Func} {o : Op} {answer : Resp o → Option α}
    (ho : changesFlash o = true) (s : σ) :
    (exec h changesFlash (sysOrFail inside o answer) s).calls = [o] := by
  unfold sysOrFail
  rw [exec_monadBind, exec_perform, Run.andThen_ret, if_pos ho, Run.prepend]
  dsimp only
  cases answer (h o s).1 with
  | none => rfl
  | some a => rfl

/-- Marking a block is one call. -/
theorem calls_markWritten (pMtd : MtdPartition) (start : ℕ) (s : σ) :
    (exec h changesFlash (markWritten pMtd start) s).calls = [markCall pMtd start] := by
  unfold markWritten markCall
  split
  · exact calls_sysOrFail rfl s
  · exact calls_sysOrFail rfl s

/-- The calls for a block that is erased and marked. -/
def eraseAndMark (pMtd : MtdPartition) (start : ℕ) : List Op :=
  [.memErase pMtd.uiPartition start pMtd.xInfo.erasesize, markCall pMtd start]

variable {g : Globals} {pMtd : MtdPartition}

/-- A block is erased, and then marked. -/
theorem eraseBlock_inBlocks (hdry : g.cDryRun = false) (hmark : pMtd.cWriteCleanMarker = true)
    (start : ℕ) (s : σ) :
    InBlocks (eraseAndMark pMtd) (exec h changesFlash (eraseBlock g pMtd start) s) := by
  have hblock : eraseBlock g pMtd start =
      sysOrFail .mtdPartErase (.memErase pMtd.uiPartition start pMtd.xInfo.erasesize) succeeded >>=
        fun _ => markWritten pMtd start := by
    unfold eraseBlock markWritten
    rw [hdry, hmark]
    rfl
  have herase : (exec h changesFlash (sysOrFail .mtdPartErase
      (.memErase pMtd.uiPartition start pMtd.xInfo.erasesize) succeeded) s).calls =
      [.memErase pMtd.uiPartition start pMtd.xInfo.erasesize] := calls_sysOrFail rfl s
  have hboth : [start].flatMap (eraseAndMark pMtd) = eraseAndMark pMtd start :=
    List.flatMap_singleton ..
  rw [hblock, exec_monadBind]
  unfold Run.andThen
  cases hout : (exec h changesFlash (sysOrFail .mtdPartErase
      (.memErase pMtd.uiPartition start pMtd.xInfo.erasesize) succeeded) s).outcome with
  | ret a =>
    dsimp only
    have hcalls := calls_markWritten (h := h) pMtd start (exec h changesFlash (sysOrFail
      .mtdPartErase (.memErase pMtd.uiPartition start pMtd.xInfo.erasesize) succeeded) s).state
    refine ⟨[start], ?_, fun b _ => ?_⟩
    · rw [hboth, herase, hcalls]
      exact List.prefix_refl _
    · rw [hboth]
      dsimp only
      rw [herase, hcalls]
      rfl
  | exit e =>
    dsimp only
    refine ⟨[start], ?_, nofun⟩
    rw [hboth, herase]
    exact ⟨[markCall pMtd start], rfl⟩
  | hang =>
    dsimp only
    refine ⟨[start], ?_, nofun⟩
    rw [hboth, herase]
    exact ⟨[markCall pMtd start], rfl⟩

/-- `MtdPartErase` erases and marks one block after the other. -/
theorem mtdPartErase_inBlocks (hdry : g.cDryRun = false) (hmark : pMtd.cWriteCleanMarker = true)
    (s : σ) : InBlocks (eraseAndMark pMtd) (exec h changesFlash (mtdPartErase g pMtd) s) := by
  refine inBlocks_loop (fun at' s => ?_) g.fuel (0, 0) s
  obtain ⟨start, iBytesErasedTotal⟩ := at'
  unfold erasePass
  dsimp only
  split
  · have hask : (exec h changesFlash (mtdPartIsBadBlock pMtd start) s).calls = [] := by
      unfold mtdPartIsBadBlock sysOrFail
      rw [exec_monadBind, exec_perform, Run.andThen_ret]
      cases isBadBlockReply (h (.memGetBadBlock pMtd.uiPartition start) s).1 <;> rfl
    rw [exec_monadBind]
    refine (inBlocks_of_nil hask).andThen fun bad => ?_
    cases bad with
    | true => exact inBlocks_of_nil rfl
    | false =>
      rw [if_neg Bool.false_ne_true, exec_monadBind]
      exact (eraseBlock_inBlocks hdry hmark start _).andThen fun _ => inBlocks_of_nil rfl
  · exact inBlocks_of_nil rfl

end Erase

section Presence

/-- `cCleanMarkerPresent` of `MtdPartVerifyJFFS2Block`. -/
def cleanMarkerPresent (pMtd : MtdPartition) (pucData : Bytes) (iSize : ℕ) : Bool :=
  iSize ≥ 4 && memCmp pucData pMtd.xCleanMarker 4 == none

/-- Where the presence test stands in `MtdPartVerifyJFFS2Block`. -/
theorem mtdPartVerifyJFFS2Block_eq (pMtd : MtdPartition) (pucData : Bytes) (iSize : ℕ) :
    mtdPartVerifyJFFS2Block pMtd pucData iSize =
      if pMtd.cAlreadyPrintedVerifyWarning then return pMtd
      else if pMtd.cIsNAND then
        if memCmp pucData (je16 jffs2MagicBitmask) 2 ≠ none then fail .noJffs2Header
        else return { pMtd with
          cAlreadyPrintedVerifyWarning := cleanMarkerPresent pMtd pucData iSize }
      else if !cleanMarkerPresent pMtd pucData iSize then fail .noCleanMarkers
      else match findCleanMarker pucData pMtd.xCleanMarker iSize 27 16 with
        | some iOffs => fail (.cleanMarkerAtOffset iOffs)
        | none => return pMtd :=
  rfl

/-- The presence test compares the front of a block with that of the marker. -/
theorem cleanMarkerPresent_iff (pMtd : MtdPartition) (pucData : Bytes) (iSize : ℕ) :
    cleanMarkerPresent pMtd pucData iSize = true ↔
      4 ≤ iSize ∧ pMtd.xCleanMarker.take 4 = pucData.take 4 := by
  unfold cleanMarkerPresent
  rw [Bool.and_eq_true, decide_eq_true_iff, beq_iff_eq, memCmp_none_iff]

/-- A block begins with a clean marker: its magic number and node type. -/
def BeginsWithMarker (pucData : Bytes) (iSize : ℕ) : Prop :=
  4 ≤ iSize ∧ je16 jffs2MagicBitmask ++ je16 jffs2NodetypeCleanmarker <+: pucData

end Presence

section Marked

/-- The call that marks a block as JFFS2 expects it: the whole node at the
start of a block, or the front of a node of eight bytes in the out-of-band
area. -/
def properMark (pMtd : MtdPartition) (start : ℕ) : Op :=
  if pMtd.cIsNAND then
    .memWriteOob pMtd.uiPartition ((start + pMtd.uiClMPos) % 2 ^ 32)
      ((nodeHeader jffs2NodetypeCleanmarker 8).take pMtd.uiClMLen)
  else .pwrite pMtd.uiPartition (jffs2Node jffs2NodetypeCleanmarker nodeSize) start

/-- The calls for a block that is erased and marked as JFFS2 expects it. -/
def eraseAndMarkProperly (pMtd : MtdPartition) (start : ℕ) : List Op :=
  [.memErase pMtd.uiPartition start pMtd.xInfo.erasesize, properMark pMtd start]

/-- Clean markers are written and recognised as JFFS2 expects them. -/
structure Marked (pMtd : MtdPartition) : Prop where
  /-- Every block that is erased is marked. -/
  written : ∀ g : Globals, g.cDryRun = false → pMtd.cWriteCleanMarker = true →
    ∀ (σ : Type) (h : Handler Op Resp σ) (s : σ),
      InBlocks (eraseAndMarkProperly pMtd) (exec h changesFlash (mtdPartErase g pMtd) s)
  /-- The blocks with a marker in front are recognised, and no others. -/
  recognised : ∀ (pucData : Bytes) (iSize : ℕ), iSize ≤ pucData.length →
    (cleanMarkerPresent pMtd pucData iSize = true ↔ BeginsWithMarker pucData iSize)

/-- A record with the node in memory marks blocks of NOR memory properly. -/
theorem marked_of_node {pMtd : MtdPartition} (hnor : pMtd.cIsNAND = false)
    (hnode : pMtd.xCleanMarker = jffs2Node jffs2NodetypeCleanmarker nodeSize) : Marked pMtd := by
  constructor
  · intro g hdry hmark σ h s
    have hmarks : eraseAndMark pMtd = eraseAndMarkProperly pMtd := by
      funext start
      unfold eraseAndMark eraseAndMarkProperly markCall properMark
      rw [hnor, hnode, if_neg Bool.false_ne_true, if_neg Bool.false_ne_true]
    rw [← hmarks]
    exact mtdPartErase_inBlocks hdry hmark s
  · intro pucData iSize hsize
    have hfront : (jffs2Node jffs2NodetypeCleanmarker nodeSize).take 4 =
        je16 jffs2MagicBitmask ++ je16 jffs2NodetypeCleanmarker := rfl
    rw [cleanMarkerPresent_iff, hnode, hfront, BeginsWithMarker]
    refine and_congr_right fun _ => ?_
    exact List.prefix_iff_eq_take.symm

/-- A marker of zeros recognises blocks that begin with zeros. -/
theorem not_marked_of_zeros {pMtd : MtdPartition}
    (hzeros : pMtd.xCleanMarker = List.replicate nodeSize 0) : ¬Marked pMtd := by
  intro hmarked
  have htest := hmarked.recognised (List.replicate 4 0) 4 (Nat.le_refl _)
  have hpresent : cleanMarkerPresent pMtd (List.replicate 4 0) 4 = true := by
    rw [cleanMarkerPresent_iff, hzeros]
    exact ⟨Nat.le_refl _, rfl⟩
  have hbegins := (htest.mp hpresent).2
  exact absurd hbegins (by decide)

variable {σ : Type} {h : Handler Op Resp σ} {pMtd rec : MtdPartition} {s s' : σ}

/-- On NAND the marker in memory stays as it was. -/
theorem initCleanMarker_keeps (hnand : pMtd.cIsNAND = true)
    (hrun : Ends h (mtdPartInitCleanMarker pMtd) s (.ret rec) s') :
    rec.xCleanMarker = pMtd.xCleanMarker ∧ rec.cIsNAND = pMtd.cIsNAND ∧
      rec.cAlreadyPrintedVerifyWarning = pMtd.cAlreadyPrintedVerifyWarning := by
  cases hanswer : (h (.memGetOobSel pMtd.uiPartition) s).1 with
  | none =>
    exfalso
    unfold mtdPartInitCleanMarker at hrun
    dsimp only at hrun
    rw [if_pos hnand] at hrun
    obtain ⟨xoobInfo, s₁, hcall, -⟩ := Ends.split hrun
    have hsome := (sysOrFail_inv hcall).1
    rw [hanswer] at hsome
    cases hsome
  | some xoobInfo =>
    have hend := (initCleanMarker_nand hnand hanswer).unique hrun
    unfold placeMarker at hend
    split at hend
    · have hrec := Outcome.ret.inj hend.1
      rw [← hrec]
      exact ⟨rfl, rfl, rfl⟩
    · exact absurd hend.1 nofun

/-- The record of a partition marks its blocks properly, whatever happens to
it besides, exactly when the memory is not NAND. -/
theorem marked_iff (hcleared : pMtd.xCleanMarker = cleared.xCleanMarker)
    (hrun : Ends h (mtdPartInitCleanMarker pMtd) s (.ret rec) s') :
    (∀ q, SameMarker rec q → Marked q) ↔ pMtd.cIsNAND = false := by
  cases hnand : pMtd.cIsNAND with
  | false =>
    refine iff_of_true (fun q hq => ?_) rfl
    have hrec := initCleanMarker_nor hnand hrun
    rw [hrec] at hq
    exact marked_of_node (hq.nand.trans hnand) hq.marker
  | true =>
    refine iff_of_false (fun hall => ?_) nofun
    have hkept := (initCleanMarker_keeps hnand hrun).1
    exact not_marked_of_zeros (hkept.trans hcleared) (hall rec (SameMarker.refl rec))

/-- A system whose driver says this about the out-of-band area. -/
def placingEnv (xoobInfo : OobInfo) : Env := { smallEnv with oob := fun _ => xoobInfo }

/-- A partition of memory that is NAND or is not, with an image of one block. -/
def smallPart (cIsNAND : Bool) : MtdPartition :=
  { cleared with cIsNAND, cWriteCleanMarker := true, xInfo := smallInfo, iFileSize := 16 }

/-- The record of `smallPart` on NAND with forty free bytes. -/
def placedPart : MtdPartition := { smallPart true with uiClMPos := 24, uiClMLen := 8 }

/-- On NAND with forty free bytes eight zeros are written for a marker. -/
theorem zeros_for_marker :
    (∃ w, Ends (system (placingEnv ⟨true, 24, 40⟩)) (mtdPartInitCleanMarker (smallPart true))
        (smallWorld []) (.ret placedPart) w) ∧
      (exec (system smallEnv) changesFlash (mtdPartErase { fuel := 2 } placedPart)
        (smallWorld [])).calls = [.memErase 0 0 16, .memWriteOob 0 24 (List.replicate 8 0)] ∧
      ¬∀ q, SameMarker placedPart q → Marked q :=
  ⟨⟨_, rfl, rfl⟩, rfl,
    fun hall => not_marked_of_zeros rfl (hall placedPart (SameMarker.refl placedPart))⟩

/-- On memory that is not NAND the marker is as it should be. -/
theorem marked_nor :
    ∃ rec, Ends (system smallEnv) (mtdPartInitCleanMarker (smallPart false)) (smallWorld [])
        (.ret rec) (smallWorld []) ∧
      ((∀ q, SameMarker rec q → Marked q) ↔ (smallPart false).cIsNAND = false) :=
  ⟨_, ⟨rfl, rfl⟩, marked_iff (h := system smallEnv) (s := smallWorld []) rfl ⟨rfl, rfl⟩⟩

end Marked

section Place

/-- The first free region of an out-of-band area. -/
def freeRegion (xoobInfo : OobInfo) : Set ℕ :=
  Set.Ico xoobInfo.freeOffset (xoobInfo.freeOffset + xoobInfo.freeLength)

/-- What a call writes into the out-of-band area goes behind the start of a
block, to bytes of a region. -/
def WritesWithin (pMtd : MtdPartition) (region : Set ℕ) : Op → Prop
  | .memWriteOob _ address data =>
    ∃ block, address = (block * pMtd.xInfo.erasesize % 2 ^ 32 + pMtd.uiClMPos) % 2 ^ 32 ∧
      ∀ i < data.length, pMtd.uiClMPos + i ∈ region
  | _ => True

/-- The marker is as long as it may be, and stays in the free bytes of the
out-of-band area. Bytes for error correction and marks of bad blocks are not
free. -/
structure InFreeBytes (xoobInfo : OobInfo) (rec : MtdPartition) : Prop where
  /-- It starts with the free bytes. -/
  pos : rec.uiClMPos = xoobInfo.freeOffset
  /-- It takes eight of them, or all if there are less. -/
  len : rec.uiClMLen = min 8 xoobInfo.freeLength
  /-- Nothing else is written. -/
  within : ∀ q, SameMarker rec q → ∀ g, (mtdPartErase g q).Sat
    (WritesWithin q (freeRegion xoobInfo)) AnyReason AnyResult
  /-- Bytes that are not free are spared. -/
  spared : ∀ taken : Set ℕ, Disjoint taken (freeRegion xoobInfo) →
    ∀ i < rec.uiClMLen, rec.uiClMPos + i ∉ taken

/-- The place of the marker, if one has been chosen, is in the free bytes when
the driver places data, and the legacy one when it does not. -/
def PlacedProperly (xoobInfo : OobInfo) (oobsize : ℕ) : Outcome ExitReason MtdPartition → Prop
  | .ret rec =>
    if xoobInfo.autoplace then InFreeBytes xoobInfo rec
    else legacyPlace oobsize = some (rec.uiClMPos, rec.uiClMLen)
  | _ => True

/-- When the place comes out right: the driver places data itself, and there
are more than eight free bytes, or none, or the legacy place is missing or the
same. -/
def PlacedWhen (xoobInfo : OobInfo) (oobsize : ℕ) : Prop :=
  xoobInfo.autoplace = true ∧
    (xoobInfo.freeLength = 0 ∨ xoobInfo.freeLength > 8 ∨ legacyPlace oobsize = none ∨
      legacyPlace oobsize = some (xoobInfo.freeOffset, xoobInfo.freeLength))

/-- No legacy place is at the very front. -/
theorem legacyPlace_ne (oobsize : ℕ) : legacyPlace oobsize ≠ some (0, 8) := by
  rcases legacyPlace_cases oobsize with ⟨-, h⟩ | ⟨-, h⟩ | ⟨-, h⟩ | ⟨-, -, -, h⟩
  · rw [h]
    decide
  · rw [h]
    decide
  · rw [h]
    decide
  · rw [h]
    decide

/-- A marker at the start of the free bytes that is no longer than they are. -/
theorem writes_within {xoobInfo : OobInfo} {q : MtdPartition}
    (hpos : q.uiClMPos = xoobInfo.freeOffset) (hlen : q.uiClMLen ≤ xoobInfo.freeLength)
    (g : Globals) :
    (mtdPartErase g q).Sat (WritesWithin q (freeRegion xoobInfo)) AnyReason AnyResult := by
  have hinside : ∀ i < (q.xCleanMarker.take q.uiClMLen).length,
      q.uiClMPos + i ∈ freeRegion xoobInfo := by
    intro i hi
    rw [List.length_take] at hi
    rw [hpos]
    exact ⟨Nat.le_add_right _ _, by omega⟩
  -- the offset is the one of a block after every pass
  refine Sat.loop (I := fun at' => ∃ block, at'.1 = block * q.xInfo.erasesize % 2 ^ 32)
    (fun at' hat => ?_) g.fuel ⟨0, by rw [Nat.zero_mul, Nat.zero_mod]⟩
  obtain ⟨start, iBytesErasedTotal⟩ := at'
  obtain ⟨block, hstart⟩ := hat
  change start = _ at hstart
  have hnext : (start + q.xInfo.erasesize) % 2 ^ 32 = (block + 1) * q.xInfo.erasesize % 2 ^ 32 := by
    rw [hstart, Nat.mod_add_mod, Nat.succ_mul]
  unfold erasePass
  dsimp only
  split
  · refine Sat.andThen (R := AnyResult) (sat_sysOrFail trivial trivial |>.mono (fun _ => id)
      (fun _ => id) (fun _ _ => trivial)) fun bad _ => ?_
    cases bad with
    | true => exact ⟨block + 1, hnext⟩
    | false =>
      rw [if_neg Bool.false_ne_true]
      refine Sat.andThen (R := AnyResult) ?_ fun _ _ => ⟨block + 1, hnext⟩
      unfold eraseBlock
      split
      · exact trivial
      · refine Sat.andThen (sat_sysOrFail trivial trivial) fun _ _ => ?_
        split
        · split
          · refine (sat_sysOrFail ?_ trivial).mono (fun _ => id) (fun _ => id) fun _ _ => trivial
            exact ⟨block, by rw [hstart], hinside⟩
          · exact (sat_sysOrFail trivial trivial).mono (fun _ => id) (fun _ => id) fun _ _ => trivial
        · exact trivial
  · exact trivial

/-- A marker at the start of the free bytes, eight bytes long or less. -/
theorem inFreeBytes_iff (xoobInfo : OobInfo) (rec : MtdPartition) :
    InFreeBytes xoobInfo rec ↔
      rec.uiClMPos = xoobInfo.freeOffset ∧ rec.uiClMLen = min 8 xoobInfo.freeLength := by
  constructor
  · exact fun hfree => ⟨hfree.pos, hfree.len⟩
  · rintro ⟨hpos, hlen⟩
    have hshort : rec.uiClMLen ≤ xoobInfo.freeLength := by
      rw [hlen]
      exact min_le_right ..
    refine ⟨hpos, hlen, fun q hq g => ?_, fun taken htaken i hi hmem => ?_⟩
    · exact writes_within (hq.pos.trans hpos) (hq.len.le.trans hshort) g
    · refine Set.disjoint_left.mp htaken hmem ⟨?_, ?_⟩
      · rw [hpos]
        exact Nat.le_add_right ..
      · rw [hpos]
        omega

variable {σ : Type} {h : Handler Op Resp σ} {pMtd : MtdPartition} {s s' : σ}
  {out : Outcome ExitReason MtdPartition} {xoobInfo : OobInfo}

/-- The marker of a NAND partition is placed properly exactly when the driver
places data itself, and what it says about the free bytes is not replaced by
a legacy place. -/
theorem placedProperly_iff (hnand : pMtd.cIsNAND = true)
    (hanswer : (h (.memGetOobSel pMtd.uiPartition) s).1 = some xoobInfo)
    (hrun : Ends h (mtdPartInitCleanMarker pMtd) s out s') :
    PlacedProperly xoobInfo pMtd.xInfo.oobsize out ↔ PlacedWhen xoobInfo pMtd.xInfo.oobsize := by
  obtain ⟨hout, -⟩ := hrun.unique (initCleanMarker_nand hnand hanswer)
  rw [hout]
  unfold placeMarker chosenPlace PlacedWhen
  cases hauto : xoobInfo.autoplace with
  | false =>
    dsimp only [PlacedProperly]
    rw [if_neg Bool.false_ne_true]
    dsimp only
    rw [hauto, if_neg Bool.false_ne_true]
    exact iff_of_false (legacyPlace_ne _) (fun hwhen => absurd hwhen.1 nofun)
  | true =>
    rw [if_pos rfl]
    by_cases hnone : xoobInfo.freeLength = 0
    · rw [if_pos hnone]
      exact iff_of_true trivial ⟨rfl, .inl hnone⟩
    · rw [if_neg hnone]
      by_cases hroom : xoobInfo.freeLength > 8
      · have hmin : min 8 xoobInfo.freeLength = 8 := min_eq_left (by omega)
        rw [if_pos hroom]
        dsimp only [PlacedProperly]
        rw [hauto, if_pos rfl, inFreeBytes_iff, hmin]
        exact iff_of_true ⟨rfl, rfl⟩ ⟨rfl, .inr (.inl hroom)⟩
      · rw [if_neg hroom]
        cases hplace : legacyPlace pMtd.xInfo.oobsize with
        | none => exact iff_of_true trivial ⟨rfl, .inr (.inr (.inl rfl))⟩
        | some place =>
          obtain ⟨uiClMPos, uiClMLen⟩ := place
          have hmin : min 8 xoobInfo.freeLength = xoobInfo.freeLength := min_eq_right (by omega)
          dsimp only [PlacedProperly]
          rw [hauto, if_pos rfl, inFreeBytes_iff, hmin, Option.some.injEq, Prod.mk.injEq]
          constructor
          · exact fun hsame => ⟨rfl, .inr (.inr (.inr hsame))⟩
          · rintro ⟨-, hzero | hmany | hmissing | hsame⟩
            · exact absurd hzero hnone
            · exact absurd hmany hroom
            · cases hmissing
            · exact hsame

/-- Six free bytes behind the mark of a bad block are left alone: the marker
goes to where it always went in an area of 64 bytes. Without a driver that
places data it goes to the front of the area. -/
theorem placed_over_others :
    (∃ w out, Ends (system (placingEnv ⟨true, 2, 6⟩)) (mtdPartInitCleanMarker (smallPart true))
      (smallWorld []) out w ∧ ¬PlacedProperly ⟨true, 2, 6⟩ 64 out) ∧
    ∃ w out, Ends (system (placingEnv ⟨false, 0, 0⟩)) (mtdPartInitCleanMarker (smallPart true))
      (smallWorld []) out w ∧ ¬PlacedProperly ⟨false, 0, 0⟩ 64 out := by
  refine ⟨⟨_, _, ⟨rfl, rfl⟩, fun hplaced => ?_⟩, ⟨_, _, ⟨rfl, rfl⟩, fun hplaced => ?_⟩⟩
  · have hpos : 16 = 2 := InFreeBytes.pos hplaced
    omega
  · have hplace : some (16, 8) = some (0, 8) := hplaced
    exact absurd hplace (by decide)

/-- With forty free bytes the marker is placed properly. -/
theorem placed_in_forty :
    PlacedProperly ⟨true, 24, 40⟩ 64 (.ret placedPart) ↔ PlacedWhen ⟨true, 24, 40⟩ 64 :=
  @placedProperly_iff World (system (placingEnv ⟨true, 24, 40⟩)) (smallPart true) (smallWorld [])
    _ (.ret placedPart) ⟨true, 24, 40⟩ rfl rfl ⟨rfl, rfl⟩

end Place

end MetaDigi.FlashMarkers
