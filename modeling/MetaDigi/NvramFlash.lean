import MetaDigi.FlashTransfer
import MetaDigi.SystemHistories

/-!
# Storing a block of the NVRAM

`NvPrivOSFlashWrite` writes a block and reads it back when bad blocks are to
be marked. Both loops count with the same variable: reading back starts to
count again, and the loop that called it is left afterwards in any case. What
is reported and marked is told from the answers of the system alone.
-/

namespace MetaDigi.NvramFlash

open CStrings SystemProgram SystemHistories FlashTypes FlashTransfer Prog

/-- The bytes of an object of the program, which takes less than half of the
addresses. -/
abbrev Object := {bs : Bytes // bs.length < 2 ^ 31}

/-- The calls of the function. The handle is always the one of the partition. -/
inductive NvOp where
  /-- `pwrite`, answered by the number of bytes written. -/
  | pwrite (pvBuf : Object) (iOffs : ℤ)
  /-- `malloc`, answered by the memory. -/
  | malloc (size : ℕ)
  /-- `pread`. -/
  | pread (iLength : ℕ) (iOffs : ℤ)
  /-- No call: `MemDump` prints a piece of a buffer. -/
  | memDump (pvBase : Bytes) (iOffset : ℤ) (iLen : ℕ)
  /-- `ioctl(MEMSETBADBLOCK)`, answered by the return value. -/
  | memSetBadBlock (iOffset : ℤ)

/-- What a call is answered with, nothing for an error. -/
abbrev NvResp : NvOp → Type
  | .pwrite pvBuf _ => Option (Fin (pvBuf.1.length + 1))
  | .malloc size => Option (Cells size)
  | .pread iLength _ => Option (Chunk iLength)
  | .memDump _ _ _ => Unit
  | .memSetBadBlock _ => ℤ

/-- `NV_SET_ERROR` with `NVE_IO` and the text for a number. -/
inductive NvError where
  /-- The number is `errno`. -/
  | errno
  /-- The number is what marking a block has returned. -/
  | iRet (iRet : ℤ)
  deriving DecidableEq, Repr

/-- A part of the function. -/
abbrev Nv := Prog NvOp NvResp Empty

/-- Issue a call. -/
abbrev ask (o : NvOp) : Nv (NvResp o) := Prog.perform o

/-- `bbMaxRetries`. -/
def bbMaxRetries : ℕ := 3

/-- An `int` that is compared with a `size_t` is converted to it first. -/
def toSize (i : ℤ) : ℕ := (i % 2 ^ 32).toNat

/-- The return value of `pwrite`. -/
def written {n : ℕ} (r : Option (Fin (n + 1))) : ℤ :=
  match r with
  | none => -1
  | some k => k.val

/-- The return value of `pread`. -/
def bytesRead {n : ℕ} (r : Option (Chunk n)) : ℤ :=
  match r with
  | none => -1
  | some bytes => bytes.1.length

/-- The buffer after `pread`. -/
def afterRead {n : ℕ} (buffer : Bytes) (r : Option (Chunk n)) : Bytes :=
  match r with
  | none => buffer
  | some bytes => fillBuffer buffer bytes.1

/-- `NvPrivMarkBadBlock`. -/
def nvPrivMarkBadBlock (iOffset : ℤ) : Nv ℤ := ask (.memSetBadBlock iOffset)

/-- One pass of the loop that reads back, over the counter and the buffer. -/
def readBackPass (pvBuf : Object) (iOffs : ℤ) : ℕ × Bytes → Nv ((ℕ × Bytes) ⊕ ℕ)
  | (i, pvRdBuf) => do
    if i < bbMaxRetries then
      let r ← ask (.pread pvBuf.1.length iOffs)
      let pvRdBuf := afterRead pvRdBuf r
      if toSize (bytesRead r) ≠ pvBuf.1.length then return .inl (i + 1, pvRdBuf)
      else if pvRdBuf ≠ pvBuf.1 then
        ask (.memDump pvBuf.1 (iOffs / 16 * 16) (min pvBuf.1.length 0x20))
        ask (.memDump pvRdBuf (iOffs / 16 * 16) (min (bytesRead r).toNat 0x20))
        return .inl (i + 1, pvRdBuf)
      else return .inr i
    else return .inr i

/-- One pass of the loop that writes, over the same counter. The loop is left
with the counter, or with what the function returns. -/
def writePass (fuel : ℕ) (g_markBadBlocks : Bool) (pvBuf : Object) (iOffs : ℤ) (i : ℕ) :
    Nv (ℕ ⊕ Except NvError ℕ) := do
  if i < bbMaxRetries then
    let r ← ask (.pwrite pvBuf iOffs)
    if toSize (written r) ≠ pvBuf.1.length then
      if g_markBadBlocks then return .inl (i + 1) else return .inr (.error .errno)
    else if g_markBadBlocks then
      match ← ask (.malloc pvBuf.1.length) with
      | none => return .inr (.error .errno)
      | some pvRdBuf =>
        let i ← Prog.loop (readBackPass pvBuf iOffs) fuel (0, pvRdBuf.1)
        return .inr (.ok i)
    else return .inr (.ok i)
  else return .inr (.ok i)

/-- `NvPrivOSFlashWrite`. -/
def nvPrivOSFlashWrite (fuel : ℕ) (g_markBadBlocks : Bool) (pvBuf : Object) (iOffs : ℤ) :
    Nv (Except NvError Unit) := do
  match ← Prog.loop (writePass fuel g_markBadBlocks pvBuf iOffs) fuel 0 with
  | .error e => return .error e
  | .ok i =>
    if g_markBadBlocks && bbMaxRetries ≤ i then
      let iRet ← nvPrivMarkBadBlock iOffs
      return .error (.iRet iRet)
    else return .ok ()

/-- The number of calls to `pwrite`. -/
def writes (past : List (Event NvOp NvResp)) : ℕ :=
  past.countP fun e => match e.1 with
    | .pwrite _ _ => true
    | _ => false

/-- The number of calls to `pread`. -/
def reads (past : List (Event NvOp NvResp)) : ℕ :=
  past.countP fun e => match e.1 with
    | .pread _ _ => true
    | _ => false

/-- The offsets that were marked. -/
def marks (past : List (Event NvOp NvResp)) : List ℤ :=
  past.filterMap fun e => match e.1 with
    | .memSetBadBlock iOffset => some iOffset
    | _ => none

/-- A call to `pwrite` wrote every byte, and `after` is what followed. -/
def WroteThen (pvBuf : Object) (iOffs : ℤ) (past after : List (Event NvOp NvResp)) : Prop :=
  ∃ before count, past = before ++ ⟨.pwrite pvBuf iOffs, some count⟩ :: after ∧
    count.val = pvBuf.1.length

/-- A call to `pread` for the same range returned the bytes of the buffer. -/
def ReadBack (pvBuf : Object) (iOffs : ℤ) (past : List (Event NvOp NvResp)) : Prop :=
  ∃ bytes, (⟨.pread pvBuf.1.length iOffs, some bytes⟩ : Event NvOp NvResp) ∈ past ∧
    bytes.1 = pvBuf.1

/-- The block was written and, where blocks are marked, read back afterwards. -/
def Stored (g_markBadBlocks : Bool) (pvBuf : Object) (iOffs : ℤ)
    (past : List (Event NvOp NvResp)) : Prop :=
  ∃ after, WroteThen pvBuf iOffs past after ∧ (g_markBadBlocks = true → ReadBack pvBuf iOffs after)

/-- What the function owes its caller. -/
structure Reports (g_markBadBlocks : Bool) (pvBuf : Object) (iOffs : ℤ)
    (past : List (Event NvOp NvResp)) (ret : Except NvError Unit) : Prop where
  /-- Success means that the block is stored. -/
  stored : ret = .ok () → Stored g_markBadBlocks pvBuf iOffs past
  /-- A block is marked once, at the offset, together with an error. -/
  marked : marks past = [] ∨ marks past = [iOffs] ∧ g_markBadBlocks = true ∧ ret ≠ .ok ()
  /-- The number of writes is limited. -/
  writes_le : writes past ≤ bbMaxRetries
  /-- The number of reads is limited. -/
  reads_le : reads past ≤ bbMaxRetries

section Answers

variable {pvBuf : Object}

/-- The number that counts as complete is the length. -/
theorem written_complete {r : Option (Fin (pvBuf.1.length + 1))}
    (hr : toSize (written r) = pvBuf.1.length) :
    ∃ count : Fin (pvBuf.1.length + 1), r = some count ∧ count.val = pvBuf.1.length := by
  have hlength := pvBuf.2
  cases r with
  | none =>
    simp only [toSize, written] at hr
    omega
  | some count =>
    have hcount := count.isLt
    simp only [toSize, written] at hr
    exact ⟨count, rfl, by omega⟩

theorem bytesRead_complete {r : Option (Chunk pvBuf.1.length)}
    (hr : toSize (bytesRead r) = pvBuf.1.length) :
    ∃ bytes : Chunk pvBuf.1.length, r = some bytes ∧ bytes.1.length = pvBuf.1.length := by
  have hlength := pvBuf.2
  cases r with
  | none =>
    simp only [toSize, bytesRead] at hr
    omega
  | some bytes =>
    have hbytes := bytes.2
    simp only [toSize, bytesRead] at hr
    exact ⟨bytes, rfl, by omega⟩

/-- A complete read replaces the buffer. -/
theorem fillBuffer_complete {buffer bytes : Bytes} (hsame : fillBuffer buffer bytes = pvBuf.1)
    (hlength : bytes.length = pvBuf.1.length) : bytes = pvBuf.1 := by
  have htake := congrArg (List.take bytes.length) hsame
  rwa [fillBuffer, List.take_left, hlength, List.take_length] at htake

end Answers

section Counts

variable (past es : List (Event NvOp NvResp))

@[simp] theorem writes_append : writes (past ++ es) = writes past + writes es :=
  List.countP_append

@[simp] theorem reads_append : reads (past ++ es) = reads past + reads es :=
  List.countP_append

@[simp] theorem marks_append : marks (past ++ es) = marks past ++ marks es :=
  List.filterMap_append

end Counts

section Loops

variable {g_markBadBlocks : Bool} {pvBuf : Object} {iOffs : ℤ} {i : ℕ}
  {past : List (Event NvOp NvResp)}

/-- What a call leaves behind it stays true when more calls follow. -/
theorem WroteThen.append {after : List (Event NvOp NvResp)} (h : WroteThen pvBuf iOffs past after)
    (es : List (Event NvOp NvResp)) : WroteThen pvBuf iOffs (past ++ es) (after ++ es) := by
  obtain ⟨before, count, hpast, hcount⟩ := h
  exact ⟨before, count, by rw [hpast, List.append_assoc, List.cons_append], hcount⟩

/-- Nothing is marked, and the limits are kept. -/
structure Tried (past : List (Event NvOp NvResp)) : Prop where
  /-- No block has been marked. -/
  unmarked : marks past = []
  /-- The number of writes is limited. -/
  writes_le : writes past ≤ bbMaxRetries
  /-- The number of reads is limited. -/
  reads_le : reads past ≤ bbMaxRetries

/-- The invariant of the loop that reads back. -/
structure Reading (pvBuf : Object) (iOffs : ℤ) (i : ℕ) (past : List (Event NvOp NvResp)) :
    Prop where
  /-- The limits are kept. -/
  tried : Tried past
  /-- A write has succeeded. -/
  wrote : ∃ after, WroteThen pvBuf iOffs past after
  /-- The counter tells the reads. -/
  counted : reads past = i

/-- How the loops are left, with the last value of the counter. -/
structure Left (g_markBadBlocks : Bool) (pvBuf : Object) (iOffs : ℤ) (i : ℕ)
    (past : List (Event NvOp NvResp)) : Prop where
  /-- The limits are kept. -/
  tried : Tried past
  /-- Below the limit the block is stored. -/
  stored : i < bbMaxRetries → Stored g_markBadBlocks pvBuf iOffs past
  /-- The limit is only reached when blocks are marked. -/
  exhausted : bbMaxRetries ≤ i → g_markBadBlocks = true

/-- The invariant of the loop that writes. -/
structure Writing (g_markBadBlocks : Bool) (i : ℕ) (past : List (Event NvOp NvResp)) : Prop where
  /-- Nothing has been marked. -/
  unmarked : marks past = []
  /-- The counter tells the writes. -/
  counted : writes past = i
  /-- Nothing has been read back. -/
  unread : reads past = 0
  /-- The counter is limited. -/
  counter_le : i ≤ bbMaxRetries
  /-- Without marking there is no second attempt. -/
  single : g_markBadBlocks = false → i = 0

/-- What the loop that reads back is for. -/
def ReadsBack (pvBuf : Object) (iOffs : ℤ) (past : List (Event NvOp NvResp)) :
    Outcome Empty ℕ → Prop
  | .ret i => Left true pvBuf iOffs i past
  | .exit _ => False
  | .hang => False

/-- What the loop that writes is for. -/
def Writes (g_markBadBlocks : Bool) (pvBuf : Object) (iOffs : ℤ)
    (past : List (Event NvOp NvResp)) : Outcome Empty (Except NvError ℕ) → Prop
  | .ret (.ok i) => Left g_markBadBlocks pvBuf iOffs i past
  | .ret (.error _) => Tried past
  | .exit _ => False
  | .hang => False

/-- A call to `pread`, and what is printed, below the limit. -/
theorem Reading.next (h : Reading pvBuf iOffs i past) (hi : i < bbMaxRetries)
    {es : List (Event NvOp NvResp)} (hmarks : marks es = []) (hwrites : writes es = 0)
    (hreads : reads es = 1) : Reading pvBuf iOffs (i + 1) (past ++ es) := by
  obtain ⟨after, hwrote⟩ := h.wrote
  have hcounted := h.counted
  have hlimit := h.tried.writes_le
  refine ⟨⟨?_, ?_, ?_⟩, ⟨_, hwrote.append es⟩, ?_⟩
  · rw [marks_append, h.tried.unmarked, hmarks, List.append_nil]
  · rw [writes_append]
    omega
  · rw [reads_append]
    omega
  · rw [reads_append]
    omega

/-- One pass over a page that is read back. -/
theorem readBackPass_after (st : ℕ × Bytes) (h : Reading pvBuf iOffs st.1 past) :
    After (Pass (fun st past => Reading pvBuf iOffs st.1 past) (fun st => bbMaxRetries - st.1)
      (bbMaxRetries - st.1) (ReadsBack pvBuf iOffs)) (readBackPass pvBuf iOffs st) past := by
  obtain ⟨i, pvRdBuf⟩ := st
  unfold readBackPass
  dsimp only at h ⊢
  by_cases hi : i < bbMaxRetries
  · have hlower : bbMaxRetries - (i + 1) < bbMaxRetries - i := by omega
    rw [if_pos hi]
    refine after_call fun r => ?_
    split
    · exact after_pure ⟨h.next hi rfl rfl rfl, hlower⟩
    · rename_i hread
      split
      · refine after_call fun _ => after_call fun _ => after_pure ⟨?_, hlower⟩
        rw [List.append_assoc, List.append_assoc]
        exact h.next hi rfl rfl rfl
      · rename_i hsame
        have hnext : Reading pvBuf iOffs (i + 1) (past ++ [⟨.pread pvBuf.1.length iOffs, r⟩]) :=
          h.next hi rfl rfl rfl
        obtain ⟨bytes, hr, hlength⟩ := bytesRead_complete (not_not.mp hread)
        obtain ⟨after, hwrote⟩ := h.wrote
        rw [hr] at hsame
        have hbytes := fillBuffer_complete (not_not.mp hsame) hlength
        refine after_pure ⟨hnext.tried, fun _ => ⟨_, hwrote.append _, fun _ => ⟨bytes, ?_, hbytes⟩⟩,
          fun _ => rfl⟩
        rw [hr]
        exact List.mem_append_right _ (List.mem_singleton_self _)
  · rw [if_neg hi]
    exact after_pure ⟨h.tried, fun hlt => absurd hlt hi, fun _ => rfl⟩

/-- One pass over a page that is written. -/
theorem writePass_after {fuel : ℕ} (hfuel : bbMaxRetries < fuel) (i : ℕ)
    (h : Writing g_markBadBlocks i past) :
    After (Pass (Writing g_markBadBlocks) (fun i => bbMaxRetries - i) (bbMaxRetries - i)
      (Writes g_markBadBlocks pvBuf iOffs)) (writePass fuel g_markBadBlocks pvBuf iOffs i) past := by
  have hcounted := h.counted
  have hunread := h.unread
  unfold writePass
  by_cases hi : i < bbMaxRetries
  · have hlower : bbMaxRetries - (i + 1) < bbMaxRetries - i := by omega
    rw [if_pos hi]
    refine after_call fun r => ?_
    have htried : Tried (past ++ [⟨.pwrite pvBuf iOffs, r⟩]) := by
      refine ⟨?_, ?_, ?_⟩
      · rw [marks_append, h.unmarked]
        rfl
      · rw [writes_append, hcounted]
        exact hi
      · rw [reads_append, hunread]
        exact Nat.zero_le _
    split
    · cases hmark : g_markBadBlocks with
      | true =>
        refine after_pure ⟨⟨htried.unmarked, ?_, ?_, hi, nofun⟩, hlower⟩
        · rw [writes_append, hcounted]
          rfl
        · rw [reads_append, hunread]
          rfl
      | false => exact after_pure htried
    · rename_i hwritten
      obtain ⟨count, hr, hcount⟩ := written_complete (not_not.mp hwritten)
      have hwrote : WroteThen pvBuf iOffs (past ++ [⟨.pwrite pvBuf iOffs, r⟩]) [] :=
        ⟨past, count, by rw [hr], hcount⟩
      cases hmark : g_markBadBlocks with
      | true =>
        refine after_call fun buffer => ?_
        have hallocated : Tried (past ++ [⟨.pwrite pvBuf iOffs, r⟩] ++
            [⟨.malloc pvBuf.1.length, buffer⟩]) := by
          refine ⟨?_, ?_, ?_⟩
          · rw [marks_append, htried.unmarked]
            rfl
          · rw [writes_append]
            exact htried.writes_le
          · rw [reads_append]
            exact htried.reads_le
        cases buffer with
        | none => exact after_pure hallocated
        | some pvRdBuf =>
          refine After.andThen (After.mono (After.loop (fun st past => readBackPass_after st)
            (Nat.lt_of_le_of_lt (Nat.sub_le _ _) hfuel) ⟨hallocated, ⟨_, hwrote.append _⟩, ?_⟩)
            fun past out hout => ?_)
          · rw [reads_append, reads_append, hunread]
            rfl
          · cases out with
            | ret i => exact after_pure hout
            | exit e => exact hout.elim
            | hang => exact hout.elim
      | false =>
        exact after_pure ⟨htried, fun _ => ⟨[], hwrote, nofun⟩, fun hle => absurd hle (by omega)⟩
  · rw [if_neg hi]
    refine after_pure ⟨⟨h.unmarked, ?_, ?_⟩, fun hlt => absurd hlt hi, fun _ => ?_⟩
    · rw [hcounted]
      exact h.counter_le
    · rw [hunread]
      exact Nat.zero_le _
    · cases hmark : g_markBadBlocks with
      | true => rfl
      | false => exact absurd (h.single hmark ▸ hi : ¬ 0 < bbMaxRetries) (by decide)

end Loops

/-- Whatever the system answers, the function returns, and what it reports and
marks is so. -/
theorem nvPrivOSFlashWrite_reports (g_markBadBlocks : Bool) (pvBuf : Object) (iOffs : ℤ)
    {fuel : ℕ} (hfuel : bbMaxRetries < fuel) {σ : Type} (h : Handler NvOp NvResp σ) (s : σ) :
    ∃ ret, (exec h everyCall (nvPrivOSFlashWrite fuel g_markBadBlocks pvBuf iOffs) s).outcome =
        .ret ret ∧
      Reports g_markBadBlocks pvBuf iOffs
        (history h (nvPrivOSFlashWrite fuel g_markBadBlocks pvBuf iOffs) s) ret := by
  have hafter : After (fun past out => ∃ ret, out = .ret ret ∧
      Reports g_markBadBlocks pvBuf iOffs past ret)
      (nvPrivOSFlashWrite fuel g_markBadBlocks pvBuf iOffs) [] := by
    refine After.andThen (After.mono (After.loop (fun i past => writePass_after hfuel i)
      (Nat.lt_of_le_of_lt (Nat.sub_le _ _) hfuel)
      ⟨rfl, rfl, rfl, Nat.zero_le _, fun _ => rfl⟩) fun past out hout => ?_)
    cases out with
    | exit e => exact hout.elim
    | hang => exact hout.elim
    | ret left =>
      cases left with
      | error e =>
        have htried : Tried past := hout
        dsimp only [Sequel]
        exact after_pure ⟨.error e, rfl, nofun, .inl htried.unmarked, htried.writes_le,
          htried.reads_le⟩
      | ok i =>
        have htried := hout.tried
        dsimp only [Sequel]
        split
        · rename_i hexhausted
          rw [Bool.and_eq_true, decide_eq_true_eq] at hexhausted
          refine after_call fun iRet => after_pure ⟨.error (.iRet iRet), rfl, nofun,
            .inr ⟨?_, hexhausted.1, nofun⟩, ?_, ?_⟩
          · rw [marks_append, htried.unmarked]
            rfl
          · rw [writes_append]
            exact htried.writes_le
          · rw [reads_append]
            exact htried.reads_le
        · rename_i hleft
          have hi : i < bbMaxRetries := by
            rw [Bool.and_eq_true, decide_eq_true_eq] at hleft
            by_contra hle
            exact hleft ⟨hout.exhausted (not_lt.mp hle), not_lt.mp hle⟩
          exact after_pure ⟨_, rfl, fun _ => hout.stored hi, .inl htried.unmarked,
            htried.writes_le, htried.reads_le⟩
  exact hafter.run h s

/-- A partition that takes every write and always reads as zeros. -/
def deafPartition : Handler NvOp NvResp Unit := fun o s =>
  match o with
  | .pwrite _ _ => (some (Fin.last _), s)
  | .malloc size => (some ⟨List.replicate size 0, length_zeros size⟩, s)
  | .pread _ _ => (some ⟨List.replicate _ 0, List.length_replicate.le⟩, s)
  | .memDump _ _ _ => ((), s)
  | .memSetBadBlock _ => (0, s)

/-- A byte that is never stored: its block is marked. -/
theorem nvPrivOSFlashWrite_reports_deaf :
    (exec deafPartition everyCall
      (nvPrivOSFlashWrite 4 true ⟨text "1", by decide⟩ 64) ()).outcome = .ret (.error (.iRet 0)) ∧
    marks (history deafPartition (nvPrivOSFlashWrite 4 true ⟨text "1", by decide⟩ 64) ()) = [64] ∧
    ∃ ret, (exec deafPartition everyCall
      (nvPrivOSFlashWrite 4 true ⟨text "1", by decide⟩ 64) ()).outcome = .ret ret ∧
      Reports true ⟨text "1", by decide⟩ 64
        (history deafPartition (nvPrivOSFlashWrite 4 true ⟨text "1", by decide⟩ 64) ()) ret :=
  ⟨rfl, rfl, nvPrivOSFlashWrite_reports true _ 64 (by decide) deafPartition ()⟩

end MetaDigi.NvramFlash
