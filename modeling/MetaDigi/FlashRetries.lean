import MetaDigi.FlashDevice
import MetaDigi.SystemHistories

/-!
# Writing a page until it reads back

With bad blocks to be marked, every page is read back and its checksum is
compared, in a few attempts. The buffer for reading back is kept between the
attempts, and a read may fill its front only: whether a page that is passed
over was really verified depends on what is left behind that front.
-/

namespace MetaDigi.FlashRetries

open CStrings SystemProgram SystemHistories FlashTypes FlashInit FlashTransfer FlashWorld
open FlashDevice Crc32 Prog

/-- A history of the tool. -/
abbrev Past := List (Event Op Resp)

/-- The calls that write, one for each attempt. -/
def attempts (past : Past) : ℕ :=
  past.countP fun e => match e.1 with
    | .pwrite _ _ _ => true
    | _ => false

/-- The blocks that were marked, by partition and offset. -/
def marked (past : Past) : List (ℕ × ℕ) :=
  past.filterMap fun e => match e.1 with
    | .memSetBadBlock part offset => some (part, offset)
    | _ => none

/-- The history ends with an attempt that wrote the whole page and read it
back whole, with the checksum of the page. -/
def Verified (pMtd : MtdPartition) (pucBuffer : Bytes) (iCurrentOffs : ℕ) (past : Past) : Prop :=
  ∃ before, ∃ written : ℤ, ∃ bytes : Chunk pMtd.iPageSize,
    past = before ++ [⟨.pwrite pMtd.uiPartition pucBuffer iCurrentOffs, written⟩,
      ⟨.pread pMtd.uiPartition pMtd.iPageSize iCurrentOffs, some bytes⟩] ∧
    written = pucBuffer.length ∧ bytes.1.length = pMtd.iPageSize ∧
    crc32 0 bytes.1 = crc32 0 pucBuffer

/-- What is promised of a page: it is passed over only when it has been
verified, and nothing is marked then; otherwise its block is marked once, and
the tool is left. The number of attempts is limited. -/
structure Vouched (pMtd : MtdPartition) (pucBuffer : Bytes) (iCurrentOffs : ℕ) (past : Past)
    (out : Outcome ExitReason Unit) : Prop where
  /-- The page has been verified. -/
  verified : out = .ret () → Verified pMtd pucBuffer iCurrentOffs past
  /-- Nothing is marked on the way to the next page. -/
  unmarked : out = .ret () → marked past = []
  /-- The block of the page is marked, and no other. -/
  marks : out ≠ .ret () → marked past = [(pMtd.uiPartition, iCurrentOffs)]
  /-- The tool is left with a failure. -/
  fails : out ≠ .ret () → ∃ e, out = .exit e
  /-- The attempts are limited. -/
  attempts_le : attempts past ≤ cMaxRetries

/-- What the buffer for reading back holds after these answers. -/
def heldAfter (buffer : Bytes) (past : Past) : Bytes :=
  past.foldl (fun held e => match e with
    | ⟨.pread _ _ _, some bytes⟩ => fillBuffer held bytes.1
    | _ => held) buffer

/-- An answer to `pread` that is short, and yet completes the buffer to data
with the checksum of the page. -/
def StaleAnswer (pucBuffer held : Bytes) : Event Op Resp → Prop
  | ⟨.pread _ size _, some bytes⟩ =>
    bytes.1.length < size ∧ crc32 0 (fillBuffer held bytes.1) = crc32 0 pucBuffer
  | _ => False

/-- There is such an answer in a history. -/
def StaleMatch (pucBuffer buffer : Bytes) (past : Past) : Prop :=
  ∃ before e after, past = before ++ e :: after ∧
    StaleAnswer pucBuffer (heldAfter buffer before) e

section Histories

variable {pucBuffer buffer : Bytes} (past es : Past) (e : Event Op Resp)

@[simp] theorem attempts_append : attempts (past ++ es) = attempts past + attempts es :=
  List.countP_append

@[simp] theorem marked_append : marked (past ++ es) = marked past ++ marked es :=
  List.filterMap_append

theorem heldAfter_append :
    heldAfter buffer (past ++ es) = heldAfter (heldAfter buffer past) es :=
  List.foldl_append

theorem not_staleMatch_nil : ¬ StaleMatch pucBuffer buffer [] := not_occurs_nil

/-- One more answer. -/
theorem staleMatch_snoc : StaleMatch pucBuffer buffer (past ++ [e]) ↔
    StaleMatch pucBuffer buffer past ∨ StaleAnswer pucBuffer (heldAfter buffer past) e :=
  occurs_snoc

end Histories

/-- The bytes of a read that is not short are all that the buffer holds. -/
theorem fillBuffer_whole {held bytes : Bytes} (hlength : held.length ≤ bytes.length) :
    fillBuffer held bytes = bytes := by
  rw [fillBuffer, List.drop_of_length_le hlength, List.append_nil]

theorem fillBuffer_length {held bytes : Bytes} (hlength : bytes.length ≤ held.length) :
    (fillBuffer held bytes).length = held.length := by
  rw [fillBuffer, List.length_append, List.length_drop]
  omega

section Page

variable {g : Globals} {pMtd : MtdPartition} {pucBuffer buffer held : Bytes} {iCurrentOffs : ℕ}
  {past : Past}

/-- What is known before an attempt. -/
structure Trying (pMtd : MtdPartition) (pucBuffer buffer held : Bytes) (left : ℕ) (past : Past) :
    Prop where
  /-- Nothing has been marked. -/
  unmarked : marked past = []
  /-- The attempts made and those left. -/
  counted : attempts past + left = cMaxRetries
  /-- The contents of the buffer. -/
  held_eq : held = heldAfter buffer past
  /-- Its size. -/
  size : held.length = pMtd.iPageSize
  /-- No short answer has been taken for the page. -/
  fresh : ¬ StaleMatch pucBuffer buffer past

/-- How the attempts end. -/
def Tried (pMtd : MtdPartition) (pucBuffer buffer : Bytes) (iCurrentOffs : ℕ) (past : Past) :
    Outcome ExitReason Bool → Prop
  | .ret done => marked past = [] ∧ attempts past ≤ cMaxRetries ∧
    (done = false → ¬ StaleMatch pucBuffer buffer past) ∧
    (done = true → (Verified pMtd pucBuffer iCurrentOffs past ↔ ¬ StaleMatch pucBuffer buffer past))
  | .exit _ => False
  | .hang => False

/-- An answer that ends an attempt in failure. -/
theorem Trying.next {left : ℕ} (h : Trying pMtd pucBuffer buffer held (left + 1) past)
    {es : Past} (hmarked : marked es = []) (hattempts : attempts es = 1) {held' : Bytes}
    (hheld : held' = heldAfter held es) (hsize : held'.length = held.length)
    (hfresh : ¬ StaleMatch pucBuffer buffer (past ++ es)) :
    Trying pMtd pucBuffer buffer held' left (past ++ es) := by
  have hcounted := h.counted
  refine ⟨?_, ?_, ?_, hsize.trans h.size, hfresh⟩
  · rw [marked_append, h.unmarked, hmarked, List.append_nil]
  · rw [attempts_append, hattempts]
    omega
  · rw [hheld, h.held_eq, heldAfter_append]

/-- A write does not touch the buffer. -/
theorem fresh_pwrite (hfresh : ¬ StaleMatch pucBuffer buffer past) (part offset : ℕ) (data : Bytes)
    (r : ℤ) : ¬ StaleMatch pucBuffer buffer (past ++ [⟨.pwrite part data offset, r⟩]) := by
  rw [staleMatch_snoc]
  rintro (hpast | hlast)
  · exact hfresh hpast
  · exact hlast

/-- The loop over the attempts. -/
theorem writeAttempts_after (hdry : g.cDryRun = false) (hmarks : g.cMarkBadBlocks = true)
    (left : ℕ) (h : Trying pMtd pucBuffer buffer held left past) :
    After (Tried pMtd pucBuffer buffer iCurrentOffs)
      (writeAttempts g pMtd pucBuffer iCurrentOffs left held) past := by
  have hboth : (!g.cDryRun && g.cMarkBadBlocks) = true := by
    rw [hdry, hmarks]
    rfl
  induction left generalizing held past with
  | zero =>
    have hcounted := h.counted
    exact after_pure ⟨h.unmarked, by omega, fun _ => h.fresh, nofun⟩
  | succ left ih =>
    unfold writeAttempts pwriteUnlessDry
    rw [hdry, if_neg Bool.false_ne_true]
    refine after_call fun iBytesWritten => ?_
    have hwritten := fresh_pwrite h.fresh pMtd.uiPartition iCurrentOffs pucBuffer iBytesWritten
    rw [hdry] at hboth
    by_cases hcount : iBytesWritten = (pucBuffer.length : ℤ)
    case neg =>
      rw [if_pos hcount, if_pos hboth]
      exact ih (h.next rfl rfl rfl rfl hwritten)
    case pos =>
      rw [if_neg (not_not.mpr hcount), if_pos hboth]
      refine after_call fun answer => ?_
      rw [List.append_assoc]
      have hanswer : StaleMatch pucBuffer buffer (past ++
          ([⟨.pwrite pMtd.uiPartition pucBuffer iCurrentOffs, iBytesWritten⟩] ++
            [⟨.pread pMtd.uiPartition pMtd.iPageSize iCurrentOffs, answer⟩])) ↔
          StaleAnswer pucBuffer held
            ⟨.pread pMtd.uiPartition pMtd.iPageSize iCurrentOffs, answer⟩ := by
        rw [← List.append_assoc, staleMatch_snoc, or_iff_right hwritten, heldAfter_append,
          ← h.held_eq]
        rfl
      cases answer with
      | none => exact ih (h.next rfl rfl rfl rfl (mt hanswer.mp id))
      | some bytes =>
        have hlength : bytes.1.length ≤ held.length := h.size.symm ▸ bytes.2
        dsimp only
        split
        · rename_i hdiffers
          exact ih (h.next rfl rfl rfl (fillBuffer_length hlength)
            (mt hanswer.mp fun hstale => hdiffers hstale.2))
        · rename_i hsame
          have hcounted := h.counted
          refine after_pure ⟨?_, ?_, nofun, fun _ => ?_⟩
          · rw [marked_append, h.unmarked]
            rfl
          · rw [attempts_append]
            exact (Nat.add_le_add_left (Nat.succ_le_succ (Nat.zero_le left)) _).trans_eq hcounted
          · rw [hanswer]
            constructor
            · rintro ⟨before, written, whole, hpast, -, hwhole, -⟩ ⟨hshort, -⟩
              have hlast := (List.append_inj' hpast rfl).2
              simp only [List.singleton_append, List.cons.injEq, Sigma.mk.injEq, heq_eq_eq,
                true_and, and_true, Option.some.injEq] at hlast
              rw [hlast.2] at hshort
              exact absurd hwhole (Nat.ne_of_lt hshort)
            · intro hstale
              have hwhole : bytes.1.length = pMtd.iPageSize := by
                by_contra hne
                exact hstale ⟨Nat.lt_of_le_of_ne bytes.2 hne, not_not.mp hsame⟩
              refine ⟨past, iBytesWritten, bytes, rfl, hcount, hwhole, ?_⟩
              rw [← fillBuffer_whole (h.size.le.trans_eq hwhole.symm)]
              exact not_not.mp hsame

end Page

/-- The attempts, and what follows from how they end. -/
def passOrMark (g : Globals) (pMtd : MtdPartition) (pucBuffer : Bytes) (iCurrentOffs : ℕ)
    (held : Bytes) : Flash Unit := do
  let done ← writeAttempts g pMtd pucBuffer iCurrentOffs cMaxRetries held
  if done then return ()
  else
    let _ ← mtdMarkBadBlock pMtd iCurrentOffs
    fail (.systemError .mtdPartWrite (.memSetBadBlock pMtd.uiPartition iCurrentOffs))

theorem history_sysOrFail {σ α β : Type} {h : Handler Op Resp σ} {s : σ} {inside : Func} {o : Op}
    {answer : Resp o → Option α} {a : α} (ha : answer (h o s).1 = some a) (f : α → Flash β) :
    history h (sysOrFail inside o answer >>= f) s = ⟨o, (h o s).1⟩ :: history h (f a) (h o s).2 := by
  unfold sysOrFail
  rw [andThen_assoc, history_call rfl]
  simp only [ha]
  rfl

theorem outcome_sysOrFail {σ α β : Type} {h : Handler Op Resp σ} {s : σ} {inside : Func} {o : Op}
    {answer : Resp o → Option α} {a : α} (ha : answer (h o s).1 = some a) (f : α → Flash β) :
    (exec h everyCall (sysOrFail inside o answer >>= f) s).outcome =
      (exec h everyCall (f a) (h o s).2).outcome := by
  unfold sysOrFail
  rw [andThen_assoc, outcome_call rfl]
  simp only [ha]
  rfl

/-- After the memory for reading back has been found. -/
theorem passOrMark_after {g : Globals} {pMtd : MtdPartition} {pucBuffer : Bytes}
    {iCurrentOffs : ℕ} (hdry : g.cDryRun = false) (hmarks : g.cMarkBadBlocks = true)
    (buffer : Cells pMtd.iPageSize) :
    After (fun past out => Vouched pMtd pucBuffer iCurrentOffs past out ↔
      ¬ StaleMatch pucBuffer buffer.1 past) (passOrMark g pMtd pucBuffer iCurrentOffs buffer.1)
      [⟨.malloc pMtd.iPageSize, some buffer⟩] := by
  have hstart : Trying pMtd pucBuffer buffer.1 buffer.1 cMaxRetries
      [⟨.malloc pMtd.iPageSize, some buffer⟩] := by
    refine ⟨rfl, rfl, rfl, buffer.2, ?_⟩
    rw [← List.nil_append [_], staleMatch_snoc]
    rintro (hnil | hmalloc)
    · exact not_staleMatch_nil hnil
    · exact hmalloc
  refine After.andThen ((writeAttempts_after hdry hmarks cMaxRetries hstart).mono
    fun past out hout => ?_)
  cases out with
  | exit e => exact hout.elim
  | hang => exact hout.elim
  | ret done =>
    obtain ⟨hunmarked, hattempts, hfailed, hpassed⟩ := hout
    cases done with
    | true =>
      dsimp only [Sequel]
      refine after_pure ⟨fun hvouched => (hpassed rfl).mp (hvouched.verified rfl), fun hfresh => ?_⟩
      exact ⟨fun _ => (hpassed rfl).mpr hfresh, fun _ => hunmarked, fun hne => absurd rfl hne,
        fun hne => absurd rfl hne, hattempts⟩
    | false =>
      dsimp only [Sequel]
      refine after_call fun r => after_exit ?_
      have hfresh : ¬ StaleMatch pucBuffer buffer.1
          (past ++ [⟨.memSetBadBlock pMtd.uiPartition iCurrentOffs, r⟩]) := by
        rw [staleMatch_snoc]
        rintro (hpast | hmark)
        · exact hfailed rfl hpast
        · exact hmark
      refine iff_of_true ⟨nofun, nofun, fun _ => ?_, fun _ => ⟨_, rfl⟩, ?_⟩ hfresh
      · rw [marked_append, hunmarked]
        rfl
      · rw [attempts_append]
        exact hattempts

/-- Exactly when no short answer to `pread` completes what the buffer holds to
data with the checksum of the page, the page is vouched for. -/
theorem writePage_vouched_iff {g : Globals} {pMtd : MtdPartition} (pucBuffer : Bytes)
    (iCurrentOffs : ℕ) (hdry : g.cDryRun = false) (hmarks : g.cMarkBadBlocks = true)
    {σ : Type} (h : Handler Op Resp σ) (s : σ) (buffer : Cells pMtd.iPageSize)
    (hbuffer : (h (.malloc pMtd.iPageSize) s).1 = some buffer) :
    Vouched pMtd pucBuffer iCurrentOffs (history h (writePage g pMtd pucBuffer iCurrentOffs) s)
        (exec h everyCall (writePage g pMtd pucBuffer iCurrentOffs) s).outcome ↔
      ¬ StaleMatch pucBuffer buffer.1 (history h (writePage g pMtd pucBuffer iCurrentOffs) s) := by
  have hboth : (!g.cDryRun && g.cMarkBadBlocks) = true := by
    rw [hdry, hmarks]
    rfl
  have hafter : After (fun past out => Vouched pMtd pucBuffer iCurrentOffs past out ↔
      ¬ StaleMatch pucBuffer buffer.1 past) (passOrMark g pMtd pucBuffer iCurrentOffs buffer.1)
      [⟨.malloc pMtd.iPageSize, some buffer⟩] :=
    passOrMark_after hdry hmarks buffer
  have hanswer : ((h (.malloc pMtd.iPageSize) s).1).map Subtype.val = some buffer.1 := by
    rw [hbuffer]
    rfl
  have hpage : writePage g pMtd pucBuffer iCurrentOffs =
      sysOrFail .mtdPartWrite (.malloc pMtd.iPageSize) (fun r => r.map Subtype.val) >>=
        passOrMark g pMtd pucBuffer iCurrentOffs := by
    unfold writePage readBackBuffer
    rw [if_pos hboth]
    rfl
  rw [hpage, history_sysOrFail hanswer, outcome_sysOrFail hanswer, hbuffer]
  exact hafter.run h _

/-- A system with cleared memory whose reads bring at most so many zeros. -/
def zeroReads (count : ℕ) : Handler Op Resp Unit := fun o s =>
  match o with
  | .malloc size => (some ⟨List.replicate size 0, length_zeros size⟩, s)
  | .pread _ size _ =>
    (some ⟨List.replicate (min count size) 0, List.length_replicate.le.trans (min_le_right ..)⟩, s)
  | o => ((respond smallEnv false o (smallWorld [])).1, s)

/-- A record with pages of four bytes. -/
def zeroPart : MtdPartition := { cleared with iPageSize := 4 }

/-- Writing a page of zeros, with bad blocks to be marked. -/
abbrev writeZeros : Flash Unit :=
  writePage { fuel := 0, cMarkBadBlocks := true } zeroPart (List.replicate 4 0) 0

/-- A page of zeros is passed over although nothing at all was read back. -/
theorem writePage_unread :
    (exec (zeroReads 0) everyCall writeZeros ()).outcome = .ret () ∧
    ¬ Vouched zeroPart (List.replicate 4 0) 0
      (history (zeroReads 0) writeZeros ()) (exec (zeroReads 0) everyCall writeZeros ()).outcome := by
  refine ⟨rfl, fun hvouched => ?_⟩
  obtain ⟨before, written, bytes, hpast, -, hwhole, -⟩ := hvouched.verified rfl
  have hlast : (history (zeroReads 0) writeZeros ()).getLast? =
      some ⟨.pread 0 4 0, some ⟨[], Nat.zero_le 4⟩⟩ := rfl
  rw [hpast, List.getLast?_append] at hlast
  simp only [List.getLast?_cons_cons, List.getLast?_singleton, Option.some_or, Option.some.injEq,
    Sigma.mk.injEq] at hlast
  have hbytes := Option.some.inj (eq_of_heq hlast.2)
  rw [hbytes] at hwhole
  exact absurd hwhole (by decide)

/-- A page of zeros that is read back whole is vouched for. -/
theorem writePage_whole :
    Vouched zeroPart (List.replicate 4 0) 0
      (history (zeroReads 4) writeZeros ()) (exec (zeroReads 4) everyCall writeZeros ()).outcome := by
  refine (writePage_vouched_iff (List.replicate 4 0) 0 rfl rfl (zeroReads 4) ()
    ⟨List.replicate 4 0, rfl⟩ rfl).mpr ?_
  rintro ⟨before, e, after, hpast, hstale⟩
  have he : e ∈ history (zeroReads 4) writeZeros () := by
    rw [hpast]
    exact List.mem_append_right _ (List.mem_cons_self ..)
  have hwhole : ∀ q ∈ history (zeroReads 4) writeZeros (),
      ∀ held, ¬ StaleAnswer (List.replicate 4 0) held q :=
    List.forall_mem_cons.mpr ⟨fun _ => id, List.forall_mem_cons.mpr ⟨fun _ => id,
      List.forall_mem_cons.mpr ⟨fun _ hstale => absurd hstale.1 (by decide),
        fun _ hq => absurd hq List.not_mem_nil⟩⟩⟩
  exact hwhole e he _ hstale

end MetaDigi.FlashRetries
