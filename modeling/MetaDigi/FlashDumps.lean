import Mathlib.Data.List.Find
import MetaDigi.FlashEffects
import MetaDigi.FlashWorld
import MetaDigi.MemDump
import MetaDigi.NvramFlash

/-!
# What is printed of a difference

When a page differs, the source and the flash are printed around the first
difference. The range begins at an offset that is rounded down to a row and
is up to two rows long, whatever is left of the page. In the NVRAM library the
offset is not even one in the buffer but the one of the block in flash.
-/

namespace MetaDigi.FlashDumps

open CStrings SystemProgram SystemHistories FlashTypes FlashInit FlashTransfer FlashEffects
open FlashWorld MemDump NvramFlash Prog

/-- A piece of a buffer that is printed lies in it. -/
def PrintsBuffer (buffer : Bytes) (iOffset : ℤ) (iLen : ℕ) : Prop :=
  ∃ rows, memDump buffer iOffset iLen = some rows ∧ PrintsRange buffer iOffset iLen rows

section Verify

/-- An event of `MtdPartVerify` at which only a buffer is read that has been
given. -/
def Printed (e : Event Op Resp) : Prop :=
  match e with
  | ⟨.memDump buffer iOffset iLen, _⟩ => PrintsBuffer buffer iOffset iLen
  | _ => True

/-- An event that tells nothing about a page. -/
def Idle (e : Event Op Resp) : Prop :=
  match e with
  | ⟨.memDump _ _ _, _⟩ => False
  | ⟨.readSrc _, _⟩ => False
  | ⟨.pread _ _ _, some _⟩ => False
  | _ => True

/-- The piece of the image that was read last. -/
def lastPiece (past : List (Event Op Resp)) : Bytes :=
  past.foldl (fun piece e => match e with
    | ⟨.readSrc _, some bytes⟩ => bytes.1
    | _ => piece) []

/-- The ranges around a difference end inside a page. -/
structure EndsInPage (iBlockSize iBytesReadSrc iBytesReadMtd iOffs : ℕ) : Prop where
  /-- The one of the source. -/
  src : iOffs / 16 * 16 + min iBytesReadSrc 0x20 ≤ iBlockSize
  /-- The one of the flash. -/
  mtd : iOffs / 16 * 16 + min iBytesReadMtd 0x20 ≤ iBlockSize

/-- A page has been read that differs from the last piece of the image, and the
ranges around the difference do not end inside the page. -/
def DiffersLate (iBlockSize : ℕ) (past : List (Event Op Resp)) (e : Event Op Resp) : Prop :=
  match e with
  | ⟨.pread _ _ _, some bytes⟩ =>
    (lastPiece past).length ≤ bytes.1.length ∧
      ∃ iOffs, memCmp (lastPiece past) bytes.1 (lastPiece past).length = some iOffs ∧
        ¬ EndsInPage iBlockSize (lastPiece past).length bytes.1.length iOffs
  | _ => False

/-- Nothing has been printed that is not in its buffer, just when no page has
differed late. -/
def Sound (iBlockSize : ℕ) (past : List (Event Op Resp)) : Prop :=
  (∀ e ∈ past, Printed e) ↔ ¬ Occurs (DiffersLate iBlockSize) past

/-- All is well so far. -/
structure Clean (iBlockSize : ℕ) (past : List (Event Op Resp)) : Prop where
  /-- What has been printed was in its buffer. -/
  printed : ∀ e ∈ past, Printed e
  /-- No page has differed late. -/
  early : ¬ Occurs (DiffersLate iBlockSize) past

/-- A clean history is sound. -/
theorem Clean.sound {iBlockSize : ℕ} {past : List (Event Op Resp)} (h : Clean iBlockSize past) :
    Sound iBlockSize past :=
  ⟨fun _ => h.early, fun _ => h.printed⟩

variable {iBlockSize : ℕ} {past es : List (Event Op Resp)}

/-- There is nothing to print for an idle event. -/
theorem printed_of_idle {e : Event Op Resp} (h : Idle e) : Printed e := by
  obtain ⟨o, r⟩ := e
  cases o <;> trivial

/-- An idle event shows no difference. -/
theorem not_differsLate_of_idle {e : Event Op Resp} (h : Idle e) (before : List (Event Op Resp)) :
    ¬ DiffersLate iBlockSize before e := by
  obtain ⟨o, r⟩ := e
  cases o <;> first
    | exact id
    | (cases r <;> first
        | exact id
        | exact absurd h id)

/-- Idle events change nothing. -/
theorem Clean.idle (h : Clean iBlockSize past) (hes : ∀ e ∈ es, Idle e) :
    Clean iBlockSize (past ++ es) := by
  refine ⟨fun e he => ?_, ?_⟩
  · rcases List.mem_append.mp he with hpast | hnew
    · exact h.printed e hpast
    · exact printed_of_idle (hes e hnew)
  · rw [occurs_append fun e he before => not_differsLate_of_idle (hes e he) before]
    exact h.early

/-- Idle events keep this. -/
theorem Sound.idle (h : Sound iBlockSize past) (hes : ∀ e ∈ es, Idle e) :
    Sound iBlockSize (past ++ es) := by
  rw [Sound, occurs_append fun e he before => not_differsLate_of_idle (hes e he) before,
    List.forall_mem_append]
  exact ⟨fun hall => h.mp hall.1, fun hnone =>
    ⟨h.mpr hnone, fun e he => printed_of_idle (hes e he)⟩⟩

/-- They are not about the image. -/
theorem lastPiece_idle (hes : ∀ e ∈ es, Idle e) : lastPiece (past ++ es) = lastPiece past := by
  rw [lastPiece, List.foldl_append]
  refine foldl_unmoved fun e he => ?_
  have hidle := hes e he
  obtain ⟨o, r⟩ := e
  cases o <;> first
    | rfl
    | exact absurd hidle id

/-- A call that tells nothing about a page, whatever the answer. -/
def Unheard : Op → Prop
  | .memDump _ _ _ => False
  | .readSrc _ => False
  | .pread _ _ _ => False
  | _ => True

/-- Calls that are not listened to are idle. -/
theorem idle_of_unheard {e : Event Op Resp} (h : Unheard e.1) : Idle e := by
  obtain ⟨o, r⟩ := e
  cases o <;> trivial

/-- A part of the function that only issues such calls. -/
theorem after_unheard {α β : Type} {R : α → Prop} {p : Flash α} {f : α → Flash β}
    {Q : List (Event Op Resp) → Outcome ExitReason β → Prop} (hp : p.Sat Unheard AnyReason R)
    (hexit : ∀ past e, Clean iBlockSize past → Q past (.exit e))
    (hhang : ∀ past, Clean iBlockSize past → Q past .hang) (h : Clean iBlockSize past)
    (hf : ∀ a past, R a → Clean iBlockSize past → After Q (f a) past) :
    After Q (p >>= f) past := by
  have hclean : ∀ es : List (Event Op Resp), (∀ e ∈ es, Unheard e.1) →
      Clean iBlockSize (past ++ es) := fun es hes => h.idle fun e he => idle_of_unheard (hes e he)
  exact After.andThen (after_of_sat hp (fun es hes a ha => hf a _ ha (hclean es hes))
    (fun es hes e _ => hexit _ e (hclean es hes)) (fun es hes => hhang _ (hclean es hes)))

/-- The rest of the function, when it only issues such calls. -/
theorem after_rest {α : Type} {p : Flash α} (hp : p.Sat Unheard AnyReason AnyResult)
    (h : Sound iBlockSize past) : After (fun past _ => Sound iBlockSize past) p past := by
  have hsound : ∀ es : List (Event Op Resp), (∀ e ∈ es, Unheard e.1) →
      Sound iBlockSize (past ++ es) := fun es hes => h.idle fun e he => idle_of_unheard (hes e he)
  exact after_of_sat hp (fun es hes _ _ => hsound es hes) (fun es hes _ _ => hsound es hes) hsound

/-- What reading a page leaves behind. -/
def ReadsPage (iBlockSize : ℕ) (past : List (Event Op Resp)) (now : List (Event Op Resp)) :
    Outcome ExitReason (Option Bytes) → Prop
  | .ret (some bytes) => ∃ es part offset, ∃ chunk : Chunk iBlockSize, (∀ e ∈ es, Idle e) ∧
      chunk.1 = bytes ∧ now = past ++ es ++ [⟨.pread part iBlockSize offset, some chunk⟩]
  | _ => ∃ es, (∀ e ∈ es, Idle e) ∧ now = past ++ es

/-- The attempts to read a page. -/
theorem readAttempts_after (g : Globals) (pMtd : MtdPartition) (iOffsMtd left : ℕ) :
    After (ReadsPage pMtd.iPageSize past) (readAttempts g pMtd iOffsMtd left) past := by
  induction left generalizing past with
  | zero => exact after_pure ⟨[], fun _ he => absurd he List.not_mem_nil, (List.append_nil _).symm⟩
  | succ left ih =>
    unfold readAttempts
    refine after_call fun r => ?_
    cases r with
    | some chunk =>
      exact after_pure ⟨[], _, _, chunk, fun _ he => absurd he List.not_mem_nil, rfl,
        by rw [List.append_nil]⟩
    | none =>
      have hone : ∀ e ∈ [(⟨.pread pMtd.uiPartition pMtd.iPageSize iOffsMtd, none⟩ :
          Event Op Resp)], Idle e := fun e he => by
        rw [List.mem_singleton.mp he]
        trivial
      dsimp only
      split
      · refine After.mono ih fun now out hout => ?_
        have hmore : ∀ es : List (Event Op Resp), (∀ e ∈ es, Idle e) → ∀ e ∈
            ⟨.pread pMtd.uiPartition pMtd.iPageSize iOffsMtd, none⟩ :: es, Idle e := fun es hes =>
          List.forall_mem_cons.mpr ⟨trivial, hes⟩
        have hplain : (∃ es : List (Event Op Resp), (∀ e ∈ es, Idle e) ∧ now = past ++
            [⟨.pread pMtd.uiPartition pMtd.iPageSize iOffsMtd, none⟩] ++ es) →
            ∃ es, (∀ e ∈ es, Idle e) ∧ now = past ++ es := by
          rintro ⟨es, hes, hnow⟩
          exact ⟨_ :: es, hmore es hes, by rw [hnow, List.append_assoc]; rfl⟩
        cases out with
        | ret r =>
          cases r with
          | some bytes =>
            obtain ⟨es, part, offset, chunk, hes, hchunk, hnow⟩ := hout
            refine ⟨_ :: es, part, offset, chunk, hmore es hes, hchunk, ?_⟩
            rw [hnow, List.append_assoc past]
            rfl
          | none => exact hplain hout
        | exit e => exact hplain hout
        | hang => exact hplain hout
      · exact after_exit ⟨_, hone, rfl⟩

/-- Reading a page, and what follows when it has been read. -/
theorem readPage_after {g : Globals} {pMtd : MtdPartition} {iOffsMtd : ℕ} {β : Type}
    {f : Bytes → Flash β} {Q : List (Event Op Resp) → Outcome ExitReason β → Prop}
    (hexit : ∀ past e, Clean iBlockSize past → Q past (.exit e))
    (hhang : ∀ past, Clean iBlockSize past → Q past .hang) (h : Clean iBlockSize past)
    (hf : ∀ es part offset (chunk : Chunk pMtd.iPageSize), (∀ e ∈ es, Idle e) →
      After Q (f chunk.1) (past ++ es ++ [⟨.pread part pMtd.iPageSize offset, some chunk⟩])) :
    After Q (readPage g pMtd iOffsMtd >>= f) past := by
  rw [readPage, andThen_assoc]
  refine After.andThen ((readAttempts_after g pMtd iOffsMtd cMaxRetries).mono
    fun now out hout => ?_)
  cases out with
  | ret r =>
    cases r with
    | some bytes =>
      obtain ⟨es, part, offset, chunk, hes, hchunk, hnow⟩ := hout
      rw [hnow, ← hchunk]
      exact hf es part offset chunk hes
    | none =>
      obtain ⟨es, hes, hnow⟩ := hout
      rw [hnow]
      dsimp only [Sequel]
      rw [andThen_assoc]
      refine after_call fun r => after_exit (hexit _ _ ?_)
      exact (h.idle hes).idle fun e he => by
        rw [List.mem_singleton.mp he]
        trivial
  | exit e =>
    obtain ⟨es, hes, hnow⟩ := hout
    rw [hnow]
    exact hexit _ _ (h.idle hes)
  | hang =>
    obtain ⟨es, hes, hnow⟩ := hout
    rw [hnow]
    exact hhang _ (h.idle hes)

/-- The fronts of two buffers that have been filled differ where the pieces
do. -/
theorem memCmp_fillBuffer {a b bs bm : Bytes} {iSize : ℕ} (hsrc : iSize ≤ bs.length)
    (hmtd : iSize ≤ bm.length) :
    memCmp (fillBuffer a bs) (fillBuffer b bm) iSize = memCmp bs bm iSize := by
  refine List.find?_congr fun i hi => ?_
  have hlt := List.mem_range.mp hi
  unfold fillBuffer
  rw [List.getElem?_append_left (by omega), List.getElem?_append_left (by omega)]

/-- The buffer keeps its size. -/
theorem length_fillBuffer {buffer bytes : Bytes} (h : bytes.length ≤ buffer.length) :
    (fillBuffer buffer bytes).length = buffer.length := by
  rw [fillBuffer, List.length_append, List.length_drop]
  omega

/-- The range around a difference lies in the buffer just when it ends inside
the page. -/
theorem printsBuffer_iff (buffer : Bytes) (iOffs : ℕ) {iLen : ℕ} (hpos : 0 < iLen) :
    PrintsBuffer buffer (iOffs / 16 * 16 : ℕ) (min iLen 0x20) ↔
      iOffs / 16 * 16 + min iLen 0x20 ≤ buffer.length := by
  have hmin : 0 < min iLen 0x20 := by omega
  refine memDump_prints_iff.trans ⟨fun h => ?_, fun h _ => ⟨Int.natCast_nonneg _, ?_⟩⟩
  · exact_mod_cast (h hmin).le
  · exact_mod_cast h

/-- What is known between two passes: the size of the buffers, and that all is
well so far. -/
structure Between (iBlockSize : ℕ) (st : VerifyState) (past : List (Event Op Resp)) : Prop where
  /-- The buffer for the image. -/
  src : st.pucBufferSrc.length = iBlockSize
  /-- The buffer for the flash. -/
  mtd : st.pucBufferMtd.length = iBlockSize
  /-- All is well. -/
  clean : Clean iBlockSize past

/-- The end of a pass. -/
theorem Between.step {pMtd : MtdPartition} {st : VerifyState} (h : Between iBlockSize st past) :
    Turn (E := ExitReason) (Between iBlockSize) (fun past _ => Sound iBlockSize past) past
      (.ret (st.step pMtd)) := by
  unfold VerifyState.step
  dsimp only
  split
  · exact ⟨h.src, h.mtd, h.clean⟩
  · exact h.clean.sound

/-- What a page makes of the past: it has differed late just when a range
around the difference leaves its buffer. -/
theorem sound_of_dumps {bs bm : Bytes} {part size offset iOffs : ℕ} {chunk : Chunk size}
    {src mtd : Bytes} (h : Clean iBlockSize past) (hpiece : lastPiece past = bs)
    (hchunk : chunk.1 = bm) (hle : bs.length ≤ bm.length)
    (hcmp : memCmp bs bm bs.length = some iOffs) (hpos : 0 < bs.length)
    (hsrc : src.length = iBlockSize) (hmtd : mtd.length = iBlockSize) :
    Sound iBlockSize (past ++ [⟨.pread part size offset, some chunk⟩] ++
      [⟨.memDump src (iOffs / 16 * 16) (min bs.length 0x20), ()⟩] ++
      [⟨.memDump mtd (iOffs / 16 * 16) (min bm.length 0x20), ()⟩]) := by
  have hdumps : ∀ {buffer : Bytes} {iOffset iLen : ℕ} (before : List (Event Op Resp)),
      ¬ DiffersLate iBlockSize before ⟨.memDump buffer iOffset iLen, ()⟩ := fun _ h => h
  have hlate : DiffersLate iBlockSize past ⟨.pread part size offset, some chunk⟩ ↔
      ¬ EndsInPage iBlockSize bs.length bm.length iOffs := by
    show (lastPiece past).length ≤ chunk.1.length ∧ _ ↔ _
    rw [hpiece, hchunk]
    refine ⟨fun ⟨_, i, hi, hends⟩ => ?_, fun hends => ⟨hle, iOffs, hcmp, hends⟩⟩
    rw [hcmp] at hi
    exact Option.some.inj hi ▸ hends
  rw [Sound, occurs_snoc, occurs_snoc, occurs_snoc, hlate]
  have hfirst := printsBuffer_iff src iOffs hpos
  have hsecond := printsBuffer_iff mtd iOffs (Nat.lt_of_lt_of_le hpos hle)
  rw [hsrc] at hfirst
  rw [hmtd] at hsecond
  constructor
  · intro hall
    have hin := hfirst.mp (hall _ (List.mem_append_left _ (List.mem_append_right _
      (List.mem_singleton_self _))))
    have hin' := hsecond.mp (hall _ (List.mem_append_right _ (List.mem_singleton_self _)))
    rintro (((hold | hends) | hdump) | hdump)
    · exact h.early hold
    · exact hends ⟨hin, hin'⟩
    · exact hdumps _ hdump
    · exact hdumps _ hdump
  · intro hnone e he
    have hends : EndsInPage iBlockSize bs.length bm.length iOffs := by
      by_contra hlong
      exact hnone (.inl (.inl (.inr hlong)))
    rcases List.mem_append.mp he with he | he
    · rcases List.mem_append.mp he with he | he
      · rcases List.mem_append.mp he with he | he
        · exact h.printed e he
        · rw [List.mem_singleton.mp he]
          trivial
      · rw [List.mem_singleton.mp he]
        exact hfirst.mpr hends.src
    · rw [List.mem_singleton.mp he]
      exact hsecond.mpr hends.mtd

/-- A page that does not differ, or is too short to be compared, tells
nothing. -/
theorem Clean.page {part size offset : ℕ} {chunk : Chunk size} (h : Clean iBlockSize past)
    (hsame : (lastPiece past).length ≤ chunk.1.length →
      memCmp (lastPiece past) chunk.1 (lastPiece past).length = none) :
    Clean iBlockSize (past ++ [⟨.pread part size offset, some chunk⟩]) := by
  refine ⟨fun e he => ?_, ?_⟩
  · rcases List.mem_append.mp he with he | he
    · exact h.printed e he
    · rw [List.mem_singleton.mp he]
      trivial
  · rw [occurs_snoc]
    rintro (hold | ⟨hle, iOffs, hcmp, -⟩)
    · exact h.early hold
    · rw [hsame hle] at hcmp
      exact absurd hcmp nofun

/-- One pass of the loop. -/
theorem verifyPass_after (g : Globals) {pMtd : MtdPartition} {st : VerifyState}
    (hsize : pMtd.iPageSize = iBlockSize) (h : Between iBlockSize st past) :
    After (Turn (Between iBlockSize) fun past _ => Sound iBlockSize past)
      (verifyPass g pMtd st) past := by
  subst hsize
  unfold verifyPass
  have hask : (mtdPartIsBadBlock pMtd st.iOffsMtd).Sat Unheard AnyReason AnyResult :=
    sat_forget (sat_sysOrFail trivial trivial)
  refine after_unheard hask (fun past e hpast => hpast.sound) (fun past hpast => hpast.sound)
    h.clean fun bad past _ hclean => ?_
  have hnow : Between pMtd.iPageSize st past := ⟨h.src, h.mtd, hclean⟩
  split
  · exact after_pure hnow.step
  · refine After.andThen (after_call fun r => ?_)
    have hread : Clean pMtd.iPageSize (past ++ [⟨.readSrc pMtd.iPageSize, r⟩]) := by
      refine ⟨fun e he => ?_, ?_⟩
      · rcases List.mem_append.mp he with he | he
        · exact hclean.printed e he
        · rw [List.mem_singleton.mp he]
          trivial
      · rw [occurs_snoc]
        rintro (hold | hlate)
        · exact hclean.early hold
        · exact hlate
    cases r with
    | none => exact hread.sound
    | some bytesSrc =>
      have hpiece : lastPiece (past ++ [⟨.readSrc pMtd.iPageSize, some bytesSrc⟩]) =
          bytesSrc.1 := by
        rw [lastPiece, List.foldl_append]
        rfl
      show After _ (if bytesSrc.1 = [] then _ else _) _
      by_cases hempty : bytesSrc.1 = []
      · rw [if_pos hempty]
        exact after_pure hread.sound
      · rw [if_neg hempty]
        refine readPage_after (fun past e hpast => hpast.sound) (fun past hpast => hpast.sound)
          hread fun es part offset chunk hes => ?_
        have hidle := hread.idle hes
        have hlast : lastPiece (past ++ [⟨.readSrc pMtd.iPageSize, some bytesSrc⟩] ++ es) =
            bytesSrc.1 := (lastPiece_idle hes).trans hpiece
        have hsrc : (fillBuffer st.pucBufferSrc bytesSrc.1).length = pMtd.iPageSize := by
          rw [length_fillBuffer (by rw [h.src]; exact bytesSrc.2), h.src]
        have hmtd : (fillBuffer st.pucBufferMtd chunk.1).length = pMtd.iPageSize := by
          rw [length_fillBuffer (by rw [h.mtd]; exact chunk.2), h.mtd]
        dsimp only
        by_cases hshort : bytesSrc.1.length > chunk.1.length
        · rw [if_pos hshort]
          refine after_pure (Clean.sound (hidle.page fun hle => ?_))
          rw [hlast] at hle
          omega
        · have hle := Nat.le_of_not_lt hshort
          rw [if_neg hshort, memCmp_fillBuffer (Nat.le_refl _) hle]
          cases hcmp : memCmp bytesSrc.1 chunk.1 bytesSrc.1.length with
          | some iOffs =>
            exact after_call fun _ => after_call fun _ => after_pure
              (sound_of_dumps hidle hlast rfl hle hcmp (List.length_pos_iff.mpr hempty) hsrc hmtd)
          | none =>
            have hpage : Clean pMtd.iPageSize (past ++
                [⟨.readSrc pMtd.iPageSize, some bytesSrc⟩] ++ es ++
                [⟨.pread part pMtd.iPageSize offset, some chunk⟩]) := hidle.page fun _ => by
              rw [hlast]
              exact hcmp
            dsimp only
            split
            · exact after_pure (Between.step ⟨hsrc, hmtd, hpage⟩)
            · exact after_pure hpage.sound

/-- Nothing has happened. -/
theorem clean_nil : Clean iBlockSize [] :=
  ⟨fun _ he => absurd he List.not_mem_nil, not_occurs_nil⟩

/-- In every run of `MtdPartVerify` all that is printed lies in the buffers,
just when no page has differed late. -/
theorem mtdPartVerify_sound (g : Globals) (pMtd : MtdPartition) {σ : Type}
    (h : Handler Op Resp σ) (s : σ) :
    Sound pMtd.iPageSize (history h (mtdPartVerify g pMtd) s) := by
  have hsat : ∀ {α : Type} {inside : Func} {o : Op} {answer : Resp o → Option α}, Unheard o →
      (sysOrFail inside o answer).Sat Unheard AnyReason AnyResult := fun ho =>
    sat_forget (sat_sysOrFail ho trivial)
  have hexit : ∀ past (e : ExitReason), Clean pMtd.iPageSize past → Sound pMtd.iPageSize past :=
    fun _ _ hpast => hpast.sound
  have hhang : ∀ past, Clean pMtd.iPageSize past → Sound pMtd.iPageSize past :=
    fun _ hpast => hpast.sound
  have hafter : After (fun past _ => Sound pMtd.iPageSize past) (mtdPartVerify g pMtd) [] := by
    unfold mtdPartVerify comparePart
    simp only [andThen_assoc]
    refine after_unheard (hsat trivial) hexit hhang clean_nil fun pucBufferSrc past _ hpast => ?_
    refine after_unheard (hsat trivial) hexit hhang hpast fun pucBufferMtd past _ hpast => ?_
    have hclose : (mtdPartClose pMtd).Sat Unheard AnyReason
        (fun q => q.iPageSize = pMtd.iPageSize) := by
      unfold mtdPartClose
      exact sat_sysOrFail_andThen trivial trivial fun _ _ _ => rfl
    refine after_unheard hclose hexit hhang hpast fun q past hq hpast => ?_
    have hopen : (mtdPartOpen g q true).Sat Unheard AnyReason
        (fun p => p.iPageSize = q.iPageSize) := by
      unfold mtdPartOpen
      split
      · exact sat_exit trivial
      · exact sat_sysOrFail_andThen trivial trivial fun _ _ _ => rfl
    refine after_unheard hopen hexit hhang hpast fun p past hp hpast => ?_
    refine after_unheard (hsat trivial) hexit hhang hpast fun _ past _ hpast => ?_
    have hsize : p.iPageSize = pMtd.iPageSize := hp.trans hq
    refine After.andThen (After.mono (After.loop_turns
      (fun st past hst => verifyPass_after g hsize hst) (fun st past hst => hst.clean.sound)
      ⟨pucBufferSrc.2, pucBufferMtd.2, hpast⟩) fun past out hout => ?_)
    cases out with
    | ret compared =>
      refine after_rest (Sat.andThen (hsat trivial) fun _ _ => ?_) hout
      exact ⟨trivial, fun _ => trivial⟩
    | exit e => exact hout
    | hang => exact hout
  have hrun := hafter.run h s
  rwa [List.nil_append] at hrun

end Verify

section Nvram

/-- An event of `NvPrivOSFlashWrite` at which only a buffer is read that has
been given. -/
def NvPrinted (e : Event NvOp NvResp) : Prop :=
  match e with
  | ⟨.memDump pvBase iOffset iLen, _⟩ => PrintsBuffer pvBase iOffset iLen
  | _ => True

/-- The range that is printed of a block lies in the block. -/
def BeginsInBlock (pvBuf : Object) (iOffs : ℤ) : Prop :=
  Inside pvBuf.1 (iOffs / 16 * 16) (min pvBuf.1.length 0x20)

/-- The whole block has been read and differs, and the range that is printed
then does not lie in the block. -/
def DiffersOutside (pvBuf : Object) (iOffs : ℤ) (_ : List (Event NvOp NvResp))
    (e : Event NvOp NvResp) : Prop :=
  match e with
  | ⟨.pread _ _, some bytes⟩ =>
    bytes.1.length = pvBuf.1.length ∧ bytes.1 ≠ pvBuf.1 ∧ ¬ BeginsInBlock pvBuf iOffs
  | _ => False

/-- Nothing has been printed that is not in its buffer, just when no block has
differed whose range lies outside. -/
def NvSound (pvBuf : Object) (iOffs : ℤ) (past : List (Event NvOp NvResp)) : Prop :=
  (∀ e ∈ past, NvPrinted e) ↔ ¬ Occurs (DiffersOutside pvBuf iOffs) past

variable {pvBuf : Object} {iOffs : ℤ} {past : List (Event NvOp NvResp)}

/-- An event that prints nothing and brings no such block. -/
theorem NvSound.quiet {e : Event NvOp NvResp} (h : NvSound pvBuf iOffs past) (he : NvPrinted e)
    (hsame : ¬ DiffersOutside pvBuf iOffs past e) : NvSound pvBuf iOffs (past ++ [e]) := by
  rw [NvSound, occurs_snoc, List.forall_mem_append, or_iff_left hsame]
  exact ⟨fun hall => h.mp hall.1, fun hnone => ⟨h.mpr hnone, fun q hq => by
    rw [List.mem_singleton.mp hq]
    exact he⟩⟩

/-- A block that differs is printed, and so is what has been read. -/
theorem NvSound.differs {iLength : ℕ} {bytes : Chunk iLength} (h : NvSound pvBuf iOffs past)
    (hlength : bytes.1.length = pvBuf.1.length) (hne : bytes.1 ≠ pvBuf.1) :
    NvSound pvBuf iOffs (past ++ [⟨.pread iLength iOffs, some bytes⟩] ++
      [⟨.memDump pvBuf.1 (iOffs / 16 * 16) (min pvBuf.1.length 0x20), ()⟩] ++
      [⟨.memDump bytes.1 (iOffs / 16 * 16) (min pvBuf.1.length 0x20), ()⟩]) := by
  have hpos : 0 < min pvBuf.1.length 0x20 := by
    have hsome : 0 < pvBuf.1.length := by
      by_contra hzero
      have hnil : pvBuf.1.length = 0 := by omega
      rw [hnil] at hlength
      exact hne ((List.length_eq_zero_iff.mp hlength).trans
        (List.length_eq_zero_iff.mp hnil).symm)
    omega
  have hblock : PrintsBuffer pvBuf.1 (iOffs / 16 * 16) (min pvBuf.1.length 0x20) ↔
      BeginsInBlock pvBuf iOffs :=
    memDump_prints_iff.trans ⟨fun hin => hin hpos, fun hin _ => hin⟩
  have hread : PrintsBuffer bytes.1 (iOffs / 16 * 16) (min pvBuf.1.length 0x20) ↔
      BeginsInBlock pvBuf iOffs := by
    refine memDump_prints_iff.trans ⟨fun hin => ?_, fun hin _ => ?_⟩
    · obtain ⟨hnonneg, hle⟩ := hin hpos
      exact ⟨hnonneg, by omega⟩
    · obtain ⟨hnonneg, hle⟩ := hin
      exact ⟨hnonneg, by omega⟩
  have hdumps : ∀ {pvBase : Bytes} {iOffset : ℤ} {iLen : ℕ} (before : List (Event NvOp NvResp)),
      ¬ DiffersOutside pvBuf iOffs before ⟨.memDump pvBase iOffset iLen, ()⟩ := fun _ h => h
  have hlate : DiffersOutside pvBuf iOffs past ⟨.pread iLength iOffs, some bytes⟩ ↔
      ¬ BeginsInBlock pvBuf iOffs := ⟨fun hout => hout.2.2, fun hout => ⟨hlength, hne, hout⟩⟩
  rw [NvSound, occurs_snoc, occurs_snoc, occurs_snoc, hlate, or_iff_left (hdumps _),
    or_iff_left (hdumps _), List.forall_mem_append, List.forall_mem_append,
    List.forall_mem_append, List.forall_mem_singleton, List.forall_mem_singleton,
    List.forall_mem_singleton, not_or, not_not]
  constructor
  · rintro ⟨⟨⟨hpast, -⟩, hfirst⟩, -⟩
    exact ⟨h.mp hpast, hblock.mp hfirst⟩
  · rintro ⟨hnone, hin⟩
    exact ⟨⟨⟨h.mpr hnone, trivial⟩, hblock.mpr hin⟩, hread.mpr hin⟩

/-- One pass over a block that is read back. -/
theorem readBackPass_sound {st : ℕ × Bytes} (hbuffer : st.2.length = pvBuf.1.length)
    (h : NvSound pvBuf iOffs past) :
    After (Turn (fun st past => st.2.length = pvBuf.1.length ∧ NvSound pvBuf iOffs past)
      fun past _ => NvSound pvBuf iOffs past) (readBackPass pvBuf iOffs st) past := by
  obtain ⟨i, pvRdBuf⟩ := st
  unfold readBackPass
  dsimp only at hbuffer ⊢
  split
  · refine after_call fun r => ?_
    have hfilled : (afterRead pvRdBuf r).length = pvBuf.1.length := by
      cases r with
      | none => exact hbuffer
      | some bytes =>
        show (fillBuffer pvRdBuf bytes.1).length = _
        rw [length_fillBuffer (by rw [hbuffer]; exact bytes.2), hbuffer]
    split
    · rename_i hshort
      refine after_pure ⟨hfilled, h.quiet trivial ?_⟩
      cases r with
      | none => exact id
      | some bytes =>
        rintro ⟨hlength, -⟩
        have hsize := pvBuf.2
        simp only [toSize, bytesRead] at hshort
        omega
    · rename_i hread
      obtain ⟨bytes, hr, hlength⟩ := bytesRead_complete (not_not.mp hread)
      rw [hr]
      have hall : afterRead pvRdBuf (some bytes) = bytes.1 := by
        show bytes.1 ++ pvRdBuf.drop bytes.1.length = bytes.1
        rw [List.drop_eq_nil_of_le (by omega), List.append_nil]
      have hcount : (bytesRead (some bytes)).toNat = pvBuf.1.length := by
        show ((bytes.1.length : ℤ)).toNat = _
        rw [Int.toNat_natCast, hlength]
      rw [hall, hcount]
      split
      · rename_i hne
        exact after_call fun _ => after_call fun _ => after_pure
          ⟨hlength, h.differs hlength hne⟩
      · rename_i hsame
        exact after_pure (h.quiet trivial fun hout => hout.2.1 (not_not.mp hsame))
  · exact after_pure h

/-- One pass over a block that is written. -/
theorem writePass_sound (fuel : ℕ) (g_markBadBlocks : Bool) (i : ℕ) (h : NvSound pvBuf iOffs past) :
    After (Turn (fun _ past => NvSound pvBuf iOffs past) fun past _ => NvSound pvBuf iOffs past)
      (NvramFlash.writePass fuel g_markBadBlocks pvBuf iOffs i) past := by
  unfold NvramFlash.writePass
  split
  · refine after_call fun r => ?_
    have hwrite : NvSound pvBuf iOffs (past ++ [⟨.pwrite pvBuf iOffs, r⟩]) := h.quiet trivial id
    split
    · split
      · exact after_pure hwrite
      · exact after_pure hwrite
    · split
      · refine after_call fun buffer => ?_
        have hmalloc := hwrite.quiet (e := ⟨.malloc pvBuf.1.length, buffer⟩) trivial id
        cases buffer with
        | none => exact after_pure hmalloc
        | some pvRdBuf =>
          refine After.andThen (After.mono (After.loop_turns
            (fun st past hst => readBackPass_sound hst.1 hst.2) (fun st past hst => hst.2)
            ⟨pvRdBuf.2, hmalloc⟩) fun past out hout => ?_)
          cases out with
          | ret i =>
            show NvSound pvBuf iOffs past
            exact hout
          | exit e => exact e.elim
          | hang => exact hout
      · exact after_pure hwrite
  · exact after_pure h

/-- In every run of `NvPrivOSFlashWrite` all that is printed lies in the
buffers, just when no block has differed whose range lies outside. -/
theorem nvPrivOSFlashWrite_sound (fuel : ℕ) (g_markBadBlocks : Bool) (pvBuf : Object) (iOffs : ℤ)
    {σ : Type} (h : Handler NvOp NvResp σ) (s : σ) :
    NvSound pvBuf iOffs (history h (nvPrivOSFlashWrite fuel g_markBadBlocks pvBuf iOffs) s) := by
  have hnil : NvSound pvBuf iOffs [] := ⟨fun _ => not_occurs_nil, fun _ => nofun⟩
  have hafter : After (fun past _ => NvSound pvBuf iOffs past)
      (nvPrivOSFlashWrite fuel g_markBadBlocks pvBuf iOffs) [] := by
    refine After.andThen (After.mono (After.loop_turns
      (fun i past hpast => writePass_sound fuel g_markBadBlocks i hpast)
      (fun i past hpast => hpast) hnil) fun past out hout => ?_)
    cases out with
    | exit e => exact e.elim
    | hang => exact hout
    | ret left =>
      cases left with
      | error e =>
        show NvSound pvBuf iOffs past
        exact hout
      | ok i =>
        dsimp only [Sequel]
        split
        · exact after_call fun iRet => after_pure (hout.quiet trivial id)
        · exact after_pure hout
  have hrun := hafter.run h s
  rwa [List.nil_append] at hrun

/-- All that is printed of a difference lies in the buffers, just when the
range around it does: in `MtdPartVerify` it must end inside the page, in
`NvPrivOSFlashWrite` the one at the offset in flash must lie in the block. -/
theorem dumps_inside_iff (g : Globals) (pMtd : MtdPartition) (fuel : ℕ) (g_markBadBlocks : Bool)
    (pvBuf : Object) (iOffs : ℤ) {σ τ : Type} (h : Handler Op Resp σ) (s : σ)
    (h' : Handler NvOp NvResp τ) (s' : τ) :
    ((∀ e ∈ history h (mtdPartVerify g pMtd) s, Printed e) ↔
      ¬ Occurs (DiffersLate pMtd.iPageSize) (history h (mtdPartVerify g pMtd) s)) ∧
    ((∀ e ∈ history h' (nvPrivOSFlashWrite fuel g_markBadBlocks pvBuf iOffs) s', NvPrinted e) ↔
      ¬ Occurs (DiffersOutside pvBuf iOffs)
        (history h' (nvPrivOSFlashWrite fuel g_markBadBlocks pvBuf iOffs) s')) :=
  ⟨mtdPartVerify_sound g pMtd h s,
    nvPrivOSFlashWrite_sound fuel g_markBadBlocks pvBuf iOffs h' s'⟩

/-- The system with a partition of one page of 64 bytes. -/
def pageEnv : Env :=
  { smallEnv with info := fun _ => { smallInfo with
      size := 64, erasesize := 64, writesize := 64, size_lt := smallInfo.size_lt } }

/-- Its record for an image of the size of the page. -/
def pagePart : MtdPartition :=
  { cleared with
    szOrigImageFileName := text "uImage-x"
    acName := text "/dev/mtd/0"
    cIsNAND := true
    iSize := 64
    iFileSize := 64
    iPageSize := 64 }

/-- An image whose last byte is not the one in the cleared flash. -/
def lastByteWorld : World := smallWorld [(text "uImage-x", List.replicate 63 0 ++ [1])]

/-- A piece is printed that goes beyond its buffer. -/
def overruns (e : Event Op Resp) : Bool :=
  match e with
  | ⟨.memDump buffer iOffset iLen, _⟩ => 0 < iLen && buffer.length < iOffset + iLen
  | _ => false

/-- A dump that overruns is not inside. -/
theorem not_printed_of_overruns {e : Event Op Resp} (h : overruns e = true) : ¬ Printed e := by
  obtain ⟨o, r⟩ := e
  cases o with
  | memDump buffer iOffset iLen =>
    obtain ⟨hpos, hlong⟩ := Bool.and_eq_true_iff.mp h
    intro hprinted
    have hle := (memDump_prints_iff.mp hprinted (of_decide_eq_true hpos)).le
    have hlt := of_decide_eq_true hlong
    omega
  | _ => exact absurd h nofun

set_option maxRecDepth 20000 in
/-- A difference in the last byte of a page: the bytes 48 to 79 of 64 are
printed. A block of one byte for the offset 64 that reads as zero: the bytes
from 64 on are printed. -/
theorem dumps_beyond :
    (¬ ∀ e ∈ history (system pageEnv) (mtdPartVerify { fuel := 1 } pagePart) lastByteWorld,
      Printed e) ∧
    ¬ ∀ e ∈ history deafPartition (nvPrivOSFlashWrite 4 true ⟨text "1", by decide⟩ 64) (),
      NvPrinted e := by
  constructor
  · intro hall
    obtain ⟨e, he, hover⟩ := List.any_eq_true.mp (rfl : (history (system pageEnv)
      (mtdPartVerify { fuel := 1 } pagePart) lastByteWorld).any overruns = true)
    exact not_printed_of_overruns hover (hall e he)
  · intro hall
    have hprinted : PrintsBuffer (text "1") 64 1 :=
      hall ⟨.memDump (text "1") 64 1, ()⟩ (List.mem_of_getElem? (i := 3) rfl)
    exact absurd (memDump_prints_iff.mp hprinted (by decide)).le (by decide)

end Nvram

end MetaDigi.FlashDumps
