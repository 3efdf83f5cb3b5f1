import MetaDigi.FlashRuns
import MetaDigi.FlashWriting
import MetaDigi.SystemMonitors

/-!
# How carefully the tool handles flash

A monitor follows the handle of the partition that is open, what the driver
has said about it, and the last answer about a bad block. It lets blocks be
erased and written only through a handle for writing, only where the driver
has just said that the block is good, and only in the sizes that the driver has
told; a block may be marked bad through any open handle. Every run of the tool
heeds it, whatever the system answers: the tool never holds two handles, it
runs an external flasher, unmounts, deletes and reboots only without one, and it
does nothing any more once it has marked a block bad.
-/

namespace MetaDigi.FlashCaution

open CStrings SystemProgram SystemHistories SystemMonitors FlashTypes FlashInit FlashTransfer
open FlashMain FlashEffects FlashRuns Prog

/-- What a careful observer knows of a run. -/
structure Session where
  /-- The partition whose handle is open, and whether it is open for reading only. -/
  handle : Option (ℕ × Bool) := none
  /-- What the driver has said about partitions. -/
  infos : List (ℕ × MtdInfo) := []
  /-- The last offset that was asked about, when the driver called it good and
  the handle has not changed since. -/
  vetted : Option ℕ := none
  /-- The block that has been erased since then. -/
  erased : Option ℕ := none
  /-- A block has been marked bad. -/
  marked : Bool := false

/-- What a call with its answer tells the observer. -/
def note (t : Session) : Event Op Resp → Session
  | ⟨.openMtd part readOnly, r⟩ =>
    if r = true then { handle := some (part, readOnly), infos := t.infos, marked := t.marked }
    else t
  | ⟨.closeMtd _, r⟩ => if r = true then { infos := t.infos, marked := t.marked } else t
  | ⟨.memGetInfo part, r⟩ =>
    match r with
    | some xInfo => { t with infos := (part, xInfo) :: t.infos }
    | none => t
  | ⟨.memGetBadBlock _ offset, r⟩ =>
    { t with vetted := if isBadBlockReply r = some false then some offset else none, erased := none }
  | ⟨.memErase _ start _, r⟩ => { t with erased := if r = true then some start else none }
  | ⟨.memSetBadBlock _ _, _⟩ => { t with marked := true }
  | _ => t

/-- A handle of this partition is open. -/
def Session.Opened (t : Session) (part : ℕ) : Prop := ∃ readOnly, t.handle = some (part, readOnly)

/-- A handle of this partition is open for writing. -/
def Session.Writable (t : Session) (part : ℕ) : Prop := t.handle = some (part, false)

/-- The size of a page as the tool takes it from the driver. -/
def pageOf (xInfo : MtdInfo) : ℕ :=
  if xInfo.type = .nandFlash then xInfo.writesize else xInfo.erasesize

/-- Which calls are careful. What is written to pages is one page, or a clean
marker node. -/
def Careful (t : Session) : Op → Prop
  | .openMtd _ _ => t.handle = none
  | .closeMtd part => t.Opened part
  | .lseekMtd part => t.Opened part
  | .memGetInfo part => t.Opened part
  | .memGetBadBlock part _ => t.Opened part
  | .memGetOobSel part => t.Opened part
  | .pread part _ _ => t.Opened part
  | .memErase part start length => t.Writable part ∧ t.vetted = some start ∧
      ∃ xInfo, (part, xInfo) ∈ t.infos ∧ length = xInfo.erasesize
  | .memWriteOob part _ _ => t.Writable part ∧ ∃ block, t.vetted = some block ∧ t.erased = some block
  | .pwrite part data offset => t.Writable part ∧ t.vetted = some offset ∧
      (data.length = nodeSize ∧ t.erased = some offset ∨
        ∃ xInfo, (part, xInfo) ∈ t.infos ∧ data.length = pageOf xInfo)
  | .memSetBadBlock part offset => t.Opened part ∧ t.vetted = some offset
  | .kobsNg _ _ => t.handle = none
  | .ubiformat _ _ => t.handle = none
  | .umount _ => t.handle = none
  | .remountReadOnly _ _ => t.handle = none
  | .openDst _ => t.handle = none
  | .writeDst _ => t.handle = none
  | .unlink _ => t.handle = none
  | .reboot => t.handle = none
  | _ => True

/-- The monitor. Nothing is allowed any more after a block has been marked bad. -/
def caution : Monitor Op Resp Session where
  note := note
  allows t o := t.marked = false ∧ Careful t o

/-- No handle is open. -/
structure Idle (infos : List (ℕ × MtdInfo)) (t : Session) : Prop where
  /-- There is no handle. -/
  handle : t.handle = none
  /-- No block has been marked bad. -/
  unmarked : t.marked = false
  /-- The driver has said this. -/
  infos : t.infos = infos

/-- A handle of a partition is open. -/
structure Using (infos : List (ℕ × MtdInfo)) (part : ℕ) (readOnly : Bool) (t : Session) : Prop where
  /-- The handle is for this partition. -/
  handle : t.handle = some (part, readOnly)
  /-- No block has been marked bad. -/
  unmarked : t.marked = false
  /-- The driver has said this. -/
  infos : t.infos = infos

/-- A handle is used, and the driver has just called an offset good. -/
structure Vetted (infos : List (ℕ × MtdInfo)) (part : ℕ) (readOnly : Bool) (offset : ℕ)
    (t : Session) : Prop extends Using infos part readOnly t where
  /-- The block at this offset is good. -/
  vetted : t.vetted = some offset

/-- A record agrees with what the driver has said. -/
structure Known (infos : List (ℕ × MtdInfo)) (pMtd : MtdPartition) : Prop where
  /-- The driver has said what the record holds. -/
  said : (pMtd.uiPartition, pMtd.xInfo) ∈ infos
  /-- The size of a page comes from there. -/
  page : pMtd.iPageSize = pageOf pMtd.xInfo
  /-- The clean marker is a node. -/
  marker : pMtd.xCleanMarker.length = nodeSize

/-- A settled record is for the same partition. -/
theorem part_of_settled {pMtd q : MtdPartition} (hq : settled q = settled pMtd) :
    q.uiPartition = pMtd.uiPartition := by
  have hpart := congrArg MtdPartition.uiPartition hq
  exact hpart

/-- A settled record still agrees with the driver. -/
theorem Known.of_settled {infos : List (ℕ × MtdInfo)} {pMtd q : MtdPartition}
    (h : Known infos pMtd) (hq : settled q = settled pMtd) : Known infos q := by
  have hinfo := congrArg MtdPartition.xInfo hq
  have hpage := congrArg MtdPartition.iPageSize hq
  have hmarker := congrArg MtdPartition.xCleanMarker hq
  dsimp only [settled] at hinfo hpage hmarker
  refine ⟨?_, ?_, ?_⟩
  · rw [part_of_settled hq, hinfo]
    exact h.said
  · rw [hpage, hinfo]
    exact h.page
  · rw [hmarker]
    exact h.marker

section Places

/-- Where a call may be made. -/
inductive Place where
  /-- Anywhere. -/
  | anywhere
  /-- Only without a handle. -/
  | outside
  /-- It is about a handle. -/
  | handle
  deriving DecidableEq

/-- The place of a call. -/
def place : Op → Place
  | .openMtd _ _ => .handle
  | .closeMtd _ => .handle
  | .lseekMtd _ => .handle
  | .memGetInfo _ => .handle
  | .memGetBadBlock _ _ => .handle
  | .memGetOobSel _ => .handle
  | .memErase _ _ _ => .handle
  | .memWriteOob _ _ _ => .handle
  | .memSetBadBlock _ _ => .handle
  | .pwrite _ _ _ => .handle
  | .pread _ _ _ => .handle
  | .kobsNg _ _ => .outside
  | .ubiformat _ _ => .outside
  | .umount _ => .outside
  | .remountReadOnly _ _ => .outside
  | .openDst _ => .outside
  | .writeDst _ => .outside
  | .unlink _ => .outside
  | .reboot => .outside
  | _ => .anywhere

/-- A call that may be made anywhere. -/
def Aside (o : Op) : Prop := place o = .anywhere

/-- A call that may be made without a handle. -/
def Outside (o : Op) : Prop := (place o == .handle) = false

/-- Such a call tells the observer nothing. -/
theorem Outside.unmoved {o : Op} (h : Outside o) : Unmoved note o := by
  cases o <;> first
    | exact fun _ _ => rfl
    | cases h

/-- What may be called anywhere may be called without a handle. -/
theorem Aside.outside {o : Op} (h : Aside o) : Outside o := by
  unfold Outside
  rw [h]
  rfl

/-- It is allowed unless a block has been marked bad. -/
theorem Aside.allowed {o : Op} (h : Aside o) {t : Session} (ht : t.marked = false) :
    caution.allows t o := by
  refine ⟨ht, ?_⟩
  cases o <;> first
    | exact trivial
    | cases h

/-- Without a handle such a call is allowed. -/
theorem Outside.allowed {o : Op} (h : Outside o) {infos : List (ℕ × MtdInfo)} {t : Session}
    (ht : Idle infos t) : caution.allows t o := by
  refine ⟨ht.unmarked, ?_⟩
  cases o <;> first
    | exact trivial
    | exact ht.handle
    | cases h

variable {infos : List (ℕ × MtdInfo)} {α β : Type} {X : ExitReason → Prop} {R : α → Prop}
  {Q : Session → β → Prop} {p : Flash α} {t : Session}

/-- A part of the tool that needs no handle. -/
theorem heeds_outside (hp : p.Sat Outside X R) (ht : Idle infos t) :
    Heeds caution (fun t' a => t' = t ∧ R a) p t :=
  heeds_of_sat hp fun _ ho => ⟨ho.allowed ht, ho.unmoved⟩

/-- A part of the tool that does not care for a handle. -/
theorem heeds_aside (hp : p.Sat Aside X R) (ht : t.marked = false) :
    Heeds caution (fun t' a => t' = t ∧ R a) p t :=
  heeds_of_sat hp fun _ ho => ⟨ho.allowed ht, ho.outside.unmoved⟩

/-- A call that leaves on failure, before the rest of a function. -/
theorem heeds_sysOrFail {inside : Func} {o : Op} {answer : Resp o → Option α} {f : α → Flash β}
    (ho : caution.allows t o)
    (hf : ∀ r a, answer r = some a → Heeds caution Q (f a) (note t ⟨o, r⟩)) :
    Heeds caution Q (sysOrFail inside o answer >>= f) t := by
  unfold sysOrFail
  refine ⟨ho, fun r => ?_⟩
  dsimp only [Prog.bind]
  split
  · rename_i a ha
    exact hf r a ha
  · trivial

/-- Such a call at the end of a function. -/
theorem heeds_sysOrFail_last {Q : Session → α → Prop} {inside : Func} {o : Op}
    {answer : Resp o → Option α} (ho : caution.allows t o)
    (hQ : ∀ r a, answer r = some a → Q (note t ⟨o, r⟩) a) :
    Heeds caution Q (sysOrFail inside o answer) t := by
  unfold sysOrFail
  refine ⟨ho, fun r => ?_⟩
  dsimp only [Prog.bind]
  split
  · rename_i a ha
    exact hQ r a ha
  · trivial

/-- A call that may be made anywhere and leaves on failure. -/
theorem heeds_sysOrFail_aside {inside : Func} {o : Op} {answer : Resp o → Option α}
    {f : α → Flash β} (ho : Aside o) (ht : t.marked = false)
    (hf : ∀ a, Heeds caution Q (f a) t) : Heeds caution Q (sysOrFail inside o answer >>= f) t := by
  refine heeds_sysOrFail (ho.allowed ht) fun r a _ => ?_
  rw [ho.outside.unmoved r t]
  exact hf a

end Places

section Handles

variable {infos : List (ℕ × MtdInfo)} {part : ℕ} {readOnly : Bool} {t : Session}
  (g : Globals) {pMtd : MtdPartition}

/-- The handle in use is open. -/
theorem Using.opened (h : Using infos part readOnly t) : t.Opened part := ⟨readOnly, h.handle⟩

/-- Opening takes the one handle there is. -/
theorem mtdPartOpen_heeds (cReadOnly : Bool) (ht : Idle infos t) :
    Heeds caution (fun t' q => Using infos pMtd.uiPartition
        ((cReadOnly || g.cVerifyOnly) || g.cDryRun) t' ∧ settled q = settled pMtd)
      (mtdPartOpen g pMtd cReadOnly) t := by
  unfold mtdPartOpen
  split
  · exact heeds_exit _
  · refine heeds_sysOrFail ⟨ht.unmarked, ht.handle⟩ fun r a hr => ?_
    have hopened := succeeded_iff.mp hr
    subst hopened
    exact heeds_pure ⟨⟨rfl, ht.unmarked, ht.infos⟩, rfl⟩

/-- Closing gives it back. -/
theorem mtdPartClose_heeds (ht : Using infos pMtd.uiPartition readOnly t) :
    Heeds caution (fun t' q => Idle infos t' ∧ settled q = settled pMtd) (mtdPartClose pMtd) t := by
  unfold mtdPartClose
  refine heeds_sysOrFail ⟨ht.unmarked, ht.opened⟩ fun r a hr => ?_
  have hclosed := succeeded_iff.mp hr
  subst hclosed
  exact heeds_pure ⟨⟨rfl, ht.unmarked, ht.infos⟩, rfl⟩

/-- A block that may be used has just been called good. -/
theorem mtdPartIsBadBlock_heeds (iOffset : ℕ) (ht : Using infos pMtd.uiPartition readOnly t) :
    Heeds caution (fun t' bad => Using infos pMtd.uiPartition readOnly t' ∧
        (bad = false → Vetted infos pMtd.uiPartition readOnly iOffset t'))
      (mtdPartIsBadBlock pMtd iOffset) t := by
  refine heeds_sysOrFail_last ⟨ht.unmarked, ht.opened⟩ fun r bad hr => ?_
  have husing : Using infos pMtd.uiPartition readOnly
      (note t ⟨.memGetBadBlock pMtd.uiPartition iOffset, r⟩) := ⟨ht.handle, ht.unmarked, ht.infos⟩
  refine ⟨husing, fun hgood => ⟨husing, ?_⟩⟩
  rw [hgood] at hr
  exact if_pos hr

/-- Reading the partition. -/
theorem pread_allowed (ht : Using infos part readOnly t) (size offset : ℕ) :
    caution.allows t (.pread part size offset) :=
  ⟨ht.unmarked, ht.opened⟩

end Handles

section Transfer

variable {infos : List (ℕ × MtdInfo)} {readOnly : Bool} {t : Session} {g : Globals}
  {pMtd : MtdPartition}

/-- A good block is erased, and then gets its clean marker. -/
theorem eraseBlock_heeds {start : ℕ} (hknown : Known infos pMtd)
    (ht : Vetted infos pMtd.uiPartition g.cDryRun start t) :
    Heeds caution (fun t' _ => Using infos pMtd.uiPartition g.cDryRun t')
      (eraseBlock g pMtd start) t := by
  unfold eraseBlock
  split
  · exact heeds_pure ht.toUsing
  · rename_i hdry
    have hwritable : t.Writable pMtd.uiPartition := by
      rw [Session.Writable, ht.handle, Bool.eq_false_iff.mpr hdry]
    have hsaid : (pMtd.uiPartition, pMtd.xInfo) ∈ t.infos := ht.infos ▸ hknown.said
    refine heeds_sysOrFail ⟨ht.unmarked, hwritable, ht.vetted, _, hsaid, rfl⟩ fun r a hr => ?_
    have herased := succeeded_iff.mp hr
    subst herased
    have husing : Using infos pMtd.uiPartition g.cDryRun
        (note t ⟨.memErase pMtd.uiPartition start pMtd.xInfo.erasesize, true⟩) :=
      ⟨ht.handle, ht.unmarked, ht.infos⟩
    split
    · split
      · exact heeds_sysOrFail_last ⟨ht.unmarked, hwritable, start, ht.vetted, rfl⟩
          fun _ _ _ => husing
      · exact heeds_sysOrFail_last
          ⟨ht.unmarked, hwritable, ht.vetted, .inl ⟨hknown.marker, rfl⟩⟩ fun _ _ _ => husing
    · exact heeds_pure husing

/-- Erasing asks for each block before it. -/
theorem mtdPartErase_heeds (hknown : Known infos pMtd)
    (ht : Using infos pMtd.uiPartition g.cDryRun t) :
    Heeds caution (fun t' _ => Using infos pMtd.uiPartition g.cDryRun t')
      (mtdPartErase g pMtd) t := by
  refine Heeds.loop (I := fun t' _ => Using infos pMtd.uiPartition g.cDryRun t')
    (fun t' st ht' => ?_) g.fuel ht
  obtain ⟨start, iBytesErasedTotal⟩ := st
  dsimp only [erasePass]
  split
  · refine (mtdPartIsBadBlock_heeds start ht').andThen fun t₁ bad h₁ => ?_
    cases bad with
    | true => exact heeds_pure h₁.1
    | false => exact (eraseBlock_heeds hknown (h₁.2 rfl)).andThen fun t₂ _ h₂ => heeds_pure h₂
  · exact heeds_pure ht'

/-- The attempts to write a page tell the observer nothing. -/
theorem writeAttempts_heeds {pucBuffer : Bytes} {iCurrentOffs : ℕ} (hknown : Known infos pMtd)
    (hpage : pucBuffer.length = pMtd.iPageSize)
    (ht : Vetted infos pMtd.uiPartition g.cDryRun iCurrentOffs t) (left : ℕ) (pucBufferMtd : Bytes) :
    Heeds caution (fun t' _ => t' = t)
      (writeAttempts g pMtd pucBuffer iCurrentOffs left pucBufferMtd) t := by
  have hlength : ∃ xInfo, (pMtd.uiPartition, xInfo) ∈ t.infos ∧ pucBuffer.length = pageOf xInfo :=
    ⟨_, ht.infos ▸ hknown.said, hpage.trans hknown.page⟩
  have hwrite : Heeds caution (fun t' _ => t' = t) (pwriteUnlessDry g pMtd pucBuffer iCurrentOffs) t := by
    unfold pwriteUnlessDry
    split
    · exact heeds_pure rfl
    · rename_i hdry
      have hwritable : t.Writable pMtd.uiPartition := by
        rw [Session.Writable, ht.handle, Bool.eq_false_iff.mpr hdry]
      exact ⟨⟨ht.unmarked, hwritable, ht.vetted, .inr hlength⟩, fun _ => rfl⟩
  induction left generalizing pucBufferMtd with
  | zero => exact heeds_pure rfl
  | succ left ih =>
    unfold writeAttempts
    refine hwrite.andThen fun t₁ iBytesWritten h₁ => ?_
    rw [h₁]
    split
    · split
      · exact ih _
      · exact heeds_exit _
    · split
      · refine heeds_call (pread_allowed ht.toUsing _ _) fun r => ?_
        cases r with
        | none => exact ih _
        | some bytes =>
          dsimp only
          split
          · exact ih _
          · exact heeds_pure rfl
      · exact heeds_pure rfl

/-- A page is written where the block has been called good; a block that is
marked bad ends the run. -/
theorem writePage_heeds {pucBuffer : Bytes} {iCurrentOffs : ℕ} (hknown : Known infos pMtd)
    (hpage : pucBuffer.length = pMtd.iPageSize)
    (ht : Vetted infos pMtd.uiPartition g.cDryRun iCurrentOffs t) :
    Heeds caution (fun t' _ => t' = t) (writePage g pMtd pucBuffer iCurrentOffs) t := by
  have hbuffer : (readBackBuffer g pMtd).Sat Aside AnyReason AnyResult := by
    unfold readBackBuffer
    split
    · exact sat_forget (sat_sysOrFail rfl trivial)
    · trivial
  unfold writePage
  refine (heeds_aside hbuffer ht.unmarked).andThen fun t₁ pucBufferMtd h₁ => ?_
  rw [h₁.1]
  refine (writeAttempts_heeds hknown hpage ht _ _).andThen fun t₂ done h₂ => ?_
  rw [h₂]
  split
  · exact heeds_pure rfl
  · exact ⟨⟨ht.unmarked, ht.opened, ht.vetted⟩, fun _ => trivial⟩

/-- A pass of the loop of `MtdPartWrite`. -/
theorem writePass_heeds (hknown : Known infos pMtd)
    (ht : Using infos pMtd.uiPartition g.cDryRun t) (st : WriteState) :
    Heeds caution (fun t' _ => Using infos pMtd.uiPartition g.cDryRun t') (writePass g pMtd st) t := by
  unfold writePass
  refine (mtdPartIsBadBlock_heeds st.iCurrentOffs ht).andThen fun t₁ bad h₁ => ?_
  cases bad with
  | true => exact heeds_pure h₁.1
  | false =>
    refine heeds_sysOrFail_aside rfl h₁.1.unmarked fun bytes => ?_
    split
    · exact heeds_pure h₁.1
    · have hpage := FlashWriting.length_fillPage pMtd.cIsJFFS2 bytes.2
      refine (writePage_heeds hknown hpage (h₁.2 rfl)).andThen fun t₂ _ h₂ => heeds_pure ?_
      rw [h₂]
      exact h₁.1

/-- Writing an image. -/
theorem mtdPartWrite_heeds (hknown : Known infos pMtd)
    (ht : Using infos pMtd.uiPartition g.cDryRun t) :
    Heeds caution (fun t' q => Using infos pMtd.uiPartition g.cDryRun t' ∧ settled q = settled pMtd)
      (mtdPartWrite g pMtd) t := by
  refine Heeds.mono (Heeds.and_sat (Q := fun t' _ => Using infos pMtd.uiPartition g.cDryRun t') ?_
    (mtdPartWrite_sat g pMtd)) fun t' q hq => ⟨hq.1, hq.2⟩
  unfold mtdPartWrite
  refine heeds_sysOrFail_aside rfl ht.unmarked fun _ => ?_
  refine heeds_sysOrFail_aside rfl ht.unmarked fun _ => ?_
  refine heeds_sysOrFail ⟨ht.unmarked, ht.opened⟩ fun _ _ _ => ?_
  refine Heeds.andThen (Q := fun t' _ => Using infos pMtd.uiPartition g.cDryRun t') ?_
    fun t₁ st h₁ => ?_
  · refine Heeds.loop (I := fun t' _ => Using infos pMtd.uiPartition g.cDryRun t')
      (fun t' st ht' => ?_) g.fuel ht
    refine (writePass_heeds hknown ht' st).mono fun t₂ step h₂ => ?_
    cases step with
    | inl _ => exact h₂
    | inr _ => exact h₂
  · refine heeds_sysOrFail_aside rfl h₁.unmarked fun _ => ?_
    split
    · exact heeds_exit _
    · exact heeds_pure h₁

/-- The attempts to read a page tell the observer nothing. -/
theorem readAttempts_heeds (ht : Using infos pMtd.uiPartition readOnly t) (iOffsMtd left : ℕ) :
    Heeds caution (fun t' _ => t' = t) (readAttempts g pMtd iOffsMtd left) t := by
  induction left with
  | zero => exact heeds_pure rfl
  | succ left ih =>
    unfold readAttempts
    refine heeds_call (pread_allowed ht _ _) fun r => ?_
    cases r with
    | some bytes => exact heeds_pure rfl
    | none =>
      dsimp only
      split
      · exact ih
      · exact heeds_exit _

/-- A pass of the loop of `MtdPartVerify`, which also ends the run when it has
marked a block bad. -/
theorem verifyPass_heeds (ht : Using infos pMtd.uiPartition readOnly t) (st : VerifyState) :
    Heeds caution (fun t' _ => Using infos pMtd.uiPartition readOnly t') (verifyPass g pMtd st) t := by
  unfold verifyPass
  refine (mtdPartIsBadBlock_heeds st.iOffsMtd ht).andThen fun t₁ bad h₁ => ?_
  cases bad with
  | true => exact heeds_pure h₁.1
  | false =>
    have hvetted := h₁.2 rfl
    refine heeds_sysOrFail_aside rfl h₁.1.unmarked fun bytesSrc => ?_
    split
    · exact heeds_pure h₁.1
    · have hread : Heeds caution (fun t' _ => t' = t₁) (readPage g pMtd st.iOffsMtd) t₁ := by
        unfold readPage
        refine (readAttempts_heeds h₁.1 _ _).andThen fun t₂ r h₂ => ?_
        rw [h₂]
        cases r with
        | some bytes => exact heeds_pure rfl
        | none => exact ⟨⟨hvetted.unmarked, hvetted.opened, hvetted.vetted⟩, fun _ => trivial⟩
      refine hread.andThen fun t₂ bytesMtd h₂ => ?_
      rw [h₂]
      dsimp only
      split
      · exact heeds_pure h₁.1
      · split
        · exact ⟨⟨h₁.1.unmarked, trivial⟩, fun _ => ⟨⟨h₁.1.unmarked, trivial⟩, fun _ => h₁.1⟩⟩
        · split <;> exact heeds_pure h₁.1

/-- Closing a handle and opening one for reading. -/
theorem reopen_heeds {β : Type} {Q : Session → β → Prop} {f : MtdPartition → Flash β}
    (ht : Using infos pMtd.uiPartition readOnly t)
    (hf : ∀ t' q, Using infos pMtd.uiPartition true t' → settled q = settled pMtd →
      Heeds caution Q (f q) t') :
    Heeds caution Q (mtdPartClose pMtd >>= fun q => mtdPartOpen g q true >>= f) t := by
  refine (mtdPartClose_heeds ht).andThen fun t₁ p₁ h₁ => ?_
  refine (mtdPartOpen_heeds g true h₁.1).andThen fun t₂ p₂ h₂ => ?_
  have hpart := part_of_settled h₁.2
  rw [Bool.true_or, Bool.true_or, hpart] at h₂
  exact hf t₂ p₂ h₂.1 (h₂.2.trans h₁.2)

/-- Comparing a partition. -/
theorem comparePart_heeds (ht : Using infos pMtd.uiPartition readOnly t) :
    Heeds caution (fun t' r => Using infos pMtd.uiPartition true t' ∧ settled r.2 = settled pMtd)
      (comparePart g pMtd) t := by
  unfold comparePart
  refine heeds_sysOrFail_aside rfl ht.unmarked fun _ => ?_
  refine heeds_sysOrFail_aside rfl ht.unmarked fun _ => ?_
  refine reopen_heeds ht fun t₁ q h₁ hq => ?_
  have hpart := part_of_settled hq
  rw [← hpart] at h₁
  refine heeds_sysOrFail_aside rfl h₁.unmarked fun _ => ?_
  refine Heeds.andThen (Q := fun t' _ => Using infos q.uiPartition true t') ?_ fun t₂ _ h₂ => ?_
  · refine Heeds.loop (I := fun t' _ => Using infos q.uiPartition true t')
      (fun t' st ht' => ?_) g.fuel h₁
    refine (verifyPass_heeds ht' st).mono fun t₂ step h₂ => ?_
    cases step with
    | inl _ => exact h₂
    | inr _ => exact h₂
  · refine heeds_sysOrFail_aside rfl h₂.unmarked fun _ => ?_
    rw [hpart] at h₂
    exact heeds_pure ⟨h₂, hq⟩

/-- `MtdPartVerify` reports only after it has compared. -/
theorem mtdPartVerify_heeds (ht : Using infos pMtd.uiPartition readOnly t) :
    Heeds caution (fun t' r => Using infos pMtd.uiPartition true t' ∧ settled r.2 = settled pMtd)
      (mtdPartVerify g pMtd) t :=
  (comparePart_heeds ht).andThen fun _ _ hr => ⟨⟨hr.1.unmarked, trivial⟩, fun _ => hr⟩

/-- Summing a partition. -/
theorem mtdPartCheckCRC32_heeds (ht : Using infos pMtd.uiPartition readOnly t) :
    Heeds caution (fun t' q => Using infos pMtd.uiPartition true t' ∧ settled q = settled pMtd)
      (mtdPartCheckCRC32 g pMtd) t := by
  unfold mtdPartCheckCRC32
  refine heeds_sysOrFail_aside rfl ht.unmarked fun _ => ?_
  refine reopen_heeds ht fun t₁ q h₁ hq => ?_
  have hpart := part_of_settled hq
  rw [← hpart] at h₁
  refine Heeds.andThen (Q := fun t' _ => Using infos q.uiPartition true t') ?_ fun t₂ _ h₂ => ?_
  · refine Heeds.loop (I := fun t' _ => Using infos q.uiPartition true t')
      (fun t' st ht' => ?_) g.fuel h₁
    unfold checkPass
    have hstep : ∀ (t₂ : Session) (st : CheckState), Using infos q.uiPartition true t₂ →
        Sum.elim (fun _ => Using infos q.uiPartition true t₂)
          (fun _ => Using infos q.uiPartition true t₂) (st.step q) := by
      intro t₂ st h₂
      cases st.step q with
      | inl _ => exact h₂
      | inr _ => exact h₂
    refine (mtdPartIsBadBlock_heeds st.iOffsMtd ht').andThen fun t₂ bad h₂ => ?_
    cases bad with
    | true => exact heeds_pure (hstep _ _ h₂.1)
    | false =>
      exact heeds_sysOrFail (pread_allowed h₂.1 _ _) fun _ _ _ => heeds_pure (hstep _ _ h₂.1)
  · unfold mtdPartCompareCRC32
    split
    · exact heeds_exit _
    · rw [hpart] at h₂
      exact heeds_pure ⟨h₂, hq⟩

end Transfer

section Elsewhere

variable (g : Globals)

/-- Looking into a block of an image takes no call. -/
theorem verifyIfJFFS2_outside (pMtd : MtdPartition) (pucData : Bytes) (iSize : ℕ) :
    (verifyIfJFFS2 pMtd pucData iSize).Sat Outside AnyReason AnyResult := by
  unfold verifyIfJFFS2 mtdPartVerifyJFFS2Block
  split
  · split
    · trivial
    · dsimp only
      split
      · split
        · exact sat_exit trivial
        · trivial
      · split
        · exact sat_exit trivial
        · split
          · exact sat_exit trivial
          · trivial
  · trivial

/-- Comparing sums takes no call. -/
theorem mtdPartCompareCRC32_outside (inside : Func) (pMtd : MtdPartition) (uiCRC32 : Crc) :
    (mtdPartCompareCRC32 inside pMtd uiCRC32).Sat Outside AnyReason AnyResult := by
  unfold mtdPartCompareCRC32
  split
  · exact sat_exit trivial
  · trivial

/-- Neither does taking the first one. -/
theorem setOrCompareCRC32_outside (inside : Func) (pMtd : MtdPartition) (uiCRC32 : Crc) :
    (setOrCompareCRC32 inside pMtd uiCRC32).Sat Outside AnyReason AnyResult := by
  unfold setOrCompareCRC32
  split
  · exact Sat.andThen (mtdPartCompareCRC32_outside inside pMtd uiCRC32) fun _ _ => trivial
  · trivial

/-- Reading an image takes no handle of a partition. -/
theorem fileLoop_outside {inside : Func} {use : Bytes → Flash Unit}
    (huse : ∀ bytes, (use bytes).Sat Outside AnyReason AnyResult) (st : FileState) :
    (Prog.loop (filePass inside use) g.fuel st).Sat Outside AnyReason AnyResult := by
  refine Sat.loop (I := AnyResult) (fun st _ => ?_) g.fuel trivial
  unfold filePass
  refine sat_sysOrFail_andThen rfl trivial fun _ bytes _ => ?_
  split
  · trivial
  · refine Sat.andThen (verifyIfJFFS2_outside _ _ _) fun q _ => ?_
    exact Sat.andThen (huse _) fun _ _ => trivial

/-- Writing to the copy. -/
theorem writeDstOrFail_outside (bytes : Bytes) :
    (writeDstOrFail bytes).Sat Outside AnyReason AnyResult :=
  sat_forget (sat_sysOrFail rfl trivial)

/-- `MtdPartCopyFile` works on files. -/
theorem mtdPartCopyFile_outside (pMtd : MtdPartition) (szDstFileName : Path) :
    (mtdPartCopyFile g pMtd szDstFileName).Sat Outside AnyReason AnyResult := by
  unfold mtdPartCopyFile
  refine sat_sysOrFail_andThen rfl trivial fun _ _ _ => ?_
  refine sat_sysOrFail_andThen rfl trivial fun _ _ _ => ?_
  refine sat_sysOrFail_andThen rfl trivial fun _ _ _ => ?_
  refine Sat.andThen (fileLoop_outside g writeDstOrFail_outside _) fun st _ => ?_
  refine sat_sysOrFail_andThen rfl trivial fun _ _ _ => ?_
  refine sat_sysOrFail_andThen rfl trivial fun _ _ _ => ?_
  split
  · exact sat_exit trivial
  · exact setOrCompareCRC32_outside _ _ _

/-- So does `MtdPartVerifyFile`. -/
theorem mtdPartVerifyFile_outside (pMtd : MtdPartition) :
    (mtdPartVerifyFile g pMtd).Sat Outside AnyReason AnyResult := by
  unfold mtdPartVerifyFile
  refine sat_sysOrFail_andThen rfl trivial fun _ _ _ => ?_
  refine sat_sysOrFail_andThen rfl trivial fun _ _ _ => ?_
  have huse : ∀ bytes : Bytes, (return () : Flash Unit).Sat Outside AnyReason AnyResult :=
    fun _ => trivial
  refine Sat.andThen (fileLoop_outside g huse _) fun st _ => ?_
  exact sat_sysOrFail_andThen rfl trivial fun _ _ _ => setOrCompareCRC32_outside _ _ _

/-- Copying and summing the images takes no handle. -/
theorem checkFiles_outside (parts : List MtdPartition) :
    (checkFiles g parts).Sat Outside AnyReason AnyResult := by
  unfold checkFiles
  split
  · unfold verifyTmpDir
    refine Sat.andThen (R := AnyResult) ?_ fun _ _ => ?_
    · refine sat_sysOrFail_andThen rfl trivial fun _ _ _ => ?_
      split
      · exact sat_exit trivial
      · split
        · exact sat_exit trivial
        · trivial
    · refine sat_forget (Sat.mapList (T := fun _ _ => True) fun pMtd _ => ?_)
      exact Sat.andThen (mtdPartCopyFile_outside g pMtd _) fun _ _ => trivial
  · split
    · exact sat_forget (Sat.mapList (T := fun _ _ => True) fun pMtd _ =>
        mtdPartVerifyFile_outside g pMtd)
    · trivial

/-- Remounting a mount point. -/
theorem remountReadOnly_outside (ent : MntEnt) :
    (remountReadOnly ent).Sat Outside AnyReason AnyResult := by
  unfold remountReadOnly
  refine sat_sys_andThen rfl fun reply => ?_
  split
  · trivial
  · exact sat_exit trivial
  · exact sat_exit trivial

/-- `GetRootDevice` reads two files. -/
theorem getRootDevice_outside (szRootDev : RootDev) :
    (getRootDevice szRootDev).Sat Outside AnyReason AnyResult := by
  unfold getRootDevice
  split
  · trivial
  · refine sat_sys_andThen rfl fun _ => ?_
    refine sat_sysOrFail_andThen rfl trivial fun _ _ _ => ?_
    refine sat_sysOrFail_andThen rfl trivial fun _ _ _ => ?_
    exact sat_sysOrFail_andThen rfl trivial fun _ _ _ => trivial

/-- The mounts of a partition are dealt with without a handle. -/
theorem mtdPartRemountAllReadOnly_outside (szRootDev : RootDev) (pMtd : MtdPartition) :
    (mtdPartRemountAllReadOnly g szRootDev pMtd).Sat Outside AnyReason AnyResult := by
  unfold mtdPartRemountAllReadOnly
  refine Sat.andThen (getRootDevice_outside szRootDev) fun szRootDev _ => ?_
  split
  · trivial
  · refine sat_sysOrFail_andThen rfl trivial fun _ _ _ => ?_
    refine Sat.andThen (R := AnyResult) ?_ fun _ _ => sat_sys_andThen rfl fun _ => trivial
    refine Sat.loop (I := AnyResult) (fun _ _ => ?_) g.fuel trivial
    unfold remountPass releaseMount
    refine sat_sys_andThen rfl fun ent => ?_
    split
    · trivial
    · refine Sat.andThen (R := AnyResult) ?_ fun _ _ => trivial
      dsimp only
      split
      · exact remountReadOnly_outside _
      · split
        · refine sat_sys_andThen rfl fun unmounted => ?_
          split
          · trivial
          · exact remountReadOnly_outside _
        · trivial

/-- Remounting for all partitions. -/
theorem remountAll_outside (szRootDev : RootDev) (parts : List MtdPartition) :
    (remountAll g szRootDev parts).Sat Outside AnyReason AnyResult := by
  induction parts generalizing szRootDev with
  | nil => trivial
  | cons pMtd parts ih =>
    refine Sat.andThen (mtdPartRemountAllReadOnly_outside g szRootDev pMtd) fun r _ => ?_
    exact Sat.andThen (ih r.1) fun _ _ => trivial

/-- Deleting the copies. -/
theorem unlinkTmpFiles_outside (parts : List MtdPartition) :
    (unlinkTmpFiles g parts).Sat Outside AnyReason AnyResult := by
  unfold unlinkTmpFiles
  split
  · refine Sat.andThen (R := AnyResult) ?_ fun _ _ => trivial
    refine sat_forget (Sat.mapList (T := fun _ _ => True) fun pMtd _ => ?_)
    unfold unlinkTmpFile
    refine sat_sys_andThen rfl fun reply => ?_
    split
    · exact sat_exit trivial
    · trivial
  · trivial

/-- A checksum is taken of a file. -/
theorem printChecksum_outside (pMtd : MtdPartition) :
    (printChecksum g pMtd).Sat Outside AnyReason AnyResult := by
  unfold printChecksum calcCRC32OfFile
  refine Sat.andThen (R := AnyResult) ?_ fun uiCRC32 _ => ?_
  · refine sat_sysOrFail_andThen rfl trivial fun _ _ _ => ?_
    refine Sat.andThen (R := AnyResult) ?_ fun _ _ => sat_sysOrFail_andThen rfl trivial
      fun _ _ _ => trivial
    refine Sat.loop (I := AnyResult) (fun st _ => ?_) g.fuel trivial
    unfold calcCRC32Pass
    refine sat_sysOrFail_andThen rfl trivial fun _ bytes _ => ?_
    split
    · trivial
    · trivial
  · split
    · exact mtdPartCompareCRC32_outside _ _ _
    · trivial

/-- Counting the partitions looks at the nodes only. -/
theorem prepare_outside (opts : Options) (fuel : ℕ) :
    (prepare opts fuel).Sat Outside AnyReason AnyResult := by
  have hcount : ∀ szMtdPrefix left n,
      (countMtdParts szMtdPrefix left n).Sat Outside AnyReason AnyResult := by
    intro szMtdPrefix left
    induction left with
    | zero => exact fun _ => trivial
    | succ left ih =>
      intro n
      unfold countMtdParts
      refine sat_sys_andThen rfl fun found => ?_
      split
      · exact ih _
      · trivial
  unfold prepare
  refine Sat.andThen (R := AnyResult) ?_ fun o _ => ?_
  · split
    · refine sat_sys_andThen rfl fun atomic => ?_
      split
      · trivial
      · trivial
    · trivial
  · dsimp only
    split
    · trivial
    · unfold mtdInit
      refine Sat.andThen (R := AnyResult) ?_ fun g _ => ?_
      · refine sat_sys_andThen rfl fun found => ?_
        split
        · trivial
        · refine sat_sys_andThen rfl fun found => ?_
          split
          · trivial
          · exact sat_exit trivial
      · refine Sat.andThen (hcount _ _ _) fun n _ => ?_
        split
        · exact sat_exit trivial
        · trivial

/-- The end of a run. -/
theorem finish_outside : (finish g).Sat Outside AnyReason AnyResult := by
  unfold finish
  split
  · exact sat_sys_andThen rfl fun _ => trivial
  · trivial

end Elsewhere

section Naming

variable {infos infos' : List (ℕ × MtdInfo)} {readOnly : Bool} {t : Session} (g : Globals)
  {pMtd : MtdPartition}

/-- What more the driver says does no harm. -/
theorem Known.mono (h : Known infos pMtd) (hsub : infos ⊆ infos') : Known infos' pMtd :=
  ⟨hsub h.said, h.page, h.marker⟩

/-- A record of the same partition, which is known when the first one is. -/
structure Keeps (pMtd q : MtdPartition) : Prop where
  /-- It is for the same partition. -/
  part : q.uiPartition = pMtd.uiPartition
  /-- What the driver has said is kept. -/
  known : ∀ infos, Known infos pMtd → Known infos q

/-- Finding the kind of a partition reads another file. -/
theorem mtdPartDeterminePartType_aside :
    (mtdPartDeterminePartType pMtd).Sat Aside AnyReason AnyResult := by
  have hseek : ∀ left acBuffer, (seekProcMtdLine left acBuffer).Sat Aside AnyReason AnyResult := by
    intro left
    induction left with
    | zero => exact fun _ => trivial
    | succ left ih => exact fun _ => sat_sysOrFail_andThen rfl trivial fun _ line _ => ih _
  unfold mtdPartDeterminePartType
  refine sat_sysOrFail_andThen rfl trivial fun _ _ _ => sat_sys_andThen rfl fun _ => ?_
  refine Sat.andThen (hseek _ _) fun acBuffer _ => ?_
  split
  · exact sat_exit trivial
  · split
    · exact sat_exit trivial
    · exact sat_sysOrFail_andThen rfl trivial fun _ _ _ => trivial

/-- Naming an image looks at the image only. -/
theorem mtdPartUseFile_aside (szImageFileName : Path) :
    (mtdPartUseFile g pMtd szImageFileName).Sat Aside AnyReason (Keeps pMtd) := by
  have hkeep : ∀ q : MtdPartition, q.uiPartition = pMtd.uiPartition → q.xInfo = pMtd.xInfo →
      q.iPageSize = pMtd.iPageSize → q.xCleanMarker = pMtd.xCleanMarker → Keeps pMtd q := by
    intro q hpart hinfo hpage hmarker
    refine ⟨hpart, fun infos h => ⟨?_, ?_, ?_⟩⟩
    · rw [hpart, hinfo]
      exact h.said
    · rw [hpage, hinfo]
      exact h.page
    · rw [hmarker]
      exact h.marker
  unfold mtdPartUseFile mtdPartDetermineAndCheckFileType
  refine sat_sysOrFail_andThen rfl trivial fun _ st_size _ => ?_
  dsimp only
  split
  · split
    · exact sat_exit trivial
    · split
      · exact sat_ret (hkeep _ rfl rfl rfl rfl)
      · split
        · exact sat_ret (hkeep _ rfl rfl rfl rfl)
        · split
          · exact sat_exit trivial
          · split
            · exact sat_ret (hkeep _ rfl rfl rfl rfl)
            · exact sat_ret (hkeep _ rfl rfl rfl rfl)
  · exact sat_ret (hkeep _ rfl rfl rfl rfl)

/-- Counting bad blocks asks for each of them. -/
theorem countBadBlocks_heeds {part : ℕ} (hpart : pMtd.uiPartition = part)
    (ht : Using infos part readOnly t) :
    Heeds caution (fun t' _ => Using infos part readOnly t') (countBadBlocks g pMtd) t := by
  subst hpart
  unfold countBadBlocks
  split
  · refine Heeds.loop (I := fun t' _ => Using infos pMtd.uiPartition readOnly t')
      (fun t' st ht' => ?_) g.fuel ht
    obtain ⟨iOffset, uiBadBlocks⟩ := st
    dsimp only [countBadBlocksPass]
    split
    · exact (mtdPartIsBadBlock_heeds iOffset ht').andThen fun t₁ bad h₁ => heeds_pure h₁.1
    · exact heeds_pure ht'
  · exact heeds_pure ht

/-- The record holds what the driver says. -/
theorem mtdPartReadInfo_heeds (ht : Using infos pMtd.uiPartition readOnly t)
    (hmarker : pMtd.xCleanMarker.length = nodeSize) :
    Heeds caution (fun t' q => ∃ infos', infos ⊆ infos' ∧
        Using infos' pMtd.uiPartition readOnly t' ∧ q.uiPartition = pMtd.uiPartition ∧
        Known infos' q)
      (mtdPartReadInfo g pMtd) t := by
  unfold mtdPartReadInfo
  refine heeds_sysOrFail ⟨ht.unmarked, ht.opened⟩ fun r xInfo hr => ?_
  cases hr
  have husing : Using ((pMtd.uiPartition, xInfo) :: infos) pMtd.uiPartition readOnly
      (note t ⟨.memGetInfo pMtd.uiPartition, some xInfo⟩) :=
    ⟨ht.handle, ht.unmarked, congrArg _ ht.infos⟩
  refine Heeds.andThen (countBadBlocks_heeds g ?_ husing) fun t₁ uiBadBlocks h₁ => ?_
  · rfl
  refine ((heeds_aside mtdPartDeterminePartType_aside h₁.unmarked).and_sat
    (mtdPartDeterminePartType_sat _)).andThen fun t₂ q hq => ?_
  obtain ⟨⟨ht₂, -⟩, ePartType, eFileTypeNeeded, hq⟩ := hq
  rw [ht₂, hq]
  refine heeds_pure ⟨_, List.subset_cons_self _ _, h₁, rfl, List.mem_cons_self .., ?_, hmarker⟩
  dsimp only [pageOf]
  simp only [decide_eq_true_eq]

/-- The clean marker is a node on any memory. -/
theorem mtdPartInitCleanMarker_heeds (ht : Using infos pMtd.uiPartition readOnly t)
    (hknown : Known infos pMtd) :
    Heeds caution (fun t' q => Using infos pMtd.uiPartition readOnly t' ∧
        q.uiPartition = pMtd.uiPartition ∧ Known infos q) (mtdPartInitCleanMarker pMtd) t := by
  have hsame : ∀ uiClMPos uiClMLen, Known infos
      { pMtd with uiClMPos := uiClMPos, uiClMLen := uiClMLen } :=
    fun _ _ => ⟨hknown.said, hknown.page, hknown.marker⟩
  unfold mtdPartInitCleanMarker
  dsimp only
  split
  · refine heeds_sysOrFail ⟨ht.unmarked, ht.opened⟩ fun r xoobInfo _ => ?_
    split
    · split
      · exact heeds_exit _
      · split
        · exact heeds_pure ⟨ht, rfl, hsame _ _⟩
        · split
          · exact heeds_pure ⟨ht, rfl, hsame _ _⟩
          · exact heeds_pure ⟨ht, rfl, hsame _ _⟩
          · exact heeds_pure ⟨ht, rfl, hsame _ _⟩
          · exact heeds_exit _
    · exact heeds_pure ⟨ht, rfl, hsame _ _⟩
  · exact heeds_pure ⟨ht, rfl, hknown.said, hknown.page, FlashWriting.length_node _ _⟩

/-- The driver has said what is in a new record, and its handle is closed. -/
theorem mtdPartInit_heeds (uiPartition : ℕ) (szImageFileName : Path) (ht : Idle infos t) :
    Heeds caution (fun t' q => ∃ infos', Idle infos' t' ∧ infos ⊆ infos' ∧ Known infos' q)
      (mtdPartInit g uiPartition szImageFileName) t := by
  unfold mtdPartInit
  refine ((mtdPartOpen_heeds g false ht).and_sat (mtdPartOpen_sat g _ _)).andThen
    fun t₁ p₁ h₁ => ?_
  obtain ⟨⟨husing, hsettled⟩, hp₁⟩ := h₁
  have hmarker : p₁.xCleanMarker.length = nodeSize := by
    rw [hp₁]
    rfl
  obtain ⟨readOnly, h₁⟩ : ∃ readOnly, Using infos p₁.uiPartition readOnly t₁ :=
    ⟨_, part_of_settled hsettled ▸ husing⟩
  refine (mtdPartReadInfo_heeds g h₁ hmarker).andThen fun t₂ p₂ h₂ => ?_
  obtain ⟨infos', hsub, h₂, hpart₂, hknown₂⟩ := h₂
  rw [← hpart₂] at h₂
  refine Heeds.andThen (Q := fun t' q => Using infos' p₂.uiPartition readOnly t' ∧
    q.uiPartition = p₂.uiPartition ∧ Known infos' q) ?_ fun t₃ p₃ h₃ => ?_
  · refine heeds_call ⟨h₂.unmarked, trivial⟩ fun atomic => ?_
    split
    · exact heeds_pure ⟨h₂, rfl, hknown₂⟩
    · exact mtdPartInitCleanMarker_heeds h₂ hknown₂
  obtain ⟨h₃, hpart₃, hknown₃⟩ := h₃
  refine (heeds_aside (mtdPartUseFile_aside g szImageFileName) h₃.unmarked).andThen
    fun t₄ p₄ h₄ => ?_
  obtain ⟨ht₄, hkeeps⟩ := h₄
  rw [ht₄]
  rw [← hpart₃, ← hkeeps.part] at h₃
  refine (mtdPartClose_heeds h₃).andThen fun t₅ p₅ h₅ => ?_
  have hknown₅ := (hkeeps.known _ hknown₃).of_settled h₅.2
  split
  · refine heeds_call ⟨h₅.1.unmarked, trivial⟩ fun atomic => ?_
    split
    · exact heeds_pure ⟨_, h₅.1, hsub,
        hknown₅.said, hknown₅.page, hknown₅.marker⟩
    · exact heeds_pure ⟨_, h₅.1, hsub,
        hknown₅.said, hknown₅.page, hknown₅.marker⟩
  · exact heeds_pure ⟨_, h₅.1, hsub, hknown₅⟩

end Naming

section Commands

variable {infos : List (ℕ × MtdInfo)} {t : Session} {g : Globals}

/-- What external flashers are asked is asked without a handle. -/
theorem outside_of_external {o : Op} (h : callKind o = .external) : Outside o := by
  cases o <;> first
    | rfl
    | cases h

/-- Writing an image and checking it gives the handle back. -/
theorem writeAndCheck_heeds {pMtd : MtdPartition} (hknown : Known infos pMtd)
    (ht : Using infos pMtd.uiPartition g.cDryRun t) :
    Heeds caution (fun t' _ => Idle infos t') (writeAndCheck g pMtd) t := by
  unfold writeAndCheck
  refine (mtdPartWrite_heeds hknown ht).andThen fun t₁ q h₁ => ?_
  obtain ⟨h₁, hq⟩ := h₁
  rw [← part_of_settled hq] at h₁
  refine Heeds.andThen (Q := fun t' r => ∃ readOnly, Using infos r.uiPartition readOnly t') ?_
    fun t₂ r h₂ => ?_
  · split
    · refine (mtdPartVerify_heeds h₁).andThen fun t₂ ⟨cRes, r⟩ h₂ => ?_
      cases cRes with
      | true => exact heeds_pure ⟨true, part_of_settled h₂.2 ▸ h₂.1⟩
      | false => exact heeds_exit _
    · split
      · exact (mtdPartCheckCRC32_heeds h₁).mono fun t₂ r h₂ =>
          ⟨true, part_of_settled h₂.2 ▸ h₂.1⟩
      · exact heeds_pure ⟨_, h₁⟩
  · obtain ⟨readOnly, h₂⟩ := h₂
    exact (mtdPartClose_heeds h₂).mono fun t₃ _ h₃ => h₃.1

/-- Flashing a partition takes a handle and gives it back. -/
theorem updatePart_heeds {pMtd : MtdPartition} (hupdate : g.cVerifyOnly = false)
    (hknown : Known infos pMtd) (ht : Idle infos t) :
    Heeds caution (fun t' _ => Idle infos t') (updatePart g pMtd) t := by
  unfold updatePart
  refine (mtdPartOpen_heeds g false ht).andThen fun t₁ q h₁ => ?_
  obtain ⟨h₁, hq⟩ := h₁
  rw [hupdate, Bool.or_false, Bool.false_or, ← part_of_settled hq] at h₁
  have hknown₁ := hknown.of_settled hq
  refine Heeds.andThen (Q := fun t' _ => Using infos q.uiPartition g.cDryRun t') ?_ fun t₂ _ h₂ => ?_
  · split
    · exact mtdPartErase_heeds hknown₁ h₁
    · exact heeds_pure h₁
  split
  · refine (mtdPartClose_heeds h₂).andThen fun t₃ r h₃ => ?_
    have hkobs := (runKobs_sat g r).mono (fun _ => outside_of_external) (fun _ h => h) fun _ h => h
    exact (heeds_outside hkobs h₃.1).andThen fun t₄ _ h₄ => h₄.1 ▸ heeds_pure h₃.1
  · split
    · refine (mtdPartClose_heeds h₂).andThen fun t₃ r h₃ => ?_
      have hubi := (mtdPartWriteUbi_sat r).mono (fun _ => outside_of_external) (fun _ h => h)
        fun _ h => h
      exact (heeds_outside hubi h₃.1).andThen fun t₄ _ h₄ => h₄.1 ▸ heeds_pure h₃.1
    · exact writeAndCheck_heeds hknown₁ h₂

/-- Comparing a partition of the list. -/
theorem verifyPart_heeds (pMtd : MtdPartition) (ht : Idle infos t) :
    Heeds caution (fun t' _ => Idle infos t') (verifyPart g pMtd) t := by
  unfold verifyPart
  refine (mtdPartOpen_heeds g true ht).andThen fun t₁ q h₁ => ?_
  obtain ⟨h₁, hq⟩ := h₁
  rw [← part_of_settled hq] at h₁
  refine (mtdPartVerify_heeds h₁).andThen fun t₂ r h₂ => ?_
  obtain ⟨h₂, hr⟩ := h₂
  rw [← part_of_settled hr] at h₂
  exact (mtdPartClose_heeds h₂).mono fun t₃ _ h₃ => h₃.1

/-- The records after another part of the tool are known as well. -/
theorem known_of_continues {parts qs : List MtdPartition} (hparts : ∀ p ∈ parts, Known infos p)
    (hqs : List.Forall₂ Continues parts qs) : ∀ q ∈ qs, Known infos q := by
  intro q hq
  obtain ⟨p, hp, hcontinues⟩ := forall₂_result hqs hq
  exact (hparts p hp).of_settled hcontinues.1

/-- An update. -/
theorem doMtdUpdate_heeds {parts : List MtdPartition} (hupdate : g.cVerifyOnly = false)
    (hparts : ∀ p ∈ parts, Known infos p) (ht : Idle infos t) :
    Heeds caution (fun t' _ => Idle infos t') (doMtdUpdate g parts) t := by
  unfold doMtdUpdate
  refine ((heeds_outside (checkFiles_outside g parts) ht).and_sat (checkFiles_sat g parts)).andThen
    fun t₁ qs h₁ => ?_
  obtain ⟨⟨ht₁, -⟩, hqs⟩ := h₁
  rw [ht₁]
  refine ((heeds_outside (remountAll_outside g _ qs) ht).and_sat (remountAll_sat g _ qs)).andThen
    fun t₂ rs h₂ => ?_
  obtain ⟨⟨ht₂, -⟩, hrs⟩ := h₂
  rw [ht₂]
  have hknown := known_of_continues (known_of_continues hparts hqs) hrs
  refine (Heeds.mapList (I := Idle infos) (T := fun _ _ => True) (fun r hr t' ht' =>
    (updatePart_heeds hupdate (hknown r hr) ht').mono fun _ _ h => ⟨h, trivial⟩) ht).andThen
      fun t₃ ps h₃ => ?_
  exact (heeds_outside (unlinkTmpFiles_outside g ps) h₃.1).mono fun t₄ _ h₄ => h₄.1 ▸ h₃.1

/-- The command of a run. -/
theorem runCommand_heeds {parts : List MtdPartition}
    (hparts : g.cChecksumOnly = false → ∀ p ∈ parts, Known infos p) (ht : Idle infos t) :
    Heeds caution (fun t' _ => Idle infos t') (runCommand g parts) t := by
  unfold runCommand
  split
  · refine Heeds.andThen (Q := fun t' _ => Idle infos t') ?_ fun t₁ _ h₁ => heeds_pure h₁
    refine (Heeds.mapList (I := Idle infos) (T := fun _ _ => True) (fun p _ t' ht' => ?_) ht).mono
      fun _ _ h => h.1
    exact (heeds_outside (printChecksum_outside g p) ht').mono fun _ _ h => ⟨h.1 ▸ ht', trivial⟩
  · rename_i hsums
    split
    · refine Heeds.andThen (Q := fun t' _ => Idle infos t') ?_ fun t₁ _ h₁ => heeds_pure h₁
      refine (Heeds.mapList (I := Idle infos) (T := fun _ _ => True) (fun p _ t' ht' => ?_) ht).mono
        fun _ _ h => h.1
      exact (verifyPart_heeds p ht').mono fun _ _ h => ⟨h, trivial⟩
    · rename_i hverify
      exact doMtdUpdate_heeds (Bool.eq_false_iff.mpr hverify)
        (hparts (Bool.eq_false_iff.mpr hsums)) ht

/-- Naming a file and its partition. -/
theorem namePart_heeds (args : List Bytes) (ht : Idle infos t) :
    Heeds caution (fun t' r => ∃ infos', Idle infos' t' ∧ infos ⊆ infos' ∧
        (g.cChecksumOnly = false → Known infos' r.1)) (namePart g args) t := by
  unfold namePart
  split
  · exact heeds_exit _
  · split
    · rename_i hsums
      refine (heeds_aside (mtdPartUseFile_aside g _) ht.unmarked).andThen fun t₁ q h₁ => ?_
      rw [h₁.1]
      exact heeds_pure ⟨infos, ht, List.Subset.refl _,
        fun hparts => absurd (hsums.symm.trans hparts) Bool.true_eq_false.mp⟩
    · split
      · exact heeds_exit _
      · split
        · exact heeds_exit _
        · split
          · exact heeds_exit _
          · refine (mtdPartInit_heeds g _ _ ht).andThen fun t₁ q h₁ => ?_
            obtain ⟨infos', hidle, hsub, hknown⟩ := h₁
            exact heeds_pure ⟨infos', hidle, hsub, fun _ => hknown⟩

/-- Taking a checksum makes no call and keeps what is known. -/
theorem nameChecksum_outside (pMtd : MtdPartition) (args : List Bytes) :
    (nameChecksum g pMtd args).Sat Outside AnyReason
      (fun r => ∀ infos, Known infos pMtd → Known infos r.1) := by
  unfold nameChecksum
  split
  · split
    · exact sat_exit trivial
    · split
      · exact sat_exit trivial
      · exact sat_ret fun _ h => ⟨h.said, h.page, h.marker⟩
  · exact sat_ret fun _ h => h

/-- Naming all partitions. -/
theorem nameParts_heeds (left : ℕ) (args : List Bytes) (ht : Idle infos t) :
    Heeds caution (fun t' parts => ∃ infos', Idle infos' t' ∧ infos ⊆ infos' ∧
        (g.cChecksumOnly = false → ∀ p ∈ parts, Known infos' p)) (nameParts g left args) t := by
  have hnone : ∃ infos', Idle infos' t ∧ infos ⊆ infos' ∧
      (g.cChecksumOnly = false → ∀ p ∈ ([] : List MtdPartition), Known infos' p) :=
    ⟨infos, ht, List.Subset.refl _, fun _ p hp => absurd hp List.not_mem_nil⟩
  induction left generalizing args infos t with
  | zero =>
    cases args with
    | nil => exact heeds_pure hnone
    | cons arg args => exact heeds_exit _
  | succ left ih =>
    cases args with
    | nil => exact heeds_pure hnone
    | cons arg args =>
      unfold nameParts
      split
      · exact heeds_exit _
      · refine (namePart_heeds _ ht).andThen fun t₁ r h₁ => ?_
        obtain ⟨infos₁, hidle₁, hsub₁, hknown₁⟩ := h₁
        refine (heeds_outside (nameChecksum_outside r.1 r.2) hidle₁).andThen fun t₂ q h₂ => ?_
        rw [h₂.1]
        refine (ih q.2 hidle₁ ⟨infos₁, hidle₁, List.Subset.refl _, fun _ p hp =>
          absurd hp List.not_mem_nil⟩).andThen fun t₃ parts h₃ => ?_
        obtain ⟨infos₃, hidle₃, hsub₃, hknown₃⟩ := h₃
        refine heeds_pure ⟨infos₃, hidle₃, List.Subset.trans hsub₁ hsub₃, fun hparts => ?_⟩
        exact List.forall_mem_cons.mpr
          ⟨(h₂.2 _ (hknown₁ hparts)).mono hsub₃, hknown₃ hparts⟩

/-- Every run of the tool is careful, whatever the system answers, and one that
gets to its end leaves no handle open. -/
theorem main_careful {σ : Type} (h : Handler Op Resp σ) (s : σ) (opts : Options)
    (args : List Bytes) (fuel : ℕ) :
    Heeded caution {} (history h (main opts args fuel) s) ∧
      ((exec h everyCall (main opts args fuel) s).outcome = .ret () →
        ((history h (main opts args fuel) s).foldl note {}).handle = none) := by
  have hstart : Idle [] {} := ⟨rfl, rfl, rfl⟩
  have hmain : Heeds caution (fun t' _ => t'.handle = none) (main opts args fuel) {} := by
    unfold main
    refine (heeds_outside (prepare_outside opts fuel) hstart).andThen fun t₁ g h₁ => ?_
    rw [h₁.1]
    refine (nameParts_heeds _ args hstart).andThen fun t₂ parts h₂ => ?_
    obtain ⟨infos, hidle, -, hknown⟩ := h₂
    refine (runCommand_heeds hknown hidle).andThen fun t₃ _ h₃ => ?_
    exact (heeds_outside (finish_outside g) h₃).mono fun t₄ _ h₄ => h₄.1 ▸ h₃.handle
  obtain ⟨hheeded, hret⟩ := hmain.run h s
  exact ⟨hheeded, fun hout => hret () hout⟩

end Commands

end MetaDigi.FlashCaution
