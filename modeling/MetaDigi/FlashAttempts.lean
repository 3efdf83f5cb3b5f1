import MetaDigi.FlashRepeats

/-!
# Updates that fail

An update may fail at every call, or be cut off there, with cells that are
half erased or half written. Whatever it has done up to that point, it has
asked the driver only for changes to the blocks that the images need. So the
rest of the flash and the files are as before, and an update that is run again
until it succeeds leaves the flash as if it had succeeded at once.
-/

namespace MetaDigi.FlashAttempts

open CStrings SystemProgram SystemRuns FlashTypes FlashInit FlashTransfer FlashMain FlashWorld
open FlashEffects FlashRuns FlashRecords FlashDevice FlashErasing FlashWriting FlashImages
open FlashStaging FlashChecksum FlashOutcomes BlockLayout Prog

section Bounded

variable (env : Env) (opts : Options) (files : Files) (ls : List Listed)

/-- A call that changes nothing but cells that are needed for a list, and no
file. -/
def Within : Op → Prop
  | .memErase part start length =>
    ∀ a, start ≤ a → a < start + length → Needed env opts files ls part a
  | .pwrite part data offset =>
    ∀ a, offset ≤ a → a < offset + data.length → Needed env opts files ls part a
  | o => callKind o ≠ .external ∧ callKind o ≠ .files

/-- The same, unless an external flasher is called. -/
def Bounded (o : Op) : Prop := callKind o = .external ∨ Within env opts files ls o

variable {env opts files ls}

/-- A plain call changes nothing. -/
theorem bounded_of_plain {o : Op} (ho : Plain o) : Bounded env opts files ls o := by
  cases o <;> first
    | exact CallKind.noConfusion ho
    | exact .inr ⟨CallKind.noConfusion, CallKind.noConfusion⟩

/-- A quiet call changes nothing. -/
theorem bounded_of_quiet {o : Op} (ho : Quiet o) : Bounded env opts files ls o := by
  rcases ho with ho | ho
  · exact bounded_of_plain ho
  · cases o <;> first
      | exact CallKind.noConfusion ho
      | exact .inr ⟨CallKind.noConfusion, CallKind.noConfusion⟩

variable {X : ExitReason → Prop} {α : Type} {R : α → Prop} {p : Flash α} {w : World}

/-- A quiet program. -/
theorem makes_bounded (hp : p.Sat Quiet X R) : Makes (system env) (Bounded env opts files ls) p w :=
  fun o ho => bounded_of_quiet (makes_of_sat hp o ho)

/-- A call within the needed cells leaves the files alone. -/
theorem within_files {o : Op} (env' : Env) (failed : Bool) (ho : Bounded env opts files ls o)
    (w : World) : (respond env' failed o w).2.files = w.files := by
  cases o <;> first
    | rfl
    | exact absurd rfl (ho.resolve_left CallKind.noConfusion).2
    | (dsimp only [respond]
       repeat' split
       all_goals rfl)

/-- Such a run leaves the files alone when nobody else changes them. -/
theorem bounded_files (hstill : Still env) {o : Outcome ExitReason α} {w' : World}
    (hp : Makes (system env) (Bounded env opts files ls) p w)
    (hrun : Ends (system env) p w o w') : w'.files = w.files := by
  rw [← hrun.2]
  exact hp.keeps (I := fun v => v.files = w.files)
    (fun q t hq ht => (within_files env _ hq _).trans ((hstill _ _).trans ht)) rfl

end Bounded

section Part

variable {env : Env} {opts : Options} {g : Globals} {files : Files} {ls : List Listed}
  {l : Listed} {p : MtdPartition} {w w' : World} (hl : l ∈ ls) (hg : Geometry env l.part)
  (hready : Ready env opts files l p)

include hl hready in
/-- A range in a block that is needed. -/
theorem needed_of_block {o offset n a : ℕ} (ho : o ∈ blocksFor env opts files l)
    (hlo : o ≤ offset) (hhi : offset + n ≤ o + (env.info l.part).erasesize) (ha : offset ≤ a)
    (ha' : a < offset + n) : Needed env opts files ls p.uiPartition a := by
  have hpart := hready.part
  refine ⟨l, hl, hpart.symm, o, ho, by omega, ?_⟩
  rw [hpart]
  omega

include hl hready in
/-- Erasing a block that is needed. -/
theorem eraseBlock_bounded {start : ℕ} (hstart : start ∈ blocksFor env opts files l) :
    (eraseBlock g p start).Sat (Bounded env opts files ls) AnyReason AnyResult := by
  have hsize : p.xInfo.erasesize = (env.info l.part).erasesize := by
    rw [hready.describes.info, hready.part]
  have herase : Bounded env opts files ls (.memErase p.uiPartition start p.xInfo.erasesize) :=
    .inr fun a ha ha' => needed_of_block hl hready hstart (Nat.le_refl _) (by rw [hsize]) ha ha'
  unfold eraseBlock
  split
  · trivial
  · refine sat_sysOrFail_andThen herase trivial fun _ _ _ => ?_
    split
    · rename_i hmarker
      rw [if_pos (hready.marker hmarker)]
      exact sat_forget (sat_sysOrFail (.inr ⟨CallKind.noConfusion, CallKind.noConfusion⟩) trivial)
    · trivial

include hl hg hready in
/-- `MtdPartErase` erases needed blocks only. -/
theorem mtdPartErase_bounded :
    Makes (system env) (Bounded env opts files ls) (mtdPartErase g p) w := by
  have hpart := hready.part
  have hd := hready.describes
  have hgq : Geometry env p.uiPartition := hpart.symm ▸ hg
  have hsize : p.xInfo.erasesize = (env.info p.uiPartition).erasesize := by rw [hd.info]
  have hpos := hd.erase_pos hgq
  have hbytes : eraseSize p = ((if erasesAll env opts l then goodBytes env p.uiPartition
      else (contents files l.file).length : ℕ) : ℤ) := by
    unfold eraseSize
    rw [hready.all, hready.content.2]
    split
    · exact hready.size
    · rfl
  have hroom : (if erasesAll env opts l then goodBytes env p.uiPartition
      else (contents files l.file).length) ≤ goodBytes env p.uiPartition := by
    split
    · exact Nat.le_refl _
    · rw [hready.content.2]
      exact hready.fits
  have hblocks : blocksFor env opts files l = neededBlocks env p.uiPartition
      (erasesAll env opts l) (contents files l.file).length := by
    rw [hpart]
    rfl
  rw [neededBlocks_eq hgq, ← hsize] at hblocks
  generalize (if erasesAll env opts l then goodBytes env p.uiPartition
    else (contents files l.file).length) = len at hbytes hroom hblocks
  unfold mtdPartErase
  rw [hbytes]
  -- As many bytes are erased as the good blocks passed have.
  refine makes_loop (I := fun st _ => ∃ i, st = (i * p.xInfo.erasesize,
    (goodUnits (env.badAt p.uiPartition) p.xInfo.erasesize 0 i).length * p.xInfo.erasesize))
    (fun st v hst => ?_) ⟨0, by rw [Nat.zero_mul, goodUnits, List.length_nil, Nat.zero_mul]⟩
  obtain ⟨i, rfl⟩ := hst
  unfold erasePass
  dsimp only
  split
  · rename_i hmore
    have hmore' := Int.ofNat_lt.mp hmore
    have hi : i < blockCount env p.uiPartition := by
      refine lt_of_length_goodUnits (env.badAt p.uiPartition) p.xInfo.erasesize ?_
      refine Nat.lt_of_mul_lt_mul_right (a := p.xInfo.erasesize) (Nat.lt_of_lt_of_le hmore' ?_)
      rw [hsize]
      exact hroom
    have hnext := nextBlock p hgq hd hi
    have hasked : (mtdPartIsBadBlock p (i * p.xInfo.erasesize)).Sat Quiet AnyReason AnyResult :=
      sat_quiet (sat_relax (mtdPartIsBadBlock_sat p _))
    constructor
    · refine makes_seq (makes_bounded hasked) fun bad v₁ hask => ?_
      obtain ⟨hbad, -⟩ := mtdPartIsBadBlock_inv hask
      split
      · exact makes_bounded (R := AnyResult) (X := AnyReason) trivial
      · rename_i hgood
        rw [hbad, Bool.not_eq_true] at hgood
        have hstart : i * p.xInfo.erasesize ∈ blocksFor env opts files l := by
          have hunits : goodBlocks env p.uiPartition = goodUnits (env.badAt p.uiPartition)
              p.xInfo.erasesize 0 (blockCount env p.uiPartition) := by
            rw [hsize]
            rfl
          rw [hblocks, hunits]
          exact mem_take_goodUnits _ _ hi hgood (lt_ceil hpos hmore')
        refine makes_seq (makes_of_sat (eraseBlock_bounded hl hready hstart)) fun _ _ _ => ?_
        exact makes_bounded (R := AnyResult) (X := AnyReason) trivial
    · intro st' v' hends
      obtain ⟨bad, v₁, hask, hends⟩ := Ends.split hends
      obtain ⟨hbad, -⟩ := mtdPartIsBadBlock_inv hask
      refine ⟨i + 1, ?_⟩
      rw [length_goodUnits_succ, ← hbad]
      split at hends
      · rename_i hisbad
        rw [Sum.inl.inj hends.pure_inv.1, hnext, if_pos hisbad]
        rfl
      · rename_i hgood
        obtain ⟨_, v₂, -, hends⟩ := Ends.split hends
        rw [Sum.inl.inj hends.pure_inv.1, hnext, if_neg hgood]
        exact Prod.ext rfl (Nat.succ_mul _ _).symm
  · refine ⟨makes_bounded (R := AnyResult) (X := AnyReason) trivial, fun st' v' hends => ?_⟩
    cases hends.pure_inv.1

variable (hstill : Still env)

include hstill in
/-- Writing a page leaves the image as it is, and open where it was. -/
theorem paging_kept {α : Type} {q : Flash α} {X : ExitReason → Prop} {R : α → Prop}
    {o : Outcome ExitReason α} (hq : q.Sat (Paging g) X R) (hrun : Ends (system env) q w o w') :
    w'.files = w.files ∧ w'.src = w.src := by
  refine hrun.keeps (I := fun v => v.files = w.files ∧ v.src = w.src) hq (fun c t hc ht => ?_)
    ⟨rfl, rfl⟩
  have hfiles : (t.enter env).files = w.files := (hstill _ _).trans ht.1
  cases c <;> first
    | exact hc.elim
    | exact ⟨hfiles, ht.2⟩

/-- Writing a page that is needed. -/
theorem writePage_bounded {pucBuffer : Bytes} {iCurrentOffs : ℕ}
    (hneeded : ∀ a, iCurrentOffs ≤ a → a < iCurrentOffs + pucBuffer.length →
      Needed env opts files ls p.uiPartition a) :
    (writePage g p pucBuffer iCurrentOffs).Sat (Bounded env opts files ls) AnyReason AnyResult := by
  have hwrite : Bounded env opts files ls (.pwrite p.uiPartition pucBuffer iCurrentOffs) :=
    .inr hneeded
  have hother : ∀ {o : Op}, callKind o = .harmless → Bounded env opts files ls o := bounded_of_plain
  have hattempts : ∀ left pucBufferMtd,
      (writeAttempts g p pucBuffer iCurrentOffs left pucBufferMtd).Sat (Bounded env opts files ls)
        AnyReason AnyResult := by
    intro left
    induction left with
    | zero => exact fun _ => trivial
    | succ left ih =>
      intro pucBufferMtd
      unfold writeAttempts
      refine Sat.andThen (R := AnyResult) ?_ fun iBytesWritten _ => ?_
      · unfold pwriteUnlessDry
        split
        · trivial
        · exact ⟨hwrite, fun _ => trivial⟩
      split
      · split
        · exact ih _
        · exact sat_exit trivial
      · split
        · refine sat_sys_andThen (hother rfl) fun r => ?_
          split
          · exact ih _
          · dsimp only
            split
            · exact ih _
            · trivial
        · trivial
  unfold writePage
  refine Sat.andThen (R := AnyResult) ?_ fun pucBufferMtd _ => ?_
  · unfold readBackBuffer
    split
    · exact sat_forget (sat_sysOrFail (hother rfl) trivial)
    · trivial
  refine Sat.andThen (hattempts _ _) fun done _ => ?_
  split
  · trivial
  · exact sat_sys_andThen (.inr ⟨CallKind.noConfusion, CallKind.noConfusion⟩) fun _ =>
      sat_exit trivial

include hg hready in
/-- A page is needed when not all of the image has been read by then. -/
theorem page_needed {i : ℕ} (hi : i < pageCount env p.uiPartition)
    (hgood : env.badAt p.uiPartition (i * p.iPageSize) = false)
    (hmore : (goodUnits (env.badAt p.uiPartition) p.iPageSize 0 i).length * p.iPageSize <
      (contents files l.file).length) :
    ∃ o ∈ blocksFor env opts files l,
      o ≤ i * p.iPageSize ∧ i * p.iPageSize + p.iPageSize ≤ o + (env.info l.part).erasesize := by
  have hpart := hready.part
  have hd := hready.describes
  have hgq : Geometry env p.uiPartition := hpart.symm ▸ hg
  have hpos := hd.page_pos hgq
  have hin : i * p.iPageSize ∈ (goodPages env p.uiPartition).take
      (((contents files l.file).length + p.iPageSize - 1) / p.iPageSize) := by
    rw [goodPages, ← hd.page]
    exact mem_take_goodUnits _ _ hi hgood (lt_ceil hpos hmore)
  rw [hd.page] at hin ⊢
  obtain ⟨o, ho, hlo, hhi⟩ := page_in_block hgq hin
  have hblock : o ∈ blocksFor env opts files l := by
    have hneeded : o ∈ neededBlocks env p.uiPartition (erasesAll env opts l)
        (contents files l.file).length := mem_neededBlocks ho
    rw [hpart] at hneeded
    exact hneeded
  rw [hpart] at hhi ⊢
  exact ⟨o, hblock, hpart ▸ hlo, hhi⟩

include hg hready in
/-- The next pass of the writing loop is for the next page. -/
theorem step_next {st st' : WriteState} {i : ℕ} (hoff : st.iCurrentOffs = i * p.iPageSize)
    (hstep : st.step p = .inl st') :
    st'.iCurrentOffs = (i + 1) * p.iPageSize ∧ i + 1 < pageCount env p.uiPartition := by
  have hgq : Geometry env p.uiPartition := hready.part.symm ▸ hg
  rw [writeState_step p hgq hready.describes hoff] at hstep
  split at hstep
  · rename_i hlt
    rw [← Sum.inl.inj hstep]
    exact ⟨rfl, hlt⟩
  · cases hstep

include hl hg hready hstill in
/-- `MtdPartWrite` writes pages that are needed only. -/
theorem mtdPartWrite_bounded (hfiles : w.files = files) :
    Makes (system env) (Bounded env opts files ls) (mtdPartWrite g p) w := by
  have hpart := hready.part
  have hd := hready.describes
  have hgq : Geometry env p.uiPartition := hpart.symm ▸ hg
  have hpos := hd.page_pos hgq
  have hpage := hd.page
  have hcontent := hready.content.1
  generalize hnamed : contents files l.file = content at hcontent
  have hquiet : ∀ {α : Type} {q : Flash α} {v : World}, q.Sat Quiet AnyReason AnyResult →
      Makes (system env) (Bounded env opts files ls) q v := fun hq => makes_bounded hq
  unfold mtdPartWrite
  refine makes_seq (hquiet (sat_forget (sat_sysOrFail (.inl rfl) trivial))) fun cells w₁ hmalloc => ?_
  refine makes_seq (hquiet (sat_forget (sat_sysOrFail (.inr rfl) trivial))) fun _ w₂ hopen => ?_
  refine makes_seq (hquiet (sat_forget (sat_sysOrFail (.inl rfl) trivial))) fun _ w₃ hseek => ?_
  have hfiles₁ : w₁.files = files := by
    rw [malloc_inv hmalloc]
    exact (hstill _ _).trans hfiles
  obtain ⟨-, hw₂⟩ := openSrc_inv hopen
  have hw₃ := (sysOrFail_inv hseek).2
  have hfiles₃ : w₃.files = files := by
    rw [hw₃, hw₂]
    exact (hstill _ _).trans ((hstill _ _).trans hfiles₁)
  have hsrc₃ : w₃.src = some (l.file, 0) := by
    rw [hw₃, hw₂, hready.image]
    rfl
  refine makes_seq ?_ fun st w₄ _ => makes_seq
    (hquiet (sat_forget (sat_sysOrFail (.inr rfl) trivial))) fun _ w₅ _ => ?_
  swap
  · split
    · exact hquiet (sat_exit trivial)
    · exact hquiet trivial
  -- The good pages passed hold what has been read, except for the end of the image.
  refine makes_loop (I := fun st v => ∃ i, st.iCurrentOffs = i * p.iPageSize ∧
    i < pageCount env p.uiPartition ∧ v.files = files ∧
    v.src = some (l.file, min ((goodUnits (env.badAt p.uiPartition) p.iPageSize 0 i).length *
      p.iPageSize) content.length)) (fun st v hst => ?_)
    ⟨0, (Nat.zero_mul _).symm, hgq.pageCount_pos, hfiles₃, by
      rw [hsrc₃, goodUnits, List.length_nil, Nat.zero_mul, Nat.zero_min]⟩
  obtain ⟨i, hoff, hi, hv, hsrc⟩ := hst
  have hcount := length_goodUnits_succ (env.badAt p.uiPartition) p.iPageSize i
  unfold writePass
  rw [hoff]
  have hask' : Makes (system env) (Bounded env opts files ls)
      (mtdPartIsBadBlock p (i * p.iPageSize)) v :=
    hquiet (sat_quiet (sat_relax (mtdPartIsBadBlock_sat p _)))
  -- What is known when a page is to be written.
  have hwrite : ∀ {bytes : Chunk p.iPageSize} {v₁ v₂ : World},
      env.badAt p.uiPartition (i * p.iPageSize) = false → v₁ = v.enter env →
      Ends (system env) (sysOrFail .mtdPartWrite (.readSrc p.iPageSize) id) v₁ (.ret bytes) v₂ →
      bytes.1 ≠ [] → (writePage g p (fillPage p.cIsJFFS2 p.iPageSize bytes.1)
        (i * p.iPageSize)).Sat (Bounded env opts files ls) AnyReason AnyResult ∧
        v₂.files = files ∧ v₂.src = some (l.file,
          min (((goodUnits (env.badAt p.uiPartition) p.iPageSize 0 i).length + 1) *
            p.iPageSize) content.length) := by
    intro bytes v₁ v₂ hgood hv₁ hread hmore
    obtain ⟨path, pos, hopened, hbytes, hv₂⟩ := readSrc_inv hread
    have hsame : v₁.src = v.src := by
      rw [hv₁]
      rfl
    obtain ⟨hpath, hat⟩ := Prod.mk.inj (Option.some.inj (hopened.symm.trans (hsame.trans hsrc)))
    have hfiles₂ : (v₁.enter env).files = files := by
      rw [hv₁]
      exact (hstill _ _).trans ((hstill _ _).trans hv)
    have hpiece : bytes.1 = (content.drop pos).take p.iPageSize := by
      rw [hbytes, piece, hfiles₂, hpath, hcontent]
      rfl
    have hlength : bytes.1.length = min p.iPageSize (content.length - pos) := by
      rw [hpiece, List.length_take, List.length_drop]
    have hsome : 0 < bytes.1.length := List.length_pos_iff.mpr hmore
    have hleft : (goodUnits (env.badAt p.uiPartition) p.iPageSize 0 i).length * p.iPageSize <
        content.length := by omega
    refine ⟨?_, by rw [hv₂]; exact hfiles₂, ?_⟩
    · obtain ⟨o, ho, hlo, hhi⟩ := page_needed hg hready hi hgood (hnamed.symm ▸ hleft)
      refine writePage_bounded fun a ha ha' => needed_of_block hl hready ho hlo hhi ha ?_
      rw [length_fillPage _ (by omega)] at ha'
      exact ha'
    · rw [hv₂, hpath, Nat.succ_mul]
      exact congrArg (fun n => some (l.file, n)) (by omega)
  constructor
  · refine makes_seq hask' fun bad v₁ hask => ?_
    obtain ⟨hbad, hv₁⟩ := mtdPartIsBadBlock_inv hask
    split
    · exact hquiet trivial
    · rename_i hgood
      rw [hbad, Bool.not_eq_true] at hgood
      refine makes_seq (hquiet (sat_forget (sat_sysOrFail (.inr rfl) trivial)))
        fun bytes v₂ hread => ?_
      split
      · exact hquiet trivial
      · rename_i hmore
        have hpages := (hwrite hgood hv₁ hread hmore).1
        exact makes_seq (makes_of_sat hpages) fun _ _ _ => hquiet trivial
  · intro st' v' hends
    obtain ⟨bad, v₁, hask, hends⟩ := Ends.split hends
    obtain ⟨hbad, hv₁⟩ := mtdPartIsBadBlock_inv hask
    split at hends
    · rename_i hisbad
      obtain ⟨hstep, hv'⟩ := hends.pure_inv
      obtain ⟨hoff', hi'⟩ := step_next hg hready hoff hstep.symm
      refine ⟨i + 1, hoff', hi', ?_, ?_⟩
      · rw [hv', hv₁]
        exact (hstill _ _).trans hv
      · rw [hv', hv₁, hcount, ← hbad, if_pos hisbad]
        exact hsrc
    · rename_i hgood
      rw [hbad, Bool.not_eq_true] at hgood
      obtain ⟨bytes, v₂, hread, hends⟩ := Ends.split hends
      split at hends
      · cases hends.pure_inv.1
      · rename_i hmore
        obtain ⟨-, hfiles₂, hsrc₂⟩ := hwrite hgood hv₁ hread hmore
        obtain ⟨_, v₃, hpage', hends⟩ := Ends.split hends
        obtain ⟨hfiles₄, hsrc₄⟩ := paging_kept hstill (writePage_sat g p _ _) hpage'
        obtain ⟨hstep, hv'⟩ := hends.pure_inv
        have hadd : (st.add p bytes.1).iCurrentOffs = i * p.iPageSize := hoff
        obtain ⟨hoff', hi'⟩ := step_next hg hready hadd hstep.symm
        refine ⟨i + 1, hoff', hi', ?_, ?_⟩
        · rw [hv', hfiles₄, hfiles₂]
        · rw [hv', hsrc₄, hsrc₂, hcount, hgood]
          rfl

/-- Comparing a partition changes no cells, though it may mark a block bad. -/
theorem comparePart_bounded (q : MtdPartition) :
    (comparePart g q).Sat (Bounded env opts files ls) AnyReason AnyResult := by
  have hother : ∀ {o : Op}, callKind o = .harmless → Bounded env opts files ls o := bounded_of_plain
  have hreads : ∀ {o : Op}, callKind o = .reads → Bounded env opts files ls o := fun h =>
    bounded_of_quiet (.inr h)
  have hplain : ∀ {α : Type} {p : Flash α} {R : α → Prop}, p.Sat Plain Device R →
      p.Sat (Bounded env opts files ls) AnyReason R := fun hp =>
    hp.mono (fun _ => bounded_of_plain) (fun _ _ => trivial) fun _ h => h
  unfold comparePart
  refine sat_sysOrFail_andThen (hother rfl) trivial fun _ pucBufferSrc _ => ?_
  refine sat_sysOrFail_andThen (hother rfl) trivial fun _ pucBufferMtd _ => ?_
  refine Sat.andThen (hplain (mtdPartClose_sat _)) fun p₁ _ => ?_
  refine Sat.andThen (hplain (mtdPartOpen_sat g _ _)) fun p₂ _ => ?_
  refine sat_sysOrFail_andThen (hreads rfl) trivial fun _ _ _ => ?_
  refine Sat.andThen (R := AnyResult) (Sat.loop (I := AnyResult) (fun st _ => ?_) g.fuel trivial)
    fun compared _ => sat_forget (sat_sysOrFail_andThen (S := AnyResult) (hreads rfl) trivial fun _ _ _ => trivial)
  unfold verifyPass
  refine Sat.andThen (hplain (mtdPartIsBadBlock_sat p₂ _)) fun bad _ => ?_
  split
  · unfold VerifyState.step
    dsimp only
    split
    · trivial
    · trivial
  · refine sat_sysOrFail_andThen (hreads rfl) trivial fun _ bytesSrc _ => ?_
    split
    · trivial
    · refine Sat.andThen (R := AnyResult) ?_ fun bytesMtd _ => ?_
      · unfold readPage
        refine Sat.andThen (hplain (readAttempts_sat g p₂ _ _)) fun r _ => ?_
        split
        · trivial
        · exact sat_sys_andThen (.inr ⟨CallKind.noConfusion, CallKind.noConfusion⟩) fun _ =>
            sat_exit trivial
      dsimp only
      split
      · trivial
      · split
        · exact sat_sys_andThen (hother rfl) fun _ => sat_sys_andThen (hother rfl) fun _ => trivial
        · split
          · unfold VerifyState.step
            dsimp only
            split
            · trivial
            · trivial
          · trivial

include hl hg hready hstill in
/-- Flashing an element of a list asks for changes to needed cells only, unless
an external flasher is called. -/
theorem updatePart_bounded (hfiles : w.files = files) :
    Makes (system env) (Bounded env opts files ls) (updatePart g p) w := by
  have hplain : ∀ {α : Type} {q : Flash α} {R : α → Prop}, q.Sat Plain Device R →
      q.Sat (Bounded env opts files ls) AnyReason R := fun hq =>
    hq.mono (fun _ => bounded_of_plain) (fun _ _ => trivial) fun _ h => h
  unfold updatePart
  refine makes_seq (makes_of_sat (hplain (mtdPartOpen_sat g p false))) fun q w₁ hopen => ?_
  obtain ⟨hq, hw₁⟩ := mtdPartOpen_inv hopen
  have hready₁ : Ready env opts files l q := hready.of_settled (by rw [hq]; rfl) (by rw [hq])
  have hfiles₁ : w₁.files = files := by
    rw [hw₁]
    exact (hstill _ _).trans hfiles
  have herase : Makes (system env) (Bounded env opts files ls)
      (if q.eFileType ≠ .ftUBI then mtdPartErase g q else pure ()) w₁ := by
    split
    · exact mtdPartErase_bounded hl hg hready₁
    · exact makes_bounded (R := AnyResult) (X := AnyReason) trivial
  refine makes_seq herase fun _ w₂ herased => ?_
  have hfiles₂ : w₂.files = files := (bounded_files hstill herase herased).trans hfiles₁
  split
  · refine makes_of_sat (X := AnyReason) (R := AnyResult) ?_
    refine Sat.andThen (hplain (mtdPartClose_sat q)) fun r _ => ?_
    refine Sat.andThen (R := AnyResult) ?_ fun _ _ => trivial
    unfold runKobs
    dsimp only
    split
    · refine sat_sys_andThen (.inl rfl) fun status => ?_
      split
      · trivial
      · exact sat_exit trivial
    · exact sat_exit trivial
  split
  · refine makes_of_sat (X := AnyReason) (R := AnyResult) ?_
    refine Sat.andThen (hplain (mtdPartClose_sat q)) fun r _ => ?_
    refine Sat.andThen (R := AnyResult) ?_ fun _ _ => trivial
    unfold mtdPartWriteUbi
    refine sat_sys_andThen (.inl rfl) fun ret => ?_
    split
    · exact sat_exit trivial
    · split
      · trivial
      · exact sat_exit trivial
  · refine makes_seq (mtdPartWrite_bounded hl hg hready₁ hstill hfiles₂) fun r w₃ _ => ?_
    refine makes_of_sat (X := AnyReason) (R := AnyResult) ?_
    refine Sat.andThen (R := AnyResult) ?_ fun x _ => sat_forget (hplain (mtdPartClose_sat x))
    split
    · refine Sat.andThen (R := AnyResult) ?_ fun y _ => ?_
      · exact Sat.andThen (comparePart_bounded r) fun y _ =>
          sat_sys_andThen (.inr ⟨CallKind.noConfusion, CallKind.noConfusion⟩) fun _ => trivial
      · obtain ⟨cRes, z⟩ := y
        dsimp only
        split
        · trivial
        · exact sat_exit trivial
    · split
      · exact sat_forget (hplain (mtdPartCheckCRC32_sat g r))
      · trivial

end Part

section Run

variable {env : Env} {opts : Options} {args : List Bytes} {fuel : ℕ} {w : World}

/-- However an update ends, it has asked for changes to needed cells only,
unless an external flasher was called. -/
theorem main_bounded (hopts : Updates opts) (hstill : Still env)
    (hg : ∀ l ∈ listed opts.cHasChecksum args, Geometry env l.part)
    (hmarks : MarksOutside env opts (listed opts.cHasChecksum args)) :
    Makes (system env) (Bounded env opts w.files (listed opts.cHasChecksum args))
      (main opts args fuel) w := by
  refine makes_seq (makes_bounded (prepare_sat opts fuel)) fun g w₁ hprepare => ?_
  refine makes_seq (makes_bounded (nameParts_sat g maxMtdParts args)) fun parts w₂ hname => ?_
  obtain ⟨-, hfiles₂, hready⟩ := named_ready hopts hstill hg hmarks hprepare hname
  obtain ⟨-, cEraseAll, cWriteCleanMarker, hsame⟩ := hprepare.result (prepare_sat opts fuel)
  have hsums : g.cChecksumOnly = false := by rw [hsame, ← hopts.sums]
  have honly : g.cVerifyOnly = false := by rw [hsame, ← hopts.verify]
  have hstay : g.szTmpDir = none := by rw [hsame, ← hopts.stay]
  have hupdate : runCommand g parts = doMtdUpdate g parts := by
    rw [runCommand, hsums, if_neg Bool.false_ne_true, honly, if_neg Bool.false_ne_true]
  rw [hupdate]
  refine makes_seq ?_ fun _ w₃ _ => ?_
  · have hcheck : (checkFiles g parts).Sat Quiet AnyReason AnyResult := by
      unfold checkFiles
      rw [hstay]
      dsimp only
      split
      · exact sat_forget (Sat.mapList fun p _ => mtdPartVerifyFile_sat g p)
      · trivial
    have hremount : ∀ qs, (remountAll g noRootDev qs).Sat Quiet Device (List.Forall₂ Continues qs) :=
      fun qs => sat_quiet (remountAll_sat g noRootDev qs)
    refine makes_seq (makes_bounded hcheck) fun qs v₁ hchecked => ?_
    refine makes_seq (makes_bounded (hremount qs)) fun rs v₂ hreleased => ?_
    have hready₁ := ready_of_resumed hready (hchecked.result (checkFiles_resumed hstay parts))
    have hready₂ := ready_of_resumed hready₁ (hreleased.result (remountAll_resumed noRootDev qs))
    have hfiles₄ : v₂.files = w.files := (files_kept hstill hreleased (hremount qs)).trans
      ((files_kept hstill hchecked hcheck).trans hfiles₂)
    refine makes_seq (makes_mapList (I := fun v => v.files = w.files) (fun p hp v hv => ?_) hfiles₄)
      fun ps v₃ _ => ?_
    · obtain ⟨l, hl, hready⟩ := forall₂_result hready₂ hp
      have hbounded := updatePart_bounded (g := g) hl (hg l hl) hready hstill hv
      exact ⟨hbounded, fun q v' hends => (bounded_files hstill hbounded hends).trans hv⟩
    · unfold unlinkTmpFiles
      rw [hstay, Option.isSome_none, if_neg Bool.false_ne_true]
      exact makes_bounded (R := AnyResult) (X := AnyReason) trivial
  · unfold finish
    split
    · exact makes_perform.mpr (.inr ⟨CallKind.noConfusion, CallKind.noConfusion⟩)
    · exact makes_bounded (R := AnyResult) (X := AnyReason) trivial

/-- What a call does to the cells stays where the call said: a range may be
erased or written in part or wrongly, but nothing else is touched. -/
structure Confined (env : Env) : Prop where
  /-- Erasing changes its range only. -/
  erase : ∀ t part start length mem q a, ¬(q = part ∧ start ≤ a ∧ a < start + length) →
    env.alter t (.erase part start length) mem q a = mem q a
  /-- Writing changes its range only. -/
  write : ∀ t part offset data mem q a, ¬(q = part ∧ offset ≤ a ∧ a < offset + data.length) →
    env.alter t (.write part offset data) mem q a = mem q a
  /-- Writing out-of-band data leaves the cells of the pages alone. -/
  oob : ∀ t part start data mem, env.alter t (.writeOob part start data) mem = mem
  /-- So does marking a block. -/
  mark : ∀ t part offset mem, env.alter t (.markBad part offset) mem = mem

/-- A call within the needed cells leaves the others alone. -/
theorem within_cells (hconfined : Confined env) {files : Files} {ls : List Listed} {o : Op}
    (ho : Within env opts files ls o) (failed : Bool) (v : World) {part a : ℕ}
    (ha : ¬Needed env opts files ls part a) :
    (respond env failed o v).2.mem part a = v.mem part a := by
  cases o <;> first
    | rfl
    | exact absurd rfl ho.1
    | (dsimp only [respond]
       repeat' split
       all_goals rfl)
    | skip
  case memErase p start length =>
    refine hconfined.erase _ _ _ _ _ _ _ fun hin => ha ?_
    rw [hin.1]
    exact ho a hin.2.1 hin.2.2
  case pwrite p data offset =>
    refine hconfined.write _ _ _ _ _ _ _ fun hin => ha ?_
    rw [hin.1]
    exact ho a hin.2.1 hin.2.2
  case memWriteOob p start data => exact congrFun (congrFun (hconfined.oob ..) part) a
  case memSetBadBlock p offset => exact congrFun (congrFun (hconfined.mark ..) part) a

/-- However an update ends, cells that are not needed and the files are as
before. -/
theorem main_spares (hopts : Updates opts) (hstill : Still env) (hconfined : Confined env)
    (hg : ∀ l ∈ listed opts.cHasChecksum args, Geometry env l.part)
    (hmarks : MarksOutside env opts (listed opts.cHasChecksum args))
    (hraw : Makes (system env) Internal (main opts args fuel) w) :
    (exec (system env) everyCall (main opts args fuel) w).state.files = w.files ∧
    ∀ part a, ¬Needed env opts w.files (listed opts.cHasChecksum args) part a →
      (exec (system env) everyCall (main opts args fuel) w).state.mem part a = w.mem part a := by
  have hbounded := @main_bounded env opts args fuel w hopts hstill hg hmarks
  have hwithin : Makes (system env) (Within env opts w.files (listed opts.cHasChecksum args))
      (main opts args fuel) w := fun o ho => (hbounded o ho).resolve_left (hraw o ho)
  refine ⟨bounded_files hstill hbounded ⟨rfl, rfl⟩, fun part a ha => ?_⟩
  exact hwithin.keeps (I := fun v => v.mem part a = w.mem part a)
    (fun o v ho hv => (within_cells hconfined ho _ (v.enter env) ha).trans hv) rfl

end Run

section Attempts

/-- Another system with the same memory, on which calls may fail at will, with
cells that are changed in part. -/
structure Unreliable (env env' : Env) : Prop where
  /-- The driver says the same about the partitions. -/
  info : env'.info = env.info
  /-- The same blocks are bad. -/
  bad : env'.bad = env.bad
  /-- The out-of-band area is accessed in the same way. -/
  oobAtomic : env'.oobAtomic = env.oobAtomic
  /-- Nobody else changes the files. -/
  still : Still env'
  /-- What a call does stays where the call said. -/
  confined : Confined env'

/-- Neither a call of an external flasher nor one that marks a block bad. -/
def ordinary : Op → Bool
  | .memSetBadBlock _ _ => false
  | o => callKind o ≠ .external

/-- Ordinary calls are no external flashers. -/
theorem internal_of_ordinary {o : Op} (ho : ordinary o) : Internal o := by
  cases o <;> first
    | exact CallKind.noConfusion
    | cases ho

/-- The states of flash that are left by any number of attempts to update,
each of them a new process that has ended somehow. -/
inductive Attempted (env : Env) (opts : Options) (args : List Bytes) (files : Files)
    (mem : FlashMem) : FlashMem → Prop where
  /-- No attempt. -/
  | none : Attempted env opts args files mem mem
  /-- One more attempt. -/
  | again {mem' : FlashMem} {env' : Env} {fuel : ℕ} (before : Attempted env opts args files mem mem')
    (henv : Unreliable env env')
    (hraw : Makes (system env') (fun o => ordinary o) (main opts args fuel)
      { mem := mem', files := files }) :
    Attempted env opts args files mem (exec (system env') everyCall (main opts args fuel)
      { mem := mem', files := files }).state.mem

variable {env env' : Env} {opts : Options} {program : UInt8 → UInt8 → UInt8} {args : List Bytes}
  {fuel : ℕ} {files : Files} {mem mem' : FlashMem}

/-- The same cells are needed. -/
theorem Unreliable.needed (henv : Unreliable env env') (ls : List Listed) (part a : ℕ) :
    Needed env' opts files ls part a ↔ Needed env opts files ls part a := by
  obtain ⟨hinfo, hbad, hoob, -, -⟩ := henv
  have hblocks : ∀ l, blocksFor env' opts files l = blocksFor env opts files l := by
    intro l
    unfold blocksFor erasesAll neededBlocks goodBlocks blockCount Env.badAt
    rw [hinfo, hbad, hoob]
  unfold Needed
  simp only [hblocks, hinfo]

/-- The partitions have the same geometry. -/
theorem Unreliable.geometry (henv : Unreliable env env') {part : ℕ} (hg : Geometry env part) :
    Geometry env' part := by
  have hpage : pageSize env' part = pageSize env part := by
    unfold pageSize
    rw [henv.info]
  refine ⟨?_, ?_, ?_, ?_⟩
  · rw [hpage]
    exact hg.page_pos
  · rw [hpage, henv.info]
    exact hg.page_dvd
  · rw [henv.info]
    exact hg.erase_dvd
  · rw [henv.info]
    exact hg.size_pos

/-- Attempts change needed cells only. -/
theorem Attempted.spares (hopts : Updates opts)
    (hg : ∀ l ∈ listed opts.cHasChecksum args, Geometry env l.part)
    (hmarks : MarksOutside env opts (listed opts.cHasChecksum args))
    (h : Attempted env opts args files mem mem') {part a : ℕ}
    (ha : ¬Needed env opts files (listed opts.cHasChecksum args) part a) :
    mem' part a = mem part a := by
  induction h with
  | none => rfl
  | again _ henv hraw ih =>
    have hmarks' : MarksOutside _ opts (listed opts.cHasChecksum args) := fun l hl h => by
      rw [henv.info]
      exact hmarks l hl h
    have hspares := (main_spares hopts henv.still henv.confined
      (fun l hl => henv.geometry (hg l hl)) hmarks' fun o ho => internal_of_ordinary (hraw o ho)).2
    exact (hspares part a fun h => ha ((henv.needed _ part a).mp h)).trans ih

/-- An update that gets to its end, after any number of attempts that failed or
were cut off, leaves the flash as if there had been no attempt before. -/
theorem update_after_attempts (hopts : Updates opts) (hworks : Works env)
    (hprog : Programs env program) (herased : ∀ b, program flashErasedByte b = b)
    (hg : ∀ l ∈ listed opts.cHasChecksum args, Geometry env l.part)
    (hmarks : MarksOutside env opts (listed opts.cHasChecksum args))
    (hfuel : ∀ l ∈ listed opts.cHasChecksum args, pageCount env l.part < fuel)
    (hattempts : Attempted env opts args files mem mem') {w' : World}
    (hraw : Makes (system env) Internal (main opts args fuel) { mem := mem', files := files })
    (hrun : Ends (system env) (main opts args fuel) { mem := mem', files := files } (.ret ()) w') :
    w'.mem = updated env opts files (listed opts.cHasChecksum args) mem ∧ w'.files = files := by
  obtain ⟨hmem, hfiles⟩ := main_updates hopts hworks hprog herased hg hmarks hfuel hraw hrun
  refine ⟨hmem.trans (updated_congr fun part a ha => ?_), hfiles⟩
  exact hattempts.spares hopts hg hmarks ha

/-- The small system, when no write succeeds. -/
def smallUnreliable : Env :=
  { smallEnv with fails := fun _ o => match o with
      | .pwrite _ _ _ => true
      | _ => false }

/-- The failing system is the small one. -/
theorem smallUnreliable_unreliable : Unreliable smallEnv smallUnreliable := by
  refine ⟨rfl, rfl, rfl, fun _ _ => rfl, fun _ _ _ _ _ _ _ h => if_neg h,
    fun _ _ _ _ _ _ _ h => if_neg h, fun _ _ _ _ _ => rfl, fun _ _ _ _ => rfl⟩

set_option maxRecDepth 16000 in
/-- Its run makes ordinary calls only. -/
theorem smallUnreliable_ordinary :
    Makes (system smallUnreliable) (fun o => ordinary o) (main {} [text "uImage-x", text "0"] 20)
      { mem := smallErased.mem, files := smallErased.files } := by
  have hall : (exec (system smallUnreliable) everyCall (main {} [text "uImage-x", text "0"] 20)
      { mem := smallErased.mem, files := smallErased.files }).calls.all ordinary = true := rfl
  exact List.all_eq_true.mp hall

/-- The flash of the small system after that. -/
def smallLeft : FlashMem :=
  (exec (system smallUnreliable) everyCall (main {} [text "uImage-x", text "0"] 20)
    { mem := smallErased.mem, files := smallErased.files }).state.mem

set_option maxRecDepth 16000 in
/-- The second run needs no external flasher. -/
theorem smallLeft_internal :
    Makes (system smallEnv) Internal (main {} [text "uImage-x", text "0"] 20)
      { mem := smallLeft, files := smallErased.files } := by
  have hall : (exec (system smallEnv) everyCall (main {} [text "uImage-x", text "0"] 20)
      { mem := smallLeft, files := smallErased.files }).calls.all
        (fun o => callKind o != .external) = true := rfl
  exact fun o ho => bne_iff_ne.mp (List.all_eq_true.mp hall o ho)

set_option maxRecDepth 16000 in
/-- It returns. -/
theorem smallLeft_ends : ∃ w', Ends (system smallEnv) (main {} [text "uImage-x", text "0"] 20)
    { mem := smallLeft, files := smallErased.files } (.ret ()) w' := ⟨_, rfl, rfl⟩

/-- Updating the small system after an attempt at which nothing could be
written. -/
theorem update_after_attempts_example :
    ∃ w', Attempted smallEnv {} [text "uImage-x", text "0"] smallErased.files smallErased.mem
        smallLeft ∧
      Ends (system smallEnv) (main {} [text "uImage-x", text "0"] 20)
        { mem := smallLeft, files := smallErased.files } (.ret ()) w' ∧
      w'.mem = updated smallEnv {} smallErased.files [⟨text "uImage-x", 0, none⟩] smallErased.mem ∧
      w'.files = smallErased.files := by
  have hattempts : Attempted smallEnv {} [text "uImage-x", text "0"] smallErased.files
      smallErased.mem smallLeft := .again .none smallUnreliable_unreliable smallUnreliable_ordinary
  obtain ⟨w', hrun⟩ := smallLeft_ends
  exact ⟨w', hattempts, hrun, @update_after_attempts smallEnv {} _ [text "uImage-x", text "0"] 20 _ _
    _ ⟨rfl, rfl, rfl, rfl⟩ smallEnv_works smallEnv_programs erased_and
    (fun l _ => smallEnv_geometry l.part) (smallEnv_marks _ _) (fun l _ => smallEnv_pages l.part)
    hattempts _ smallLeft_internal hrun⟩

end Attempts

end MetaDigi.FlashAttempts
