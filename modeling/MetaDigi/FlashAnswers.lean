import MetaDigi.FlashVerifying
import MetaDigi.FlashImages

/-!
# The exact answer of a comparison

On a system where no call fails and nobody else changes files, `MtdPartVerify`
always comes to an answer. It is compared with what an exact answer would be:
the file has the size that was noted, fits, and is what the good pages begin
with. The two differ for one kind of file only, which has grown beyond a
partition that its front fills to the last byte.
-/

namespace MetaDigi.FlashAnswers

open CStrings SystemProgram SystemRuns FlashTypes FlashInit FlashTransfer FlashWorld BlockLayout
open FlashDevice FlashChecksum FlashImages FlashRecords FlashVerifying Prog

/-- A first part that returns, before something that does. -/
theorem returns_andThen {σ α β : Type} {h : Handler Op Resp σ} {p : Flash α} {f : α → Flash β}
    {s s₁ : σ} {a : α} {R : β → σ → Prop} (hp : Ends h p s (.ret a) s₁)
    (hf : ∃ b s₂, Ends h (f a) s₁ (.ret b) s₂ ∧ R b s₂) :
    ∃ b s₂, Ends h (p >>= f) s (.ret b) s₂ ∧ R b s₂ := by
  obtain ⟨b, s₂, hrest, hR⟩ := hf
  exact ⟨b, s₂, hp.andThen hrest, hR⟩

/-- A first part that returns in some way, before something that always does. -/
theorem returns_seq {σ α β : Type} {h : Handler Op Resp σ} {p : Flash α} {f : α → Flash β}
    {s : σ} {R : β → σ → Prop} (hp : ∃ a s₁, Ends h p s (.ret a) s₁)
    (hf : ∀ a s₁, ∃ b s₂, Ends h (f a) s₁ (.ret b) s₂ ∧ R b s₂) :
    ∃ b s₂, Ends h (p >>= f) s (.ret b) s₂ ∧ R b s₂ := by
  obtain ⟨a, s₁, hfirst⟩ := hp
  exact returns_andThen hfirst (hf a s₁)

section Returns

variable {env : Env} {pMtd : MtdPartition} {g : Globals} {path : Path}

/-- What the loop of `MtdPartVerify` needs to go on: it is at the start of a
page, and the file is open. -/
def AtPage (env : Env) (pMtd : MtdPartition) (path : Path) (st : VerifyState) (w : World) : Prop :=
  ∃ i < pageCount env pMtd.uiPartition, st.iOffsMtd = i * pMtd.iPageSize ∧
    ∃ pos, w.src = some (path, pos)

/-- The number of pages that are left. -/
def pagesLeft (env : Env) (pMtd : MtdPartition) (st : VerifyState) : ℕ :=
  pageCount env pMtd.uiPartition - st.iOffsMtd / pMtd.iPageSize

variable (hg : Geometry env pMtd.uiPartition) (hd : Describes env pMtd) (hworks : Works env)

include hg hd in
/-- The end of a pass. -/
theorem AtPage.step {st st' : VerifyState} {w w' : World} (h : AtPage env pMtd path st w)
    (hoffset : st'.iOffsMtd = st.iOffsMtd) (hsrc : ∃ pos, w'.src = some (path, pos)) :
    Sum.elim (fun next => AtPage env pMtd path next w' ∧ pagesLeft env pMtd next < pagesLeft env pMtd st)
      (fun _ => True) (st'.step pMtd) := by
  obtain ⟨i, hi, hi', -⟩ := h
  have hpos := hd.page_pos hg
  have hsize := hd.size_eq hg
  have hnext : st.iOffsMtd + pMtd.iPageSize = (i + 1) * pMtd.iPageSize := by
    rw [hi', Nat.succ_mul]
  unfold VerifyState.step
  dsimp only
  rw [hoffset, hnext, hsize]
  split
  · rename_i hinside
    refine ⟨⟨i + 1, Nat.lt_of_mul_lt_mul_right hinside, rfl, hsrc⟩, ?_⟩
    unfold pagesLeft
    dsimp only
    rw [hi', Nat.mul_div_cancel _ hpos, Nat.mul_div_cancel _ hpos]
    omega
  · trivial

include hworks

/-- A page can be read. -/
theorem readPage_ends (iOffsMtd : ℕ) (w : World) :
    ∃ bytes, Ends (system env) (readPage g pMtd iOffsMtd) w (.ret bytes)
      { w with time := w.time + 1 } := by
  have hcall := ends_perform (E := ExitReason) (h := system env)
    (.pread pMtd.uiPartition pMtd.iPageSize iOffsMtd) w
  rw [system_works hworks] at hcall
  have hattempts : Ends (system env) (readAttempts g pMtd iOffsMtd cMaxRetries) w
      (.ret (some (readMem w.mem (env.info pMtd.uiPartition).size pMtd.uiPartition iOffsMtd
        pMtd.iPageSize))) { w with time := w.time + 1 } :=
    Ends.andThen hcall (ends_pure _ _)
  exact ⟨_, Ends.andThen hattempts (ends_pure _ _)⟩

include hg hd

/-- A pass of the loop of `MtdPartVerify` returns. -/
theorem verifyPass_returns (st : VerifyState) (w : World) (h : AtPage env pMtd path st w) :
    ∃ step w', Ends (system env) (verifyPass g pMtd st) w (.ret step) w' ∧
      Sum.elim (fun next => AtPage env pMtd path next w' ∧
        pagesLeft env pMtd next < pagesLeft env pMtd st) (fun _ => True) step := by
  obtain ⟨i, hi, hi', pos, hsrc⟩ := h
  have hinside : st.iOffsMtd < (env.info pMtd.uiPartition).size := by
    rw [hi', hd.page, ← hg.pages_mul]
    exact Nat.mul_lt_mul_of_pos_right hi hg.page_pos
  have hask := mtdPartIsBadBlock_ends hworks pMtd w st.iOffsMtd hinside
  cases hbad : env.badAt pMtd.uiPartition st.iOffsMtd with
  | true =>
    rw [hbad] at hask
    exact ⟨_, _, Ends.andThen hask (ends_pure _ _),
      AtPage.step hg hd ⟨i, hi, hi', pos, hsrc⟩ rfl ⟨pos, hsrc⟩⟩
  | false =>
    rw [hbad] at hask
    obtain ⟨bytesSrc, -, hread⟩ := readSrc_ends hworks .mtdPartVerify pMtd.iPageSize
      (w := { w with time := w.time + 1 }) hsrc
    unfold verifyPass
    refine returns_andThen hask ?_
    rw [if_neg Bool.false_ne_true]
    refine returns_andThen hread ?_
    split
    · exact ⟨_, _, ends_pure _ _, trivial⟩
    · obtain ⟨bytesMtd, hpage⟩ :
          ∃ bytes, Ends (system env) (readPage g pMtd st.iOffsMtd) _ (.ret bytes) _ :=
        readPage_ends hworks st.iOffsMtd _
      refine returns_andThen hpage ?_
      dsimp only
      split
      · exact ⟨_, _, ends_pure _ _, trivial⟩
      · split
        · have hdump := fun buffer a b => ends_perform (E := ExitReason) (h := system env)
            (.memDump buffer a b)
          refine returns_andThen (hdump _ _ _ _) (returns_andThen (hdump _ _ _ _) ?_)
          exact ⟨_, _, ends_pure _ _, trivial⟩
        · split
          · exact ⟨_, _, ends_pure _ _, AtPage.step hg hd ⟨i, hi, hi', pos, hsrc⟩ rfl ⟨_, rfl⟩⟩
          · exact ⟨_, _, ends_pure _ _, trivial⟩

omit hg hd hworks

/-- The comparison returns. -/
theorem comparePart_returns (hg : Geometry env pMtd.uiPartition) (hd : Describes env pMtd)
    (hworks : Works env) {w : World} (hfile : w.files pMtd.szOrigImageFileName ≠ none)
    (hfuel : pageCount env pMtd.uiPartition < g.fuel) :
    ∃ r w', Ends (system env) (comparePart g pMtd) w (.ret r) w' ∧ True := by
  have hdq : Describes env (reopened g pMtd) := ⟨hd.info, hd.nand, hd.page⟩
  have hgq : Geometry env (reopened g pMtd).uiPartition := hg
  have hloop : ∀ (st : VerifyState) (v : World), st.iOffsMtd = 0 →
      v.src = some (pMtd.szOrigImageFileName, 0) →
      ∃ compared v', Ends (system env) (Prog.loop (verifyPass g (reopened g pMtd)) g.fuel st) v
        (.ret compared) v' := by
    intro st v hoffset hsrc
    have hstart : AtPage env (reopened g pMtd) pMtd.szOrigImageFileName st v :=
      ⟨0, hg.pageCount_pos, hoffset.trans (Nat.zero_mul _).symm, 0, hsrc⟩
    have hleft : pagesLeft env (reopened g pMtd) st < g.fuel :=
      Nat.lt_of_le_of_lt (Nat.sub_le _ _) hfuel
    exact Ends.loop_returns (fun st v => verifyPass_returns hgq hdq hworks st v) hleft hstart
  refine returns_andThen (malloc_ends hworks w _ _) (returns_andThen (malloc_ends hworks _ _ _) ?_)
  refine returns_andThen (mtdPartClose_ends hworks pMtd _) ?_
  refine returns_andThen (mtdPartOpen_ends hworks _ _ g true rfl) ?_
  refine returns_andThen (openSrc_ends hworks _ .mtdPartVerify hfile) ?_
  refine returns_seq (hloop _ _ rfl rfl) fun compared v => ?_
  exact returns_andThen (closeSrc_ends hworks v _) ⟨_, _, ends_pure _ _, trivial⟩

end Returns

/-- What an exact comparison answers: the file has the size that was noted, it
fits, and the good pages begin with it, up to the end of the last page. -/
def Agrees (env : Env) (pMtd : MtdPartition) (content : Bytes) (mem : FlashMem) : Prop :=
  content.length = pMtd.iFileSize ∧ content.length ≤ goodBytes env pMtd.uiPartition ∧
    Holds env pMtd.uiPartition pMtd.cIsJFFS2 content mem

/-- The file has grown beyond the size that was noted, which is all that the
good pages have, and they are filled with its front. -/
def Outgrown (env : Env) (pMtd : MtdPartition) (content : Bytes) (mem : FlashMem) : Prop :=
  pMtd.iFileSize = goodBytes env pMtd.uiPartition ∧ pMtd.iFileSize < content.length ∧
    image env pMtd.uiPartition mem = content.take pMtd.iFileSize

section Exact

variable {env : Env} {pMtd : MtdPartition} {path : Path} {content : Bytes} {mem : FlashMem}
  {files : Files} {compared : Option ℕ} {w : World}

/-- The loop has compared as many bytes as were noted, in an agreement. -/
theorem answer_iff (hg : Geometry env pMtd.uiPartition) (hstill : Still env)
    (hfile : files path = some content)
    (h : Answer env pMtd path content.length mem files compared w) :
    compared = some pMtd.iFileSize ↔ Agrees env pMtd content mem ∨ Outgrown env pMtd content mem := by
  have hexact := h.exact hstill
  have hlength := hg.length_image mem
  rw [hfile, Option.getD_some] at hexact
  unfold Agrees Outgrown
  constructor
  · intro hsome
    have htotal := h.total _ hsome
    rw [hsome] at hexact
    obtain ⟨hbegins, herased⟩ := hexact.mp rfl
    rcases Nat.lt_or_ge (goodBytes env pMtd.uiPartition) content.length with hlong | hfits
    · rw [List.take_of_length_le (by omega)] at hbegins
      have hsize : pMtd.iFileSize = goodBytes env pMtd.uiPartition := by omega
      exact .inr ⟨hsize, by omega, by rw [hsize, hbegins]⟩
    · rw [List.take_of_length_le hfits] at hbegins
      exact .inl ⟨by omega, hfits, hbegins, herased⟩
  · intro hcases
    have hsome : compared.isSome = true := by
      rw [hexact]
      rcases hcases with ⟨hsize, hfits, hholds⟩ | ⟨hsize, hlong, hfilled⟩
      · rw [List.take_of_length_le hfits]
        exact ⟨hholds.begins, hholds.erased⟩
      · rw [List.take_of_length_le (by omega), hfilled, hsize]
        refine ⟨rfl, .inr fun b hb => absurd hb ?_⟩
        rw [List.drop_eq_nil_of_le
          (by rw [List.length_take, List.length_take]; omega)]
        exact List.not_mem_nil
    obtain ⟨total, htotal⟩ := Option.isSome_iff_exists.mp hsome
    have hcount := h.total total htotal
    rw [htotal]
    congr 1
    rcases hcases with ⟨hsize, hfits, -⟩ | ⟨hsize, hlong, -⟩
    · omega
    · omega

end Exact

/-- `MtdPartVerify` always answers, and its answer is exact unless the file
has outgrown the partition. -/
theorem mtdPartVerify_exact_iff {env : Env} {g : Globals} {pMtd : MtdPartition} {w : World}
    {content : Bytes} (hg : Geometry env pMtd.uiPartition) (hd : Describes env pMtd)
    (hworks : Works env) (hfile : w.files pMtd.szOrigImageFileName = some content)
    (hfuel : pageCount env pMtd.uiPartition < g.fuel) :
    ∃ cRes q w', Ends (system env) (mtdPartVerify g pMtd) w (.ret (cRes, q)) w' ∧
      ((cRes = true ↔ Agrees env pMtd content w.mem) ↔ ¬ Outgrown env pMtd content w.mem) := by
  have hstill : Still env := hworks.interfere
  have hexists : w.files pMtd.szOrigImageFileName ≠ none := by
    rw [hfile]
    exact Option.some_ne_none _
  obtain ⟨⟨cRes, q⟩, w₁, hcompare, -⟩ := comparePart_returns hg hd hworks hexists hfuel
  obtain ⟨-, len, compared, hcRes, hlen, hanswer⟩ :=
    comparePart_answer hg hd (hstill.sized _) hcompare
  rw [hfile] at hlen
  rw [← Option.some.inj hlen] at hanswer
  have hiff := answer_iff hg hstill hfile hanswer
  refine ⟨cRes, q, _, hcompare.andThen (Ends.andThen (ends_perform _ _) (ends_pure _ _)), ?_⟩
  have hexclusive : Outgrown env pMtd content w.mem → ¬ Agrees env pMtd content w.mem :=
    fun hgrown hagrees => absurd hagrees.1 (Nat.ne_of_gt hgrown.2.1)
  rw [hcRes, beq_iff_eq, hiff]
  constructor
  · intro hsame hgrown
    exact hexclusive hgrown (hsame.mp (.inr hgrown))
  · intro hfine
    exact or_iff_left hfine

/-- A record whose image is as long as the good blocks of the partition. -/
def fullPart : MtdPartition := smallKernel 48

/-- The small system with cleared flash and a file of so many zeros. -/
def zeroFile (count : ℕ) : World := smallWorld [(text "uImage-x", List.replicate count 0)]

set_option maxRecDepth 8000 in
/-- One byte too many in the file goes unnoticed: the answer is that they
agree. -/
theorem mtdPartVerify_outgrown :
    ∃ q w', Ends (system smallEnv) (mtdPartVerify { fuel := 20 } fullPart) (zeroFile 49)
        (.ret (true, q)) w' ∧
      ¬ Agrees smallEnv fullPart (List.replicate 49 0) (zeroFile 49).mem :=
  ⟨_, _, ⟨rfl, rfl⟩, fun hagrees => absurd hagrees.1 (by decide)⟩

/-- A file that fills the good blocks and no more. -/
theorem mtdPartVerify_exact_full :
    ∃ cRes q w', Ends (system smallEnv) (mtdPartVerify { fuel := 20 } fullPart) (zeroFile 48)
        (.ret (cRes, q)) w' ∧
      ((cRes = true ↔ Agrees smallEnv fullPart (List.replicate 48 0) (zeroFile 48).mem) ↔
        ¬ Outgrown smallEnv fullPart (List.replicate 48 0) (zeroFile 48).mem) :=
  mtdPartVerify_exact_iff (smallEnv_geometry 0) ⟨rfl, rfl, rfl⟩ smallEnv_works rfl (by decide)

end MetaDigi.FlashAnswers
