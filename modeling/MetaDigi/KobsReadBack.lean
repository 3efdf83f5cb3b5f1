import MetaDigi.KobsCommit

/-!
# What the verification of kobs-ng promises

With the option to verify, a non-negative result is to mean that every page
read back as it was written. This is followed through the history of a run. A
read-back that differs is silent when no erase and no write of the same call of
`mtd_commit_bcb` has failed before: only such a one goes unnoticed.
-/

namespace MetaDigi.KobsReadBack

open CStrings SystemProgram SystemHistories KobsCommit Prog

/-- A history of the tool. -/
abbrev Past := List (Event KobsOp KobsResp)

/-- The page that was written last. -/
def lastPage (past : Past) : Bytes :=
  past.foldl (fun buf e => match e.1 with
    | .mtdWritePage _ _ _ page => page
    | _ => buf) []

section Watching

variable (u : Upstream)

/-- A read-back that is not full or not equal to the page. -/
def BadAnswer (buf : Bytes) : Event KobsOp KobsResp → Prop
  | ⟨.pread _ _ _, back⟩ => ¬Found u buf back
  | _ => False

instance (buf : Bytes) (e : Event KobsOp KobsResp) : Decidable (BadAnswer u buf e) :=
  match e with
  | ⟨.pread _ _ _, back⟩ => inferInstanceAs (Decidable ¬Found u buf back)
  | ⟨.malloc _, _⟩ | ⟨.free, _⟩ | ⟨.mtdEraseBlock _ _, _⟩ | ⟨.mtdWritePage _ _ _ _, _⟩
  | ⟨.fread _, _⟩ | ⟨.fcbEncrypt _, _⟩ | ⟨.upstream _, _⟩ => .isFalse not_false

/-- `err` after one more event. -/
def countError (err : ℕ) : Event KobsOp KobsResp → ℕ
  | ⟨.malloc _, _⟩ => 0
  | ⟨.mtdEraseBlock _ _, r⟩ => if u.eraseFailed r then err + 1 else err
  | ⟨.mtdWritePage _ _ ecc _, r⟩ => if u.writeFailed ecc r then err + 1 else err
  | _ => err

/-- The erases and writes that have failed since the last `malloc`, with which
every call of `mtd_commit_bcb` begins. -/
def errors (past : Past) : ℕ := past.foldl (countError u) 0

/-- Some read-back failed or differed. -/
def Differs (past : Past) : Prop :=
  Occurs (fun before e => BadAnswer u (lastPage before) e) past

instance (past : Past) : Decidable (Differs u past) :=
  inferInstanceAs (Decidable (Occurs _ past))

/-- Some read-back failed or differed while `err` was zero. -/
def Silent (past : Past) : Prop :=
  Occurs (fun before e => BadAnswer u (lastPage before) e ∧ errors u before = 0) past

instance (past : Past) : Decidable (Silent u past) :=
  inferInstanceAs (Decidable (Occurs _ past))

/-- A page that has been written is read back at once, in full and equal. -/
def PageReadBack : Event KobsOp KobsResp → Past → Prop
  | ⟨.mtdWritePage chip ofs _ buf, _⟩, after =>
    ∃ back rest, after = ⟨.pread chip u.writesize ofs, back⟩ :: rest ∧ Found u buf back
  | _, _ => True

/-- Every page that was written has been read back in full and equal. -/
def ReadBack (past : Past) : Prop := Everywhere (PageReadBack u) past

/-- What has been read of the file is written to a page, which is read back at
once, in full and equal. -/
def DataReadBack : Event KobsOp KobsResp → Past → Prop
  | ⟨.fread _, _⟩, after =>
    ∃ chip ofs ecc buf r back rest,
      after = ⟨.mtdWritePage chip ofs ecc buf, r⟩ :: ⟨.pread chip u.writesize ofs, back⟩ :: rest ∧
        Found u buf back
  | _, _ => True

/-- Every page of the file has been written and read back in full and equal. -/
def StreamsReadBack (past : Past) : Prop := Everywhere (DataReadBack u) past

/-- Neither a page nor a read-back. -/
def Quiet : KobsOp → Prop
  | .mtdWritePage _ _ _ _ => False
  | .pread _ _ _ => False
  | _ => True

/-- Not a read-back. -/
def NoReadBack : KobsOp → Prop
  | .pread _ _ _ => False
  | _ => True

/-- No read-back has failed or differed in between. -/
structure Same (past past' : Past) : Prop where
  /-- None has differed. -/
  differs : Differs u past' ↔ Differs u past
  /-- None has been silent. -/
  silent : Silent u past' ↔ Silent u past

/-- Nothing has happened. -/
theorem Same.refl (past : Past) : Same u past past := ⟨.rfl, .rfl⟩

/-- One part after the other. -/
theorem Same.trans {u : Upstream} {past₁ past₂ past₃ : Past} (h : Same u past₁ past₂)
    (h' : Same u past₂ past₃) : Same u past₁ past₃ :=
  ⟨h'.differs.trans h.differs, h'.silent.trans h.silent⟩

/-- Every page that was written in between has been read back as it is. -/
structure Kept (past past' : Past) : Prop extends Same u past past' where
  /-- The pages have been read back. -/
  readBack : ReadBack u past → ReadBack u past'

/-- Nothing has happened. -/
theorem Kept.refl (past : Past) : Kept u past past := ⟨.refl u past, id⟩

/-- One part after the other. -/
theorem Kept.trans {u : Upstream} {past₁ past₂ past₃ : Past} (h : Kept u past₁ past₂)
    (h' : Kept u past₂ past₃) : Kept u past₁ past₃ :=
  ⟨h.toSame.trans h'.toSame, h'.readBack ∘ h.readBack⟩

/-- The last page that was written in between has not been read back as it is. -/
structure Hit (err : ℕ) (past past' : Past) : Prop where
  /-- The read-back differs. -/
  differs : Differs u past'
  /-- It is silent without an error. -/
  silent : Silent u past' ↔ Silent u past ∨ err = 0
  /-- The page is never read back. -/
  readBack : ∀ later, ¬ReadBack u (past' ++ later)

/-- Every page of the file in between has been read back as it is. -/
structure Streamed (past past' : Past) : Prop extends Same u past past' where
  /-- The pages have been read back. -/
  readBack : StreamsReadBack u past → StreamsReadBack u past'

end Watching

section Events

variable {u : Upstream} (past : Past) (e : Event KobsOp KobsResp)

/-- A call that writes a page makes it the last one. -/
theorem lastPage_snoc : lastPage (past ++ [e]) = match e.1 with
    | .mtdWritePage _ _ _ page => page
    | _ => lastPage past := by
  rw [lastPage, List.foldl_append]
  rfl

/-- The errors are counted call by call. -/
theorem errors_snoc : errors u (past ++ [e]) = countError u (errors u past) e := by
  rw [errors, List.foldl_append]
  rfl

/-- What a page needs is not changed by what comes later. -/
theorem pageReadBack_later (e : Event KobsOp KobsResp) (after later : Past)
    (h : PageReadBack u e after) : PageReadBack u e (after ++ later) := by
  obtain ⟨o, r⟩ := e
  cases o with
  | mtdWritePage chip ofs ecc buf =>
    obtain ⟨back, rest, hafter, hfound⟩ := h
    exact ⟨back, rest ++ later, hafter ▸ rfl, hfound⟩
  | _ => trivial

/-- What has been read back stays so. -/
theorem dataReadBack_later (e : Event KobsOp KobsResp) (after later : Past)
    (h : DataReadBack u e after) : DataReadBack u e (after ++ later) := by
  obtain ⟨o, r⟩ := e
  cases o with
  | fread chunk =>
    obtain ⟨chip, ofs, ecc, buf, r, back, rest, hafter, hfound⟩ := h
    exact ⟨chip, ofs, ecc, buf, r, back, rest ++ later, hafter ▸ rfl, hfound⟩
  | _ => trivial

/-- Only reading back can show a bad page. -/
theorem not_badAnswer {e : Event KobsOp KobsResp} (he : NoReadBack e.1) (buf : Bytes) :
    ¬BadAnswer u buf e := by
  obtain ⟨o, r⟩ := e
  cases o with
  | pread chip count ofs => exact absurd he id
  | _ => exact id

/-- Nothing is learned from other calls. -/
theorem same_append {es : Past} (hes : ∀ e ∈ es, NoReadBack e.1) : Same u past (past ++ es) :=
  ⟨occurs_append fun e he _ => not_badAnswer (hes e he) _,
    occurs_append fun e he _ h => not_badAnswer (hes e he) _ h.1⟩

/-- A call that is no part of reading back changes nothing here. -/
theorem same_snoc {e : Event KobsOp KobsResp} (he : NoReadBack e.1) :
    Same u past (past ++ [e]) :=
  same_append past fun _ hq => List.mem_singleton.mp hq ▸ he

/-- Quiet calls are no part of reading back. -/
theorem quiet_noReadBack {o : KobsOp} (ho : Quiet o) : NoReadBack o := by
  cases o with
  | pread chip count ofs => exact absurd ho id
  | _ => trivial

/-- A quiet call keeps what has been found. -/
theorem kept_snoc {e : Event KobsOp KobsResp} (he : Quiet e.1) : Kept u past (past ++ [e]) := by
  refine ⟨same_snoc past (quiet_noReadBack he), fun h => h.append ?_ pageReadBack_later⟩
  refine everywhere_cons ?_ everywhere_nil
  obtain ⟨o, r⟩ := e
  cases o with
  | mtdWritePage chip ofs ecc buf => exact absurd he id
  | _ => trivial

/-- A read-back of the page that has just been written. -/
theorem same_found {chip ofs : ℕ} {ecc : Bool} {buf : Bytes} {r : ℤ} {back : ℤ × Bytes}
    (hfound : Found u buf back) :
    Same u past ((past ++ [⟨.mtdWritePage chip ofs ecc buf, r⟩]) ++
      [⟨.pread chip u.writesize ofs, back⟩]) := by
  have hwrite : Same u past (past ++ [⟨.mtdWritePage chip ofs ecc buf, r⟩]) :=
    same_snoc past trivial
  refine hwrite.trans ⟨?_, ?_⟩
  · refine occurs_snoc.trans (or_iff_left fun hbad => ?_)
    rw [lastPage_snoc] at hbad
    exact hbad hfound
  · refine occurs_snoc.trans (or_iff_left fun hbad => ?_)
    rw [lastPage_snoc] at hbad
    exact hbad.1 hfound

/-- A page that is read back as it was written. -/
theorem kept_found {chip ofs : ℕ} {ecc : Bool} {buf : Bytes} {r : ℤ} {back : ℤ × Bytes}
    (hfound : Found u buf back) :
    Kept u past ((past ++ [⟨.mtdWritePage chip ofs ecc buf, r⟩]) ++
      [⟨.pread chip u.writesize ofs, back⟩]) := by
  refine ⟨same_found past hfound, fun h => ?_⟩
  rw [List.append_assoc]
  refine h.append (everywhere_cons ?_ (everywhere_cons trivial everywhere_nil)) pageReadBack_later
  exact ⟨back, [], rfl, hfound⟩

/-- A page that does not read back. -/
theorem hit_bad {chip ofs : ℕ} {ecc : Bool} {buf : Bytes} {r : ℤ} {back : ℤ × Bytes}
    (hbad : ¬Found u buf back) :
    Hit u (errors u (past ++ [⟨.mtdWritePage chip ofs ecc buf, r⟩])) past
      ((past ++ [⟨.mtdWritePage chip ofs ecc buf, r⟩]) ++
        [⟨.pread chip u.writesize ofs, back⟩]) := by
  have hwrite : Same u past (past ++ [⟨.mtdWritePage chip ofs ecc buf, r⟩]) :=
    same_snoc past trivial
  have hanswer : BadAnswer u (lastPage (past ++ [⟨.mtdWritePage chip ofs ecc buf, r⟩]))
      ⟨.pread chip u.writesize ofs, back⟩ := by
    rw [lastPage_snoc]
    exact hbad
  refine ⟨occurs_snoc.mpr (.inr hanswer), ?_, fun later h => ?_⟩
  · refine occurs_snoc.trans (or_congr hwrite.silent ?_)
    exact and_iff_right hanswer
  · obtain ⟨back', rest, hafter, hfound⟩ := h past ⟨.mtdWritePage chip ofs ecc buf, r⟩
      (⟨.pread chip u.writesize ofs, back⟩ :: later) (by
        rw [List.append_assoc, List.append_assoc]
        rfl)
    obtain ⟨hback, -⟩ := List.cons.inj hafter
    cases hback
    exact hbad hfound

/-- What happens after such a page. -/
theorem Kept.hit {err : ℕ} {past₁ past₂ past₃ : Past} (h : Kept u past₁ past₂)
    (h' : Hit u err past₂ past₃) : Hit u err past₁ past₃ :=
  ⟨h'.differs, h'.silent.trans (or_congr_left h.silent), h'.readBack⟩

/-- A bad page stays found. -/
theorem Hit.same {err : ℕ} {past₁ past₂ : Past} (h : Hit u err past₁ past₂)
    {e : Event KobsOp KobsResp} (he : NoReadBack e.1) : Hit u err past₁ (past₂ ++ [e]) := by
  have hsame : Same u past₂ (past₂ ++ [e]) := same_snoc past₂ he
  refine ⟨hsame.differs.mpr h.differs, hsame.silent.trans h.silent, fun later => ?_⟩
  rw [List.append_assoc]
  exact h.readBack _

/-- A call that has nothing to do with the file. -/
theorem streamed_snoc {e : Event KobsOp KobsResp} (he : NoReadBack e.1)
    (hfread : ∀ chunk, e.1 ≠ .fread chunk) : Streamed u past (past ++ [e]) := by
  refine ⟨same_snoc past he, fun h => h.append ?_ dataReadBack_later⟩
  refine everywhere_cons ?_ everywhere_nil
  obtain ⟨o, r⟩ := e
  cases o with
  | fread chunk => exact absurd rfl (hfread chunk)
  | _ => trivial

/-- A page of the file. -/
theorem streamed_found {chunk chip ofs : ℕ} {ecc : Bool} {got : ℤ × Bytes} {buf : Bytes} {r : ℤ}
    {back : ℤ × Bytes} (hfound : Found u buf back) :
    Streamed u past (((past ++ [⟨.fread chunk, got⟩]) ++ [⟨.mtdWritePage chip ofs ecc buf, r⟩]) ++
      [⟨.pread chip u.writesize ofs, back⟩]) := by
  have hfread : Same u past (past ++ [⟨.fread chunk, got⟩]) := same_snoc past trivial
  refine ⟨hfread.trans (same_found _ hfound), fun h => ?_⟩
  rw [List.append_assoc, List.append_assoc]
  refine h.append (everywhere_cons ?_ (everywhere_cons trivial (everywhere_cons trivial
    everywhere_nil))) dataReadBack_later
  exact ⟨chip, ofs, ecc, buf, r, back, [], rfl, hfound⟩

/-- One part of a stream after the other. -/
theorem Streamed.trans {past₁ past₂ past₃ : Past} (h : Streamed u past₁ past₂)
    (h' : Streamed u past₂ past₃) : Streamed u past₁ past₃ :=
  ⟨h.toSame.trans h'.toSame, h'.readBack ∘ h.readBack⟩

end Events

section Structures

variable {u : Upstream} {past past₁ past₂ : Past}

/-- The verification of a page. -/
theorem verifyPage_after (chip ofs : ℕ) (buf : Bytes) :
    After (fun past' out => ∃ back, past' = past ++ [⟨.pread chip u.writesize ofs, back⟩] ∧
      out = .ret (decide (Found u buf back))) (verifyPage u true chip ofs buf) past :=
  fun back => ⟨back, rfl, rfl⟩

/-- The loops of `mtd_commit_bcb` are left with the errors so far, at their end
or at the first page that does not read back. -/
def Looped (u : Upstream) (past past' : Past) : Outcome Empty ℕ → Prop
  | .ret err => errors u past' = err ∧ (Kept u past past' ∨ Hit u err past past')
  | .exit _ => True
  | .hang => Same u past past'

/-- A loop after a part that keeps what has been found. -/
theorem Looped.after {past' : Past} {out : Outcome Empty ℕ} (h : Kept u past₁ past₂)
    (h' : Looped u past₂ past' out) : Looped u past₁ past' out := by
  cases out with
  | ret err => exact ⟨h'.1, h'.2.imp h.trans h.hit⟩
  | exit e => trivial
  | hang => exact h.toSame.trans h'

/-- The loops over chips and strides. -/
theorem commitLoops_after (ecc : Bool) (buf : Bytes) (loops : Loops BcbPage Unit) {err : ℕ}
    (herr : errors u past = err) :
    After (Looped u past) (commitLoops u true ecc buf loops err) past := by
  induction loops generalizing past err with
  | ret a => exact ⟨herr, .inl (.refl u past)⟩
  | exit e => exact nomatch e
  | hang => exact .refl u past
  | call o next ih =>
    cases o with
    | eraseBlock chip ofs =>
      refine after_call fun r => (ih r ?_).mono fun _ _ => Looped.after (kept_snoc past trivial)
      rw [errors_snoc, herr]
      rfl
    | upstream n =>
      refine after_call fun r => (ih r ?_).mono fun _ _ => Looped.after (kept_snoc past trivial)
      rw [errors_snoc, herr]
      rfl
    | page p =>
      refine after_call fun r => After.andThen ((verifyPage_after p.chip p.o buf).mono ?_)
      rintro past' out ⟨back, hpast, hout⟩
      have hwrite : errors u (past ++ [⟨.mtdWritePage p.chip p.o ecc buf, r⟩]) =
          if u.writeFailed ecc r then err + 1 else err := by
        rw [errors_snoc, herr]
        rfl
      have hread : errors u past' = if u.writeFailed ecc r then err + 1 else err := by
        rw [hpast, errors_snoc, hwrite]
        rfl
      rw [hout, Sequel]
      by_cases hfound : Found u buf back
      · rw [if_pos (decide_eq_true hfound)]
        refine (ih r hread).mono fun _ _ => Looped.after ?_
        exact hpast ▸ kept_found past hfound
      · rw [if_neg fun h => hfound (of_decide_eq_true h)]
        exact after_pure ⟨hread, .inr (hwrite ▸ hpast ▸ hit_bad past hfound)⟩

/-- What comes of a call of `mtd_commit_bcb`. -/
def Committed (u : Upstream) (past past' : Past) : Outcome Empty ℤ → Prop
  | .ret r => (r = 0 ∨ r = -1) ∧
    (Kept u past past' ∨ ∃ err, (r = 0 ↔ err = 0) ∧ Hit u err past past')
  | .exit _ => True
  | .hang => Same u past past'

/-- `mtd_commit_bcb`. -/
theorem mtdCommitBcb_after (args : BcbArgs) (buf : Bytes) :
    After (Committed u past) (mtdCommitBcb u true args buf) past := by
  unfold mtdCommitBcb
  rw [if_pos rfl]
  refine after_call fun ok => ?_
  have hmalloc : Kept u past (past ++ [⟨.malloc u.writesize, ok⟩]) := kept_snoc past trivial
  cases ok with
  | false => exact after_pure ⟨.inr rfl, .inl hmalloc⟩
  | true =>
    rw [if_pos rfl]
    refine After.andThen ((commitLoops_after args.ecc buf (u.bcbLoops args) ?_).mono ?_)
    · rw [errors_snoc]
      rfl
    · intro past' out hout
      have hlooped := hout.after hmalloc
      cases out with
      | ret err =>
        refine after_call fun r => after_pure ⟨?_, ?_⟩
        · by_cases herr : err = 0
          · exact .inl (if_neg (not_not.mpr herr))
          · exact .inr (if_pos herr)
        · rcases hlooped.2 with hkept | hhit
          · exact .inl (hkept.trans (kept_snoc past' trivial))
          · refine .inr ⟨err, ?_, hhit.same trivial⟩
            by_cases herr : err = 0
            · exact ⟨fun _ => herr, fun _ => if_neg (not_not.mpr herr)⟩
            · rw [if_pos herr]
              exact ⟨fun h => absurd h (by decide), fun h => absurd h herr⟩
      | exit e => trivial
      | hang => exact hlooped

end Structures

section Streams

variable {u : Upstream} {past past₁ past₂ : Past}

/-- What comes of the pages of a boot stream. -/
def Paged (u : Upstream) (past past' : Past) : Outcome Empty (ℤ ⊕ (ℤ ⊕ StreamEnd)) → Prop
  | .ret (.inl r) => r < 0
  | .ret (.inr _) => Streamed u past past'
  | .exit _ => True
  | .hang => True

/-- Pages after a part of a stream. -/
theorem Paged.after {past' : Past} {out : Outcome Empty (ℤ ⊕ (ℤ ⊕ StreamEnd))}
    (h : Streamed u past₁ past₂) (h' : Paged u past₂ past' out) : Paged u past₁ past' out := by
  cases out with
  | ret result =>
    cases result with
    | inl r => exact h'
    | inr e => exact h.trans h'
  | exit e => trivial
  | hang => trivial

/-- The pages of a stream. -/
theorem streamPages_after (loops : Loops StreamPage (ℤ ⊕ StreamEnd)) :
    After (Paged u past) (streamPages u true loops) past := by
  induction loops generalizing past with
  | ret a => exact ⟨.refl u past, id⟩
  | exit e => exact nomatch e
  | hang => trivial
  | call o next ih =>
    cases o with
    | eraseBlock chip ofs =>
      exact after_call fun r => (ih r).mono fun _ _ =>
        Paged.after (streamed_snoc past trivial nofun)
    | upstream n =>
      exact after_call fun r => (ih r).mono fun _ _ =>
        Paged.after (streamed_snoc past trivial nofun)
    | page p =>
      refine after_call fun got => ?_
      by_cases hgot : got.1 < 0
      · rw [if_pos hgot]
        exact after_pure hgot
      · rw [if_neg hgot]
        refine after_call fun r => ?_
        by_cases hr : r ≠ u.writesize
        · rw [if_pos hr]
          exact after_pure (by decide : (-1 : ℤ) < 0)
        · rw [if_neg hr]
          refine After.andThen ((verifyPage_after p.chip p.ofs _).mono ?_)
          rintro past' out ⟨back, hpast, hout⟩
          rw [hout, Sequel]
          by_cases hfound : Found u (padded p.chunk got) back
          · rw [if_pos (decide_eq_true hfound)]
            refine (ih got.1).mono fun _ _ => Paged.after ?_
            exact hpast ▸ streamed_found past hfound
          · rw [if_neg fun h => hfound (of_decide_eq_true h)]
            exact after_pure (by decide : (-1 : ℤ) < 0)

/-- What comes of writing boot streams. -/
def Written (u : Upstream) (past past' : Past) : Outcome Empty ℤ → Prop
  | .ret r => 0 ≤ r → Streamed u past past'
  | .exit _ => True
  | .hang => True

/-- A stream after another. -/
theorem Written.after {past' : Past} {out : Outcome Empty ℤ} (h : Streamed u past₁ past₂)
    (h' : Written u past₂ past' out) : Written u past₁ past' out := by
  cases out with
  | ret r => exact fun hr => h.trans (h' hr)
  | exit e => trivial
  | hang => trivial

/-- A failure needs no reading back. -/
theorem written_failure {past' : Past} {r : ℤ} (hr : r < 0) : Written u past past' (.ret r) :=
  fun h => absurd h (Int.not_le.mpr hr)

/-- The streams one after the other. -/
theorem writeStreams_after (streams : List ℕ) (r : ℤ) :
    After (Written u past) (writeStreams u true streams r) past := by
  induction streams generalizing past r with
  | nil => exact fun _ => ⟨.refl u past, id⟩
  | cons i rest ih =>
    refine After.andThen ((streamPages_after (u.streamLoops i)).mono fun past' out hout => ?_)
    cases out with
    | exit e => trivial
    | hang => trivial
    | ret result =>
      rcases result with r | r | e
      · exact after_pure (written_failure hout)
      · exact (ih r).mono fun _ _ => Written.after hout
      · refine after_call fun r => ?_
        by_cases hr : r ≠ u.writesize
        · rw [if_pos hr]
          exact after_pure (written_failure (by decide))
        · rw [if_neg hr]
          by_cases hofs : e.ofs ≥ e.limit
          · rw [if_pos hofs]
            exact after_pure (written_failure (by decide))
          · rw [if_neg hofs]
            exact (ih r).mono fun _ _ =>
              Written.after (hout.trans (streamed_snoc past' trivial nofun))

/-- `write_boot_stream`. -/
theorem writeBootStream_after : After (Written u past) (writeBootStream u true) past := by
  unfold writeBootStream
  rw [if_pos rfl]
  refine after_call fun ok => ?_
  have hmalloc : Streamed u past (past ++ [⟨.malloc u.writesize, ok⟩]) :=
    streamed_snoc past trivial nofun
  cases ok with
  | false => exact after_pure (written_failure (by decide))
  | true =>
    rw [if_pos rfl]
    refine After.andThen ((writeStreams_after [0, 1] 0).mono fun past' out hout => ?_)
    cases out with
    | exit e => trivial
    | hang => trivial
    | ret r =>
      refine after_call fun _ => after_pure fun hr => ?_
      exact hmalloc.trans ((hout hr).trans (streamed_snoc past' trivial nofun))

end Streams

section Commits

variable {u : Upstream} {past : Past}

/-- Every read-back that differs is noticed, or silent. -/
def Agree (u : Upstream) (past : Past) : Prop := Differs u past ↔ Silent u past

/-- A part without reading back leaves this as it is. -/
theorem Same.agree {past' : Past} (h : Same u past past') (hagree : Agree u past) :
    Agree u past' :=
  h.differs.trans (hagree.trans h.silent.symm)

/-- A call of `mtd_commit_bcb` that returns zero. -/
theorem Committed.agree {past' : Past} {r : ℤ} (h : Committed u past past' (.ret r))
    (hr : ¬r < 0) (hagree : Agree u past) : Agree u past' := by
  have hzero : r = 0 := by
    rcases h.1 with hr' | hr'
    · exact hr'
    · omega
  rcases h.2 with hkept | ⟨err, herr, hhit⟩
  · exact hkept.toSame.agree hagree
  · exact ⟨fun _ => hhit.silent.mpr (.inr (herr.mp hzero)), fun _ => hhit.differs⟩

/-- A non-negative result of committing all structures. -/
def Trusted (u : Upstream) (past' : Past) : Outcome Empty ℤ → Prop
  | .ret r => 0 ≤ r → Agree u past'
  | .exit _ => True
  | .hang => True

/-- A failure claims nothing. -/
theorem trusted_failure {r : ℤ} (hr : r < 0) : Trusted u past (.ret r) :=
  fun h => absurd h (Int.not_le.mpr hr)

/-- The structures of a version, with its way out. -/
theorem commitStructures_after {leave : ℤ → ℤ} (hleave : ∀ r < 0, leave r < 0) (dbbt : Bytes)
    {table : Kobs (Option ℤ)} (htable : table.Sat NoReadBack (fun _ => True) (fun _ => True))
    (hagree : Agree u past) :
    After (Trusted u) (commitStructures u true leave dbbt table) past := by
  refine after_call fun fcb => ?_
  have hsame : Same u past (past ++ [⟨.fcbEncrypt (u.writesize + u.oobsize), fcb⟩]) :=
    same_snoc past trivial
  have hfcb := hsame.agree hagree
  by_cases hr : fcb.1 < 0
  · rw [if_pos hr]
    exact after_pure (trusted_failure (hleave _ hr))
  · rw [if_neg hr]
    refine After.andThen ((mtdCommitBcb_after (fcbArgs u) fcb.2).mono fun past₁ out₁ h₁ => ?_)
    cases out₁ with
    | exit e => trivial
    | hang => trivial
    | ret r₁ =>
      rw [Sequel]
      by_cases hr₁ : r₁ < 0
      · rw [if_pos hr₁]
        exact after_pure (trusted_failure (hleave _ hr₁))
      · rw [if_neg hr₁]
        have hagree₁ := h₁.agree hr₁ hfcb
        refine After.andThen ((mtdCommitBcb_after (dbbtArgs u) _).mono fun past₂ out₂ h₂ => ?_)
        cases out₂ with
        | exit e => trivial
        | hang => trivial
        | ret r₂ =>
          rw [Sequel]
          by_cases hr₂ : r₂ < 0
          · rw [if_pos hr₂]
            exact after_pure (trusted_failure (by decide))
          · rw [if_neg hr₂]
            have hagree₂ := h₂.agree hr₂ hagree₁
            refine After.andThen (after_of_sat htable ?_ ?_ ?_)
            · intro es hes a _
              have hagree₃ := (same_append past₂ hes).agree hagree₂
              cases a with
              | some r =>
                have htrusted : Trusted u (past₂ ++ es) (.ret r) := fun _ => hagree₃
                exact after_pure htrusted
              | none =>
                refine writeBootStream_after.mono fun past₄ out₄ h₄ => ?_
                cases out₄ with
                | exit e => trivial
                | hang => trivial
                | ret r => exact fun hr => (h₄ hr).toSame.agree hagree₃
            · exact fun _ _ _ _ => trivial
            · exact fun _ _ => trivial

end Commits

/-- The calls of a run of the tool with their answers. -/
abbrev ran {σ α : Type} (h : Handler KobsOp KobsResp σ) (p : Kobs α) (s : σ) : Past :=
  history h p s

/-- How a run of the tool ends. -/
abbrev result {σ α : Type} (h : Handler KobsOp KobsResp σ) (p : Kobs α) (s : σ) :
    Outcome Empty α :=
  (exec h everyCall p s).outcome

section Runs

variable {σ : Type} (u : Upstream) (h : Handler KobsOp KobsResp σ) (s : σ)

/-- `mtd_commit_bcb` returns zero only after reading every page back, exactly
when no read-back is silent. -/
theorem mtdCommitBcb_readBack_iff (args : BcbArgs) (buf : Bytes) :
    (result h (mtdCommitBcb u true args buf) s = .ret 0 →
        ReadBack u (ran h (mtdCommitBcb u true args buf) s)) ↔
      ¬Silent u (ran h (mtdCommitBcb u true args buf) s) := by
  have hcommitted : Committed u [] (ran h (mtdCommitBcb u true args buf) s)
      (result h (mtdCommitBcb u true args buf) s) :=
    (mtdCommitBcb_after args buf).run h s
  have hfirst : ¬Silent u [] := not_occurs_nil
  cases hout : result h (mtdCommitBcb u true args buf) s with
  | exit e => exact nomatch e
  | hang =>
    rw [hout] at hcommitted
    exact ⟨fun _ => (not_congr hcommitted.silent).mpr hfirst, fun _ => nofun⟩
  | ret r =>
    rw [hout] at hcommitted
    rcases hcommitted.2 with hkept | ⟨err, herr, hhit⟩
    · exact ⟨fun _ => (not_congr hkept.silent).mpr hfirst, fun _ _ =>
        hkept.readBack everywhere_nil⟩
    · have hnever : ¬ReadBack u (ran h (mtdCommitBcb u true args buf) s) := by
        have hlast := hhit.readBack []
        rwa [List.append_nil] at hlast
      constructor
      · intro hread hsilent
        rcases hhit.silent.mp hsilent with hbefore | hzero
        · exact hfirst hbefore
        · exact hnever (hread (congrArg Outcome.ret (herr.mpr hzero)))
      · intro hloud hret
        have hzero : err = 0 := herr.mp (Outcome.ret.inj hret)
        exact absurd (hhit.silent.mpr (.inr hzero)) hloud

/-- A non-negative result of `write_boot_stream` means that every page of the
file was read back. -/
theorem writeBootStream_readBack {r : ℤ} (hret : result h (writeBootStream u true) s = .ret r)
    (hr : 0 ≤ r) : StreamsReadBack u (ran h (writeBootStream u true) s) := by
  have hwritten : Written u [] (ran h (writeBootStream u true) s)
      (result h (writeBootStream u true) s) := writeBootStream_after.run h s
  rw [hret] at hwritten
  exact (hwritten hr).readBack everywhere_nil

/-- Committing all structures with a non-negative result. -/
theorem commitStructures_agree {leave : ℤ → ℤ} (hleave : ∀ r < 0, leave r < 0) {dbbt : Bytes}
    {table : Kobs (Option ℤ)} (htable : table.Sat NoReadBack (fun _ => True) (fun _ => True))
    {r : ℤ} (hret : result h (commitStructures u true leave dbbt table) s = .ret r) (hr : 0 ≤ r) :
    Agree u (ran h (commitStructures u true leave dbbt table) s) := by
  have hfirst : Agree u [] := iff_of_false not_occurs_nil not_occurs_nil
  have htrusted : Trusted u (ran h (commitStructures u true leave dbbt table) s)
      (result h (commitStructures u true leave dbbt table) s) :=
    (commitStructures_after hleave dbbt htable hfirst).run h s
  rw [hret] at htrusted
  exact htrusted hr

end Runs

/-- With the option to verify, a mismatch is hidden exactly by a silent
read-back: `mtd_commit_bcb` returns zero only after reading back all pages when
there is none, `write_boot_stream` never hides one, and the functions that
commit all structures have a non-negative result only without any mismatch when
none was silent. -/
theorem verified_commits {σ : Type} (u : Upstream) (h : Handler KobsOp KobsResp σ) (s : σ)
    (hdbbt : u.writeDbbt.Sat NoReadBack (fun _ => True) (fun _ => True))
    (htable : u.tableArea.Sat NoReadBack (fun _ => True) (fun _ => True)) :
    (∀ args buf, (result h (mtdCommitBcb u true args buf) s = .ret 0 →
        ReadBack u (ran h (mtdCommitBcb u true args buf) s)) ↔
      ¬Silent u (ran h (mtdCommitBcb u true args buf) s)) ∧
    (∀ r, result h (writeBootStream u true) s = .ret r → 0 ≤ r →
      StreamsReadBack u (ran h (writeBootStream u true) s)) ∧
    (∀ r, result h (v1RomMtdCommitStructures u true) s = .ret r → 0 ≤ r →
      (¬Differs u (ran h (v1RomMtdCommitStructures u true) s) ↔
        ¬Silent u (ran h (v1RomMtdCommitStructures u true) s))) ∧
    (∀ r, result h (v4RomMtdCommitStructures u true) s = .ret r → 0 ≤ r →
      (¬Differs u (ran h (v4RomMtdCommitStructures u true) s) ↔
        ¬Silent u (ran h (v4RomMtdCommitStructures u true) s))) := by
  refine ⟨mtdCommitBcb_readBack_iff u h s, fun r => writeBootStream_readBack u h s,
    fun r hret hr => not_congr ?_, fun r hret hr => not_congr ?_⟩
  · have hone : (u.writeDbbt >>= fun _ => (return none : Kobs (Option ℤ))).Sat NoReadBack
        (fun _ => True) (fun _ => True) := hdbbt.andThen fun _ _ => trivial
    exact commitStructures_agree u h s (fun _ _ => by decide) hone hret hr
  · exact commitStructures_agree u h s (fun _ hr => hr) htable hret hr

/-- Every boot structure and every boot stream has a single page of one byte. -/
def onePage : Upstream where
  writesize := 1
  oobsize := 0
  bcbLoops _ := .call (.page { chip := 0, o := 0 }) fun _ => .ret ()
  eraseFailed r := decide (r < 0)
  writeFailed _ r := decide (r ≠ 1)
  streamLoops _ := .call (.page { chip := 0, ofs := 0, chunk := 1 }) fun _ => .ret (.inl 0)
  writeDbbt := return ()
  tableArea := return none
  dbbt28 := [40]
  dbbt50 := [50]

/-- A flash memory of one page; a bit of it may be stuck. -/
def oneFlash (stuck : UInt8) : Handler KobsOp KobsResp Bytes
  | .malloc _, page => (true, page)
  | .free, page => ((), page)
  | .mtdEraseBlock _ _, _ => (0, [])
  | .mtdWritePage _ _ _ buf, _ => (1, buf.map (· ||| stuck))
  | .pread _ _ _, page => ((1, page), page)
  | .fread _, page => ((1, [7]), page)
  | .fcbEncrypt _, page => ((0, [16]), page)
  | .upstream _, page => (0, page)

/-- What is committed to a flash memory without a stuck bit reads back, and so
does a boot stream that has the stuck bit set anyway. -/
theorem verified_commits_onePage :
    result (oneFlash 0) (mtdCommitBcb onePage true (fcbArgs onePage) [16]) [] = .ret 0 ∧
      ReadBack onePage (ran (oneFlash 0) (mtdCommitBcb onePage true (fcbArgs onePage) [16]) []) ∧
    StreamsReadBack onePage (ran (oneFlash 1) (writeBootStream onePage true) []) ∧
    ¬Differs onePage (ran (oneFlash 0) (v1RomMtdCommitStructures onePage true) []) ∧
    ¬Differs onePage (ran (oneFlash 0) (v4RomMtdCommitStructures onePage true) []) := by
  obtain ⟨hbcb, -, hone, hfour⟩ := verified_commits onePage (oneFlash 0) [] trivial trivial
  have hstream := (verified_commits onePage (oneFlash 1) [] trivial trivial).2.1
  refine ⟨rfl, (hbcb (fcbArgs onePage) [16]).mpr (by decide) rfl,
    hstream 0 rfl (Int.le_refl 0), ?_, ?_⟩
  · exact (hone 0 rfl (Int.le_refl 0)).mpr (by decide)
  · exact (hfour 0 rfl (Int.le_refl 0)).mpr (by decide)

/-- The boot structures do not read back there, and still the result is zero. -/
theorem stuck_commits :
    result (oneFlash 1) (mtdCommitBcb onePage true (fcbArgs onePage) [16]) [] = .ret 0 ∧
      ¬ReadBack onePage (ran (oneFlash 1) (mtdCommitBcb onePage true (fcbArgs onePage) [16]) []) ∧
    result (oneFlash 1) (v1RomMtdCommitStructures onePage true) [] = .ret 0 ∧
      Differs onePage (ran (oneFlash 1) (v1RomMtdCommitStructures onePage true) []) ∧
    result (oneFlash 1) (v4RomMtdCommitStructures onePage true) [] = .ret 0 ∧
      Differs onePage (ran (oneFlash 1) (v4RomMtdCommitStructures onePage true) []) := by
  have hbad : ¬Found onePage [16] (1, [17]) := by decide
  refine ⟨rfl, fun hread => ?_, rfl, ?_, rfl, ?_⟩
  · obtain ⟨back, rest, hafter, -, hback⟩ := hread [⟨.malloc 1, true⟩]
      ⟨.mtdWritePage 0 0 false [16], (1 : ℤ)⟩ _ rfl
    cases hafter
    exact absurd hback (by decide)
  · exact ⟨[⟨.fcbEncrypt 1, (0, [16])⟩, ⟨.malloc 1, true⟩,
      ⟨.mtdWritePage 0 0 false [16], (1 : ℤ)⟩], ⟨.pread 0 1 0, (1, [17])⟩, _, rfl, hbad⟩
  · exact ⟨[⟨.fcbEncrypt 1, (0, [16])⟩, ⟨.malloc 1, true⟩,
      ⟨.mtdWritePage 0 0 false [16], (1 : ℤ)⟩], ⟨.pread 0 1 0, (1, [17])⟩, _, rfl, hbad⟩

end MetaDigi.KobsReadBack
