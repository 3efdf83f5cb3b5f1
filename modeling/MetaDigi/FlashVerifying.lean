import MetaDigi.FlashChecksum
import MetaDigi.FlashRecords

/-!
# Comparing a partition with a file

`MtdPartVerify` goes over the good pages and reads the next piece of the file
for each of them. When it answers that they agree, the flash holds what has
been read, whatever other processes have done to the file short of changing
its length. When the file is left alone, the answer is exact.
-/

namespace MetaDigi.FlashVerifying

open CStrings SystemProgram SystemRuns FlashTypes FlashInit FlashTransfer FlashWorld FlashEffects
open BlockLayout FlashDevice FlashWriting FlashChecksum FlashRecords Prog

/-- Two buffers do not differ in their first bytes. -/
theorem memCmp_none_iff (pvS1 pvS2 : Bytes) (iSize : ℕ) :
    memCmp pvS1 pvS2 iSize = none ↔ pvS2.take iSize = pvS1.take iSize := by
  unfold memCmp
  rw [List.find?_eq_none]
  constructor
  · intro hsame
    refine List.ext_getElem? fun i => ?_
    rcases Nat.lt_or_ge i iSize with hlt | hge
    · have hbyte := hsame i (List.mem_range.mpr hlt)
      rw [List.getElem?_take_of_lt hlt, List.getElem?_take_of_lt hlt]
      exact not_not.mp fun hne => hbyte (bne_iff_ne.mpr hne)
    · rw [List.getElem?_eq_none (by rw [List.length_take]; omega),
        List.getElem?_eq_none (by rw [List.length_take]; omega)]
  · intro htake i hi hne
    have hlt := List.mem_range.mp hi
    have hbyte := congrArg (fun l => l[i]?) htake
    rw [List.getElem?_take_of_lt hlt, List.getElem?_take_of_lt hlt] at hbyte
    exact bne_iff_ne.mp hne hbyte

/-- The bytes at the front of a buffer. -/
theorem take_fillBuffer {buffer bytes : Bytes} {n : ℕ} (h : n ≤ bytes.length) :
    (fillBuffer buffer bytes).take n = bytes.take n :=
  List.take_append_of_le_length h

section Passive

variable (env : Env) (path : Path)

/-- A later state, in which at most the contents of the files differ. -/
structure Later (w w' : World) : Prop where
  /-- The flash is the same. -/
  mem : w'.mem = w.mem
  /-- The same file is being read at the same place. -/
  src : w'.src = w.src
  /-- Nothing more has been read. -/
  lastRead : w'.lastRead = w.lastRead
  /-- The file has the same length. -/
  length : (w'.files path).map List.length = (w.files path).map List.length
  /-- The files are the same when nobody else changes them. -/
  files : Still env → w'.files = w.files

variable {env path}

theorem Later.refl (w : World) : Later env path w w := ⟨rfl, rfl, rfl, rfl, fun _ => rfl⟩

theorem Later.trans {w₁ w₂ w₃ : World} (h : Later env path w₁ w₂) (h' : Later env path w₂ w₃) :
    Later env path w₁ w₃ :=
  ⟨h'.mem.trans h.mem, h'.src.trans h.src, h'.lastRead.trans h.lastRead,
    h'.length.trans h.length, fun hstill => (h'.files hstill).trans (h.files hstill)⟩

/-- Other processes have their turn. -/
theorem later_enter (hsized : Sized env path) (w : World) : Later env path w (w.enter env) :=
  ⟨rfl, rfl, rfl, hsized _ _, fun hstill => hstill _ _⟩

/-- A call that changes nothing. -/
def Passive (env : Env) (o : Op) : Prop := ∀ failed w, (respond env failed o w).2 = w

/-- A program of calls that change nothing. -/
theorem later_of_passive {α : Type} {p : Flash α} {w w' : World} {o : Outcome ExitReason α}
    {X : ExitReason → Prop} {R : α → Prop} (hsized : Sized env path)
    (hrun : Ends (system env) p w o w') (hp : p.Sat (Passive env) X R) : Later env path w w' :=
  hrun.keeps (I := Later env path w) hp
    (fun q t hq ht => by
      have hsame : (system env q t).2 = t.enter env := hq _ _
      rw [hsame]
      exact ht.trans (later_enter hsized t)) (.refl w)

/-- The attempts to read a page change nothing. -/
theorem readAttempts_passive (g : Globals) (pMtd : MtdPartition) (iOffsMtd left : ℕ) :
    (readAttempts g pMtd iOffsMtd left).Sat (Passive env) AnyReason AnyResult := by
  induction left with
  | zero => trivial
  | succ left ih =>
    unfold readAttempts
    refine sat_sys_andThen (fun _ _ => rfl) fun bytes => ?_
    split
    · trivial
    · split
      · exact ih
      · exact sat_exit trivial

/-- A page that has been read is what the flash holds. -/
theorem readAttempts_inv {g : Globals} {pMtd : MtdPartition} {iOffsMtd left : ℕ} {w w' : World}
    {bytes : Bytes}
    (hrun : Ends (system env) (readAttempts g pMtd iOffsMtd left) w (.ret (some bytes)) w') :
    bytes = readMem w.mem (env.info pMtd.uiPartition).size pMtd.uiPartition iOffsMtd
      pMtd.iPageSize := by
  induction left generalizing w with
  | zero =>
    obtain ⟨hnone, -⟩ := hrun.pure_inv
    exact absurd hnone nofun
  | succ left ih =>
    obtain ⟨reply, w₁, hcall, hrun⟩ := Ends.split hrun
    obtain ⟨hreply, hw₁⟩ := hcall.perform_inv
    have hmem : w₁.mem = w.mem := by rw [hw₁]; rfl
    cases hfails : env.fails w.time (.pread pMtd.uiPartition pMtd.iPageSize iOffsMtd) with
    | true =>
      have hnone : reply = none := by
        rw [hreply]
        dsimp only [system, respond]
        rw [hfails, if_pos rfl]
      rw [hnone] at hrun
      dsimp only at hrun
      split at hrun
      · rw [ih hrun, hmem]
      · exact hrun.exit_inv.elim
    | false =>
      have hsome : reply = some ⟨readMem w.mem (env.info pMtd.uiPartition).size pMtd.uiPartition
          iOffsMtd pMtd.iPageSize, length_readMem_le ..⟩ := by
        rw [hreply]
        dsimp only [system, respond]
        rw [hfails, if_neg Bool.false_ne_true]
        rfl
      rw [hsome] at hrun
      obtain ⟨hbytes, -⟩ := hrun.pure_inv
      exact Option.some.inj hbytes

/-- A page that has been read is what the flash holds. -/
theorem readPage_inv {g : Globals} {pMtd : MtdPartition} {iOffsMtd : ℕ} {w w' : World}
    {bytes : Bytes} (hsized : Sized env path)
    (hrun : Ends (system env) (readPage g pMtd iOffsMtd) w (.ret bytes) w') :
    bytes = readMem w.mem (env.info pMtd.uiPartition).size pMtd.uiPartition iOffsMtd
      pMtd.iPageSize ∧ Later env path w w' := by
  obtain ⟨reply, w₁, hattempts, hrun⟩ := Ends.split hrun
  have hlater := later_of_passive hsized hattempts (readAttempts_passive g pMtd iOffsMtd _)
  cases reply with
  | none =>
    obtain ⟨_, w₂, -, hrun⟩ := Ends.split hrun
    exact hrun.exit_inv.elim
  | some read =>
    obtain ⟨hbytes, hw'⟩ := hrun.pure_inv
    rw [hbytes, hw']
    exact ⟨readAttempts_inv hattempts, hlater⟩

end Passive

/-- The next piece of a file with a known length. -/
theorem length_piece {files : Files} {path : Path} {len : ℕ}
    (hlength : (files path).map List.length = some len) (pos size : ℕ) :
    (piece files path pos size).length = min size (len - pos) := by
  obtain ⟨content, hcontent, hlen⟩ := Option.map_eq_some_iff.mp hlength
  rw [piece, hcontent, Option.getD_some, List.length_take, List.length_drop, hlen]

/-- A file that has been read up to a position, and its next piece. -/
theorem take_piece (content : Bytes) (pos size : ℕ) :
    content.take pos ++ (content.drop pos).take size =
      content.take (pos + ((content.drop pos).take size).length) := by
  rw [List.take_add, List.length_take]
  rcases Nat.le_total size (content.drop pos).length with hle | hle
  · rw [Nat.min_eq_left hle]
  · rw [Nat.min_eq_right hle, List.take_of_length_le hle, List.take_length]

/-- The flash begins with a file, and the last page that the file needs is
erased behind it, unless it is a JFFS2 file. -/
structure Holds (env : Env) (part : ℕ) (cIsJFFS2 : Bool) (content : Bytes) (mem : FlashMem) :
    Prop where
  /-- The good pages begin with the file. -/
  begins : (image env part mem).take content.length = content
  /-- The rest of the last page is erased. -/
  erased : cIsJFFS2 = true ∨ ∀ b ∈ ((image env part mem).take
    ((content.length + pageSize env part - 1) / pageSize env part * pageSize env part)).drop
      content.length, b = flashErasedByte

section Compare

variable (env : Env) (pMtd : MtdPartition) (path : Path) (len : ℕ) (mem : FlashMem)
  (files : Files)

/-- The good cells of the first pages. -/
def pagesBelow (i : ℕ) : Bytes :=
  goodCells (mem pMtd.uiPartition) (env.badAt pMtd.uiPartition) pMtd.iPageSize 0 i

/-- The loop has compared the good pages below a page with the file. -/
structure Compared (i : ℕ) (st : VerifyState) (w : World) : Prop where
  /-- The loop is at the start of the page. -/
  offset : st.iOffsMtd = i * pMtd.iPageSize
  /-- The file has been read so far. -/
  src : w.src = some (path, st.iBytesReadTotal)
  /-- That is as far as the pages go. -/
  total : st.iBytesReadTotal = min len (pagesBelow env pMtd mem i).length
  /-- The pages hold what has been read. -/
  same : (pagesBelow env pMtd mem i).take st.iBytesReadTotal = w.lastRead
  /-- They are erased behind the file. -/
  erased : pMtd.cIsJFFS2 = true ∨
    ∀ b ∈ (pagesBelow env pMtd mem i).drop len, b = flashErasedByte
  /-- The flash has not changed. -/
  kept : w.mem = mem
  /-- The file keeps its length. -/
  length : (w.files path).map List.length = some len
  /-- When nobody changes the files, the front of the file has been read. -/
  still : Still env → w.files = files ∧
    w.lastRead = ((files path).getD []).take st.iBytesReadTotal

/-- The answer of the loop: it holds of what has been read, and of the file
when nobody changes that. -/
structure Verdict (compared : Option ℕ) (w : World) : Prop where
  /-- The flash has not changed. -/
  kept : w.mem = mem
  /-- An agreement holds of what has been read, all of it if it fits. -/
  agreed : ∀ total, compared = some total →
    (image env pMtd.uiPartition mem).take total = w.lastRead ∧
      (len ≤ goodBytes env pMtd.uiPartition → total = len)
  /-- The files have not changed when nobody changes them. -/
  unchanged : Still env → w.files = files
  /-- The answer is exact then, for a file that fits. -/
  exact : Still env → len ≤ goodBytes env pMtd.uiPartition → (compared.isSome = true ↔
    Holds env pMtd.uiPartition pMtd.cIsJFFS2 ((files path).getD []) mem)

/-- The answer of the loop in full, whether the file fits or not. -/
structure Answer (compared : Option ℕ) (w : World) : Prop where
  /-- The flash has not changed. -/
  kept : w.mem = mem
  /-- The files have not changed when nobody changes them. -/
  unchanged : Still env → w.files = files
  /-- The length of the file that is compared. -/
  length : Still env → ((files path).getD []).length = len
  /-- An agreement goes as far as the file and the partition do. -/
  total : ∀ total, compared = some total → total = min len (goodBytes env pMtd.uiPartition)
  /-- It holds of what has been read. -/
  read : ∀ total, compared = some total → (image env pMtd.uiPartition mem).take total = w.lastRead
  /-- It is exact when nobody changes the files. -/
  exact : Still env → (compared.isSome = true ↔
    (image env pMtd.uiPartition mem).take len =
        ((files path).getD []).take (goodBytes env pMtd.uiPartition) ∧
      (pMtd.cIsJFFS2 = true ∨ ∀ b ∈ ((image env pMtd.uiPartition mem).take
        ((len + pageSize env pMtd.uiPartition - 1) / pageSize env pMtd.uiPartition *
          pageSize env pMtd.uiPartition)).drop len, b = flashErasedByte))

variable {env pMtd path len mem files} {i : ℕ} {st : VerifyState} {w w' : World}

/-- For a file that fits the answer tells whether the flash holds it. -/
theorem Answer.verdict {compared : Option ℕ}
    (h : Answer env pMtd path len mem files compared w) :
    Verdict env pMtd path len mem files compared w := by
  refine ⟨h.kept, fun total hsome => ⟨h.read total hsome, fun hfits => ?_⟩, h.unchanged,
    fun hstill hfits => ?_⟩
  · have htotal := h.total total hsome
    omega
  · have hlength := h.length hstill
    have hexact := h.exact hstill
    rw [List.take_of_length_le (hlength.trans_le hfits)] at hexact
    rw [hexact]
    constructor
    · rintro ⟨hbegins, herased⟩
      rw [← hlength] at hbegins herased
      exact ⟨hbegins, herased⟩
    · rintro ⟨hbegins, herased⟩
      rw [hlength] at hbegins herased
      exact ⟨hbegins, herased⟩

/-- Nothing has been compared at the start. -/
theorem compared_start (hsrc : w.src = some (path, 0)) (hread : w.lastRead = [])
    (hlength : (w.files path).map List.length = some len)
    (htotal : st.iBytesReadTotal = 0) (hoffset : st.iOffsMtd = 0) (hfiles : Still env → w.files = files) :
    Compared env pMtd path len w.mem files 0 st w := by
  have hnil : pagesBelow env pMtd w.mem 0 = [] := rfl
  refine ⟨?_, ?_, ?_, ?_, .inr ?_, rfl, hlength, fun hstill => ⟨hfiles hstill, ?_⟩⟩
  · rw [hoffset, Nat.zero_mul]
  · rw [htotal, hsrc]
  · rw [htotal, hnil, List.length_nil, Nat.min_zero]
  · rw [hnil, List.take_nil, hread]
  · rw [hnil, List.drop_nil]
    exact fun b hb => absurd hb List.not_mem_nil
  · rw [htotal, List.take_zero, hread]

/-- What has been compared stays so while only the files change. -/
theorem Compared.later (h : Compared env pMtd path len mem files i st w) (hlater : Later env path w w') :
    Compared env pMtd path len mem files i st w' :=
  ⟨h.offset, hlater.src.trans h.src, h.total, h.same.trans hlater.lastRead.symm, h.erased,
    hlater.mem.trans h.kept, hlater.length.trans h.length, fun hstill =>
      ⟨(hlater.files hstill).trans (h.still hstill).1,
        hlater.lastRead.trans (h.still hstill).2⟩⟩

/-- The good cells below the next page. -/
theorem pagesBelow_succ (i : ℕ) :
    pagesBelow env pMtd mem (i + 1) = pagesBelow env pMtd mem i ++
      if env.badAt pMtd.uiPartition (i * pMtd.iPageSize) then []
      else unitCells (mem pMtd.uiPartition) pMtd.iPageSize (i * pMtd.iPageSize) := by
  rw [pagesBelow, pagesBelow, goodCells_add, Nat.zero_add, goodCells_one]

/-- A bad page is stepped over. -/
theorem Compared.skip (h : Compared env pMtd path len mem files i st w)
    (hbad : env.badAt pMtd.uiPartition (i * pMtd.iPageSize) = true) :
    Compared env pMtd path len mem files (i + 1)
      { st with iOffsMtd := st.iOffsMtd + pMtd.iPageSize } w := by
  have hsame : pagesBelow env pMtd mem (i + 1) = pagesBelow env pMtd mem i := by
    rw [pagesBelow_succ, if_pos hbad, List.append_nil]
  refine ⟨?_, h.src, ?_, ?_, ?_, h.kept, h.length, h.still⟩
  · dsimp only
    rw [h.offset, Nat.succ_mul]
  · rw [hsame]
    exact h.total
  · rw [hsame]
    exact h.same
  · rw [hsame]
    exact h.erased

section Page

variable {bytesSrc bytesMtd : Bytes} (h : Compared env pMtd path len mem files i st w)
  (hgood : env.badAt pMtd.uiPartition (i * pMtd.iPageSize) = false)
  (hmtd : bytesMtd = unitCells (mem pMtd.uiPartition) pMtd.iPageSize (i * pMtd.iPageSize))
  (hsrc : bytesSrc = piece w.files path st.iBytesReadTotal pMtd.iPageSize)
  (hmore : bytesSrc ≠ [])

include hgood hmtd in
/-- The good cells below the next page end with this one. -/
theorem pagesBelow_page :
    pagesBelow env pMtd mem (i + 1) = pagesBelow env pMtd mem i ++ bytesMtd := by
  rw [pagesBelow_succ, if_neg (by rw [hgood]; exact Bool.false_ne_true), ← hmtd]

include h hsrc

/-- A piece is short only at the end of the file. -/
theorem Compared.length_src :
    bytesSrc.length = min pMtd.iPageSize (len - st.iBytesReadTotal) := by
  rw [hsrc, length_piece h.length]

include hmore

/-- While there is more to compare, all good pages have been used up. -/
theorem Compared.pages_full :
    st.iBytesReadTotal = (pagesBelow env pMtd mem i).length ∧
      st.iBytesReadTotal < len := by
  have htotal := h.total
  have hlength := h.length_src hsrc
  have hpos := List.length_pos_iff.mpr hmore
  omega

include hgood hmtd

/-- What lies behind the file in the pages so far is the rest of this page. -/
theorem Compared.rest :
    (pagesBelow env pMtd mem (i + 1)).drop len = bytesMtd.drop bytesSrc.length := by
  obtain ⟨hfull, hlt⟩ := h.pages_full hsrc hmore
  have hlength := h.length_src hsrc
  have hcells : bytesMtd.length = pMtd.iPageSize := by rw [hmtd, length_unitCells]
  rw [pagesBelow_page hgood hmtd, List.drop_append, List.drop_eq_nil_of_le (by omega),
    List.nil_append]
  rcases Nat.le_total pMtd.iPageSize (len - st.iBytesReadTotal) with hle | hle
  · rw [List.drop_eq_nil_of_le (by omega), List.drop_eq_nil_of_le (by omega)]
  · congr 1
    omega

/-- A page that agrees with the next piece of the file. -/
theorem Compared.page {v : World} {st' : VerifyState}
    (hsame : bytesMtd.take bytesSrc.length = bytesSrc)
    (hrest : restIsEmpty pMtd bytesSrc bytesMtd = true)
    (hlater : Later env path (afterReading w path st.iBytesReadTotal bytesSrc) v)
    (htotal' : st'.iBytesReadTotal = st.iBytesReadTotal + bytesSrc.length)
    (hoffset' : st'.iOffsMtd = st.iOffsMtd + pMtd.iPageSize) :
    Compared env pMtd path len mem files (i + 1) st' v := by
  have hpages := pagesBelow_page hgood hmtd
  obtain ⟨hfull, hlt⟩ := h.pages_full hsrc hmore
  have hlength := h.length_src hsrc
  have hcells : bytesMtd.length = pMtd.iPageSize := by rw [hmtd, length_unitCells]
  refine Compared.later (w := afterReading w path st.iBytesReadTotal bytesSrc) ⟨?_, ?_, ?_, ?_, ?_,
    h.kept, h.length, fun hstill => ⟨(h.still hstill).1, ?_⟩⟩ hlater
  · rw [hoffset', h.offset, Nat.succ_mul]
  · rw [htotal']
    rfl
  · rw [htotal', hpages, List.length_append]
    omega
  · dsimp only [afterReading]
    rw [htotal', hpages, hfull, List.take_length_add_append, hsame, ← h.same, hfull,
      List.take_length]
  · rw [restIsEmpty, Bool.or_eq_true] at hrest
    refine hrest.imp_right fun hall b hb => ?_
    rw [h.rest hgood hmtd hsrc hmore] at hb
    exact of_decide_eq_true (List.all_eq_true.mp hall b hb)
  · have hpiece : bytesSrc = (((files path).getD []).drop st.iBytesReadTotal).take
        pMtd.iPageSize := by rw [hsrc, piece, (h.still hstill).1]
    dsimp only [afterReading]
    rw [htotal', (h.still hstill).2, hpiece]
    exact take_piece ..

end Page

section Whole

variable (env pMtd) in
/-- The pages below a page are whole pages. -/
theorem pagesBelow_pages (mem : FlashMem) (i : ℕ) :
    ∃ k, (pagesBelow env pMtd mem i).length = k * pMtd.iPageSize :=
  ⟨_, length_goodCells ..⟩

/-- The file that is compared has the size of the image. -/
theorem Compared.length_content (h : Compared env pMtd path len mem files i st w) (hstill : Still env) :
    ((files path).getD []).length = len := by
  obtain ⟨content, hcontent, hlen⟩ := Option.map_eq_some_iff.mp h.length
  rw [← (h.still hstill).1, hcontent, Option.getD_some, hlen]

variable (hg : Geometry env pMtd.uiPartition) (hd : Describes env pMtd)

include hd

/-- The pages below a page are the front of the image. -/
theorem pagesBelow_begins (mem : FlashMem) (hi : i ≤ pageCount env pMtd.uiPartition) :
    pagesBelow env pMtd mem i <+: image env pMtd.uiPartition mem := by
  obtain ⟨k, hk⟩ := Nat.exists_eq_add_of_le hi
  rw [image, hk, goodCells_add, ← hd.page]
  exact List.prefix_append ..

include hg

/-- The whole file has been compared, or the whole partition. -/
theorem Compared.finished (h : Compared env pMtd path len mem files i st w)
    (hi : i ≤ pageCount env pMtd.uiPartition)
    (hdone : st.iBytesReadTotal = min len (goodBytes env pMtd.uiPartition)) :
    Answer env pMtd path len mem files (some st.iBytesReadTotal) w := by
  have hpos := hd.page_pos hg
  have htotal := h.total
  have himageLength := hg.length_image mem
  obtain ⟨above, himage⟩ := pagesBelow_begins hd mem hi
  have hbegins : (image env pMtd.uiPartition mem).take st.iBytesReadTotal = w.lastRead := by
    rw [← himage, List.take_append_of_le_length (by omega), h.same]
  refine ⟨h.kept, fun hstill => (h.still hstill).1, h.length_content, ?_, ?_,
    fun hstill => ⟨fun _ => ⟨?_, ?_⟩, fun _ => rfl⟩⟩
  · intro total hsome
    rw [← Option.some.inj hsome, hdone]
  · intro total hsome
    rw [← Option.some.inj hsome, hbegins]
  · have hcontent := List.take_of_length_le (h.length_content hstill).le
    rw [← hcontent, List.take_take, Nat.min_comm, ← hdone, ← (h.still hstill).2, ← hbegins, hdone,
      ← List.take_take, ← himageLength, List.take_length]
  · rcases Nat.lt_or_ge (pagesBelow env pMtd mem i).length len with hshort | hlong
    · refine .inr fun b hb => absurd hb ?_
      rw [List.drop_eq_nil_of_le (by rw [List.length_take]; omega)]
      exact List.not_mem_nil
    · obtain ⟨k, hk⟩ := pagesBelow_pages env pMtd mem i
      have hceil := ceil_le hpos (hk ▸ hlong)
      refine h.erased.imp_right fun herased b hb => herased b ?_
      rw [← hd.page, ← himage, List.take_append_of_le_length
        (by rw [hk]; exact Nat.mul_le_mul_right _ hceil), List.drop_take] at hb
      exact List.mem_of_mem_take hb

/-- A page that differs from the next piece of the file, or is not erased
behind it. -/
theorem Compared.differs {bytesSrc bytesMtd : Bytes} {v : World}
    (h : Compared env pMtd path len mem files i st w)
    (hgood : env.badAt pMtd.uiPartition (i * pMtd.iPageSize) = false)
    (hmtd : bytesMtd = unitCells (mem pMtd.uiPartition) pMtd.iPageSize (i * pMtd.iPageSize))
    (hsrc : bytesSrc = piece w.files path st.iBytesReadTotal pMtd.iPageSize)
    (hmore : bytesSrc ≠ []) (hi : i < pageCount env pMtd.uiPartition)
    (hlater : Later env path (afterReading w path st.iBytesReadTotal bytesSrc) v)
    (hdiffers : ¬ (bytesMtd.take bytesSrc.length = bytesSrc ∧
      restIsEmpty pMtd bytesSrc bytesMtd = true)) :
    Answer env pMtd path len mem files none v := by
  have hpos := hd.page_pos hg
  obtain ⟨hfull, hlt⟩ := h.pages_full hsrc hmore
  have hlength := h.length_src hsrc
  have hcells : bytesMtd.length = pMtd.iPageSize := by rw [hmtd, length_unitCells]
  have hinside : st.iBytesReadTotal + pMtd.iPageSize ≤ goodBytes env pMtd.uiPartition := by
    have hbelow := (pagesBelow_begins hd mem hi).length_le
    rw [pagesBelow_page hgood hmtd, List.length_append, hcells, ← hfull,
      hg.length_image mem] at hbelow
    exact hbelow
  refine ⟨hlater.mem.trans h.kept, fun hstill => (hlater.files hstill).trans (h.still hstill).1,
    h.length_content, nofun, nofun,
    fun hstill => ⟨fun hsome => absurd hsome nofun, fun hholds => absurd ⟨?_, ?_⟩ hdiffers⟩⟩
  · obtain ⟨above, himage⟩ := pagesBelow_begins hd mem hi
    rw [pagesBelow_page hgood hmtd, List.append_assoc] at himage
    have hpage : (((image env pMtd.uiPartition mem).drop st.iBytesReadTotal).take
        pMtd.iPageSize) = bytesMtd := by
      rw [← himage, hfull, List.drop_left, ← hcells, List.take_left]
    have hpiece : bytesSrc = (((files path).getD []).drop st.iBytesReadTotal).take
        pMtd.iPageSize := by rw [hsrc, piece, (h.still hstill).1]
    have hfront : (((files path).getD []).drop st.iBytesReadTotal).take pMtd.iPageSize =
        ((((files path).getD []).take (goodBytes env pMtd.uiPartition)).drop
          st.iBytesReadTotal).take pMtd.iPageSize := by
      rw [List.drop_take, List.take_take, Nat.min_eq_left (by omega)]
    rw [hfront, ← hholds.1, List.drop_take, List.take_take, ← hlength] at hpiece
    rw [← hpage, List.take_take, Nat.min_eq_left (by omega), ← hpiece]
  · rw [restIsEmpty, Bool.or_eq_true, List.all_eq_true]
    refine hholds.2.imp_right fun herased b hb => decide_eq_true (herased b ?_)
    obtain ⟨k, hk⟩ := pagesBelow_pages env pMtd mem (i + 1)
    have hnext : (pagesBelow env pMtd mem (i + 1)).length =
        st.iBytesReadTotal + pMtd.iPageSize := by
      rw [pagesBelow_page hgood hmtd, List.length_append, hcells, hfull]
    have hneeded : k * pMtd.iPageSize ≤
        (len + pMtd.iPageSize - 1) / pMtd.iPageSize * pMtd.iPageSize := by
      have hceil := le_ceil_mul hpos len
      have hmul : (k - 1) * pMtd.iPageSize <
          (len + pMtd.iPageSize - 1) / pMtd.iPageSize * pMtd.iPageSize := by
        rw [Nat.sub_mul, Nat.one_mul]
        omega
      have hcount := Nat.lt_of_mul_lt_mul_right hmul
      exact Nat.mul_le_mul_right _ (by omega)
    rw [← h.rest hgood hmtd hsrc hmore, List.prefix_iff_eq_take.mp (pagesBelow_begins hd mem hi),
      hk, ← Nat.min_eq_left hneeded, ← List.take_take, List.drop_take] at hb
    rw [← hd.page]
    exact List.mem_of_mem_take hb

end Whole

section Run

variable {g : Globals} (hg : Geometry env pMtd.uiPartition) (hd : Describes env pMtd)
  (hsized : Sized env path)

include hg hd

/-- The end of a pass: the loop goes on with the next page, or everything has
been compared. -/
theorem Compared.step (h : Compared env pMtd path len mem files (i + 1)
    { st with iOffsMtd := st.iOffsMtd + pMtd.iPageSize } w)
    (hi : i < pageCount env pMtd.uiPartition) :
    Sum.elim (fun st' => ∃ j < pageCount env pMtd.uiPartition,
        Compared env pMtd path len mem files j st' w)
      (fun compared => Answer env pMtd path len mem files compared w) (st.step pMtd) := by
  have hpos := hd.page_pos hg
  have hsize := hd.size_eq hg
  have hoffset := h.offset
  unfold VerifyState.step
  dsimp only at hoffset ⊢
  split
  · rename_i hinside
    rw [hoffset, hsize] at hinside
    exact ⟨i + 1, Nat.lt_of_mul_lt_mul_right hinside, h⟩
  · rename_i hend
    rw [hoffset, hsize] at hend
    have hlast : i + 1 = pageCount env pMtd.uiPartition := by
      rcases Nat.lt_or_ge (i + 1) (pageCount env pMtd.uiPartition) with hlt | hge
      · exact absurd (Nat.mul_lt_mul_of_pos_right hlt hpos) hend
      · omega
    have hall : (pagesBelow env pMtd mem (i + 1)).length = goodBytes env pMtd.uiPartition := by
      rw [hlast, pagesBelow, hd.page, ← hg.length_image mem, image]
    have htotal := h.total
    dsimp only at htotal
    have hdone := h.finished hg hd hi (by rw [← hall]; exact htotal)
    exact hdone

include hsized

/-- One pass of the loop of `MtdPartVerify`. -/
theorem verifyPass_inv (h : Compared env pMtd path len mem files i st w)
    (hi : i < pageCount env pMtd.uiPartition) {step : VerifyState ⊕ Option ℕ}
    (hrun : Ends (system env) (verifyPass g pMtd st) w (.ret step) w') :
    Sum.elim (fun st' => ∃ j < pageCount env pMtd.uiPartition,
        Compared env pMtd path len mem files j st' w')
      (fun compared => Answer env pMtd path len mem files compared w') step := by
  obtain ⟨bad, w₁, hask, hrun⟩ := Ends.split hrun
  obtain ⟨hbad, hw₁⟩ := mtdPartIsBadBlock_inv hask
  rw [h.offset] at hbad
  have h₁ : Compared env pMtd path len mem files i st w₁ := by
    rw [hw₁]
    exact h.later (later_enter hsized w)
  cases bad with
  | true =>
    obtain ⟨hstep, hw'⟩ := hrun.pure_inv
    rw [hstep, hw']
    exact (h₁.skip hbad.symm).step hg hd hi
  | false =>
    rw [if_neg Bool.false_ne_true] at hrun
    obtain ⟨bytesSrc, w₂, hsrc, hrun⟩ := Ends.split hrun
    obtain ⟨path', pos, hopen, hpiece, hw₂⟩ := readSrc_inv hsrc
    rw [h₁.src] at hopen
    obtain ⟨rfl, rfl⟩ := Prod.mk.inj (Option.some.inj hopen)
    have h₂ := h₁.later (later_enter hsized w₁)
    have hread : w₂ = afterReading (w₁.enter env) path st.iBytesReadTotal bytesSrc.1 := hw₂
    split at hrun
    · rename_i hempty
      obtain ⟨hstep, hw'⟩ := hrun.pure_inv
      have hsame : afterReading (w₁.enter env) path st.iBytesReadTotal bytesSrc.1 =
          w₁.enter env := by
        have hsrc₂ := h₂.src
        rw [afterReading, hempty, List.length_nil, Nat.add_zero, List.append_nil, ← hsrc₂]
      have hlength := h₂.length_src hpiece
      have hpos := hd.page_pos hg
      rw [hempty, List.length_nil] at hlength
      rw [hstep, hw', hread, hsame]
      have hbelow := (pagesBelow_begins hd mem (by omega : i ≤ _)).length_le
      rw [hg.length_image mem] at hbelow
      have htotal := h₂.total
      exact h₂.finished hg hd (by omega) (by omega)
    · rename_i hmore
      obtain ⟨bytesMtd, w₃, hpage, hrun⟩ := Ends.split hrun
      obtain ⟨hmtd, hlater⟩ := readPage_inv hsized hpage
      have hmem : w₂.mem = mem := by
        rw [hread]
        exact h₂.kept
      rw [h.offset, readMem_inside _ (page_inside pMtd hg hd hi), hmem] at hmtd
      rw [hread] at hlater
      have hcells : bytesMtd.length = pMtd.iPageSize := by rw [hmtd, length_unitCells]
      have hdiffers : ∀ {v : World}, _ := @fun v => h₂.differs (v := v) hg hd hbad.symm hmtd hpiece
        hmore hi
      have hfront : ∀ a b : Bytes, (fillBuffer a bytesMtd).take bytesSrc.1.length =
          (fillBuffer b bytesSrc.1).take bytesSrc.1.length ↔
            bytesMtd.take bytesSrc.1.length = bytesSrc.1 := fun a b => by
        have hshort := bytesSrc.2
        rw [take_fillBuffer (by omega), take_fillBuffer (Nat.le_refl _), List.take_length]
      dsimp only at hrun
      split at hrun
      · have hshort := bytesSrc.2
        omega
      · split at hrun
        · rename_i iOffs hcmp
          obtain ⟨_, w₄, hdump, hrun⟩ := Ends.split hrun
          obtain ⟨_, w₅, hdump', hrun⟩ := Ends.split hrun
          obtain ⟨hstep, hw'⟩ := hrun.pure_inv
          have hdumps : ∀ buffer a b, (sys (.memDump buffer a b)).Sat (Passive env) AnyReason
              AnyResult := fun _ _ _ => sat_perform (fun _ _ => rfl) fun _ => trivial
          have hlater₄ := later_of_passive hsized hdump (hdumps _ _ _)
          have hlater₅ := later_of_passive hsized hdump' (hdumps _ _ _)
          rw [hstep, hw']
          refine hdiffers (hlater.trans (hlater₄.trans hlater₅)) fun hagree => ?_
          rw [(memCmp_none_iff _ _ _).mpr ((hfront _ _).mpr hagree.1)] at hcmp
          cases hcmp
        · rename_i hcmp
          have hsame := (hfront _ _).mp ((memCmp_none_iff _ _ _).mp hcmp)
          split at hrun
          · rename_i hrest
            obtain ⟨hstep, hw'⟩ := hrun.pure_inv
            rw [hstep, hw']
            refine Compared.step hg hd ?_ hi
            exact h₂.page hbad.symm hmtd hpiece hmore hsame hrest hlater rfl rfl
          · rename_i hrest
            obtain ⟨hstep, hw'⟩ := hrun.pure_inv
            rw [hstep, hw']
            exact hdiffers hlater fun hagree => hrest hagree.2

omit hg hd hsized

/-- What the answer of `MtdPartVerify` is made of. -/
theorem comparePart_answer {cRes : Bool} {q : MtdPartition} (hg : Geometry env pMtd.uiPartition)
    (hd : Describes env pMtd) (hsized : Sized env pMtd.szOrigImageFileName)
    (hrun : Ends (system env) (comparePart g pMtd) w (.ret (cRes, q)) w') :
    q = reopened g pMtd ∧ ∃ len compared, cRes = (compared == some pMtd.iFileSize) ∧
      (w.files pMtd.szOrigImageFileName).map List.length = some len ∧
      Answer env pMtd pMtd.szOrigImageFileName len w.mem w.files compared w' := by
  obtain ⟨pucBufferSrc, w₁, hmalloc₁, hrun⟩ := Ends.split hrun
  obtain ⟨pucBufferMtd, w₂, hmalloc₂, hrun⟩ := Ends.split hrun
  obtain ⟨p₁, w₃, hclose, hrun⟩ := Ends.split hrun
  obtain ⟨p₂, w₄, hopen, hrun⟩ := Ends.split hrun
  obtain ⟨_, w₅, hsrc, hrun⟩ := Ends.split hrun
  obtain ⟨compared, w₆, hloop, hrun⟩ := Ends.split hrun
  obtain ⟨_, w₇, hcloseSrc, hrun⟩ := Ends.split hrun
  obtain ⟨hp₁, hw₃⟩ := mtdPartClose_inv hclose
  obtain ⟨hp₂, hw₄⟩ := mtdPartOpen_inv hopen
  have hp : p₂ = reopened g pMtd := by
    rw [hp₂, hp₁]
    rfl
  have hlater : Later env pMtd.szOrigImageFileName w (w₄.enter env) := by
    have hfirst := later_enter hsized w
    rw [hw₄, hw₃, malloc_inv hmalloc₂, malloc_inv hmalloc₁]
    exact (((hfirst.trans (later_enter hsized _)).trans (later_enter hsized _)).trans
      (later_enter hsized _)).trans (later_enter hsized _)
  rw [hp] at hsrc hloop
  obtain ⟨hexists, hw₅⟩ := openSrc_inv hsrc
  obtain ⟨content, hcontent⟩ := Option.ne_none_iff_exists'.mp hexists
  have hlen : ((w₄.enter env).files pMtd.szOrigImageFileName).map List.length =
      some content.length := congrArg (Option.map List.length) hcontent
  have hstart : Compared env (reopened g pMtd) pMtd.szOrigImageFileName content.length w.mem
      w.files 0 { pucBufferSrc := pucBufferSrc.1, pucBufferMtd := pucBufferMtd.1 } w₅ := by
    have hmem : w₅.mem = w.mem := by
      rw [hw₅]
      exact hlater.mem
    rw [← hmem]
    refine compared_start ?_ ?_ ?_ rfl rfl fun hstill => ?_
    · rw [hw₅]
      rfl
    · rw [hw₅]
    · rw [hw₅]
      exact hlen
    · rw [hw₅]
      exact hlater.files hstill
  have hdq : Describes env (reopened g pMtd) := ⟨hd.info, hd.nand, hd.page⟩
  have hgq : Geometry env (reopened g pMtd).uiPartition := hg
  have hanswer : Answer env (reopened g pMtd) pMtd.szOrigImageFileName content.length w.mem
      w.files compared w₆ :=
    Ends.loop_invariant
      (I := fun st v => ∃ j < pageCount env (reopened g pMtd).uiPartition,
        Compared env (reopened g pMtd) pMtd.szOrigImageFileName content.length w.mem w.files j st v)
      (Q := fun compared v => Answer env (reopened g pMtd) pMtd.szOrigImageFileName content.length
        w.mem w.files compared v)
      (fun st v ⟨j, hj, hst⟩ step v' hpass => verifyPass_inv hgq hdq hsized hst hj hpass)
      ⟨0, hg.pageCount_pos, hstart⟩ hloop
  obtain ⟨hresult, hw'⟩ := hrun.pure_inv
  obtain ⟨hcRes, hq⟩ := Prod.mk.inj hresult
  have hw₇ := (sysOrFail_inv hcloseSrc).2
  have hfiles : Still env → w'.files = w₆.files := fun hstill => by
    rw [hw', hw₇]
    exact hstill _ _
  have hkept : w'.mem = w₆.mem ∧ w'.lastRead = w₆.lastRead := by
    rw [hw', hw₇]
    exact ⟨rfl, rfl⟩
  rw [hp] at hcRes hq
  refine ⟨hq, content.length, compared, hcRes, hlater.length.symm.trans hlen,
    hkept.1.trans hanswer.kept, fun hstill => (hfiles hstill).trans (hanswer.unchanged hstill),
    hanswer.length, hanswer.total, fun total hsome => ?_, hanswer.exact⟩
  rw [hkept.2]
  exact hanswer.read total hsome

/-- What `MtdPartVerify` answers when it returns: an agreement holds of what
has been read from the file meanwhile, and of the file itself when nobody
changes that. -/
theorem comparePart_inv {cRes : Bool} {q : MtdPartition} (hg : Geometry env pMtd.uiPartition)
    (hd : Describes env pMtd) (hsized : Sized env pMtd.szOrigImageFileName)
    (hrun : Ends (system env) (comparePart g pMtd) w (.ret (cRes, q)) w') :
    q = reopened g pMtd ∧ w'.mem = w.mem ∧
      (cRes = true →
        (image env pMtd.uiPartition w.mem).take pMtd.iFileSize = w'.lastRead) ∧
      (Still env → w'.files = w.files) ∧
      (Still env → pMtd.iFileSize ≤ goodBytes env pMtd.uiPartition →
        (w.files pMtd.szOrigImageFileName).map List.length = some pMtd.iFileSize →
        (cRes = true ↔ Holds env pMtd.uiPartition pMtd.cIsJFFS2
          ((w.files pMtd.szOrigImageFileName).getD []) w.mem)) := by
  obtain ⟨hq, len, compared, hcRes, hlen, hanswer⟩ := comparePart_answer hg hd hsized hrun
  have hverdict := hanswer.verdict
  refine ⟨hq, hanswer.kept, fun htrue => ?_, hanswer.unchanged, fun hstill hfits hlength => ?_⟩
  · rw [htrue] at hcRes
    exact (hverdict.agreed _ (eq_of_beq hcRes.symm)).1
  · have hsize : len = pMtd.iFileSize := Option.some.inj (hlen.symm.trans hlength)
    have hcompared : cRes = compared.isSome := by
      rw [hcRes]
      cases compared with
      | none => rfl
      | some total =>
        rw [(hverdict.agreed total rfl).2 (hsize ▸ hfits), hsize]
        exact beq_self_eq_true _
    rw [hcompared]
    exact hverdict.exact hstill (hsize ▸ hfits)

end Run

end Compare

end MetaDigi.FlashVerifying
