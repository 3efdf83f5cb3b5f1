import MetaDigi.FlashGate
import MetaDigi.LittleEndian

/-!
# The last page of a JFFS2 image

`MtdPartWrite` fills up a short last page so that JFFS2 does not take the rest
for a page that was never finished: with a padding node over the rest when a
node fits, and with erased cells when it does not. The page is described
here on its own, with the scanner that steps over it, and every page that is
written is held against the description.
-/

namespace MetaDigi.FlashPadding

open CStrings SystemProgram SystemRuns FlashTypes FlashInit FlashTransfer FlashWorld FlashMarkers
open FlashDevice FlashWriting FlashEffects FileSums FlashGate LittleEndian ReflectedCrc Prog

section Pages

/-- What fills up a page when some of its bytes are left. -/
def filling (r : ℕ) : Bytes :=
  if r > nodeSize then jffs2Node jffs2NodetypePadding r ++ List.replicate (r - nodeSize) 0
  else List.replicate r flashErasedByte

/-- The page with a number, filled up when it is short. -/
def paddedPage (content : Bytes) (pageSize k : ℕ) : Bytes :=
  imageBlock content pageSize k ++
    if (imageBlock content pageSize k).length < pageSize then
      filling (pageSize - (imageBlock content pageSize k).length)
    else []

/-- `MtdPartWrite` fills up the pages of a JFFS2 image in this way. -/
theorem fillPage_padded (content : Bytes) (pageSize k : ℕ) :
    fillPage true pageSize (imageBlock content pageSize k) = paddedPage content pageSize k := by
  unfold fillPage paddedPage filling
  by_cases hshort : (imageBlock content pageSize k).length < pageSize
  · rw [if_pos hshort, if_pos hshort, Bool.true_and]
    by_cases hroom : (imageBlock content pageSize k).length + nodeSize < pageSize
    · rw [if_pos (decide_eq_true hroom), if_pos (by omega), mtdPartInitJFFS2Node_eq,
        List.append_assoc]
    · rw [if_neg (by rw [decide_eq_true_eq]; exact hroom), if_neg (by omega)]
  · rw [if_neg hshort, if_neg hshort, List.append_nil]

theorem length_filling (r : ℕ) : (filling r).length = r := by
  unfold filling
  split
  · rw [List.length_append, length_jffs2Node, List.length_replicate]
    omega
  · exact List.length_replicate

theorem length_paddedPage (content : Bytes) (pageSize k : ℕ) :
    (paddedPage content pageSize k).length = pageSize := by
  have hle : (imageBlock content pageSize k).length ≤ pageSize := List.length_take_le ..
  unfold paddedPage
  rw [List.length_append]
  split
  · rw [length_filling]
    omega
  · rw [List.length_nil]
    omega

/-- The piece of the image behind the last full page. -/
theorem imageBlock_last (content : Bytes) (pageSize : ℕ) (hsize : 0 < pageSize) :
    imageBlock content pageSize (content.length / pageSize) =
      content.drop (content.length - content.length % pageSize) := by
  have hsplit := Nat.div_add_mod content.length pageSize
  have hmod := Nat.mod_lt content.length hsize
  have hstart : content.length / pageSize * pageSize =
      content.length - content.length % pageSize := by
    rw [Nat.mul_comm]
    omega
  unfold imageBlock
  rw [hstart, List.take_of_length_le]
  rw [List.length_drop]
  omega

end Pages

section Scanner

/-- An integer of 16 bits in front of others. -/
theorem valueOf_je16 (n : BitVec 16) (rest : Bytes) :
    valueOf (je16 n ++ rest) = n.toNat + 2 ^ 16 * valueOf rest := by
  have hlow : (⟨n.setWidth 8⟩ : UInt8).toNat = n.toNat % 2 ^ 8 := BitVec.toNat_setWidth ..
  have hhigh : (⟨(n >>> 8).setWidth 8⟩ : UInt8).toNat = n.toNat / 2 ^ 8 % 2 ^ 8 := by
    rw [← Nat.shiftRight_eq_div_pow, ← BitVec.toNat_ushiftRight]
    exact BitVec.toNat_setWidth ..
  have hlt := n.isLt
  unfold je16
  rw [List.cons_append, List.cons_append, List.nil_append, valueOf, valueOf, hlow, hhigh]
  omega

/-- An integer of 32 bits is read as it was stored. -/
theorem valueOf_je32 (n : BitVec 32) : valueOf (je32 n) = n.toNat := by
  have hhalf : valueOf (je16 ((n >>> 16).setWidth 16)) = n.toNat / 2 ^ 16 % 2 ^ 16 := by
    have hread := valueOf_je16 ((n >>> 16).setWidth 16) []
    rw [List.append_nil, BitVec.toNat_setWidth, BitVec.toNat_ushiftRight,
      Nat.shiftRight_eq_div_pow] at hread
    exact hread
  have hlt := n.isLt
  rw [je32, valueOf_je16, hhalf, BitVec.toNat_setWidth]
  omega

/-- One step of a scanner: it steps over a node by its length, when the magic
number and the checksum of the header are right. -/
def scanNode (page : Bytes) (offset : ℕ) : Option ℕ :=
  let header := (page.drop offset).take nodeSize
  if header.take 2 = je16 jffs2MagicBitmask ∧ header.drop 8 = je32 (jffs2Crc (header.take 8)) then
    some (offset + valueOf ((header.take 8).drop 4))
  else none

/-- A scanner steps over a node by its length. -/
theorem scanNode_node {front rest : Bytes} (nodetype : BitVec 16) {totlen : ℕ}
    (htotlen : totlen < 2 ^ 32) :
    scanNode (front ++ (jffs2Node nodetype totlen ++ rest)) front.length =
      some (front.length + totlen) := by
  have hheader : ((front ++ (jffs2Node nodetype totlen ++ rest)).drop front.length).take nodeSize =
      jffs2Node nodetype totlen := by
    rw [List.drop_left]
    exact List.take_left' (length_jffs2Node nodetype totlen)
  have hlen : valueOf (((jffs2Node nodetype totlen).take 8).drop 4) = totlen := by
    have hfield : ((jffs2Node nodetype totlen).take 8).drop 4 = je32 (BitVec.ofNat 32 totlen) := rfl
    rw [hfield, valueOf_je32, BitVec.toNat_ofNat, Nat.mod_eq_of_lt htotlen]
  unfold scanNode
  dsimp only
  rw [hheader, hlen]
  exact if_pos ⟨rfl, rfl⟩

end Scanner

section Runs

/-- A call writes a page. -/
def isWrite : Op → Bool
  | .pwrite _ _ _ => true
  | _ => false

/-- The pages that a list of calls writes, the last one of them. -/
def lastWrite (calls : List Op) : Option Op := (calls.filter isWrite).getLast?

/-- A call writes this page, if it writes one. -/
def WritesOnly (page : Op) (o : Op) : Prop := isWrite o = true → o = page

variable (g : Globals) (pMtd : MtdPartition)

/-- The attempts to write a page write that page, and try it at least once. -/
theorem writeAttempts_only (page : Bytes) (offset left : ℕ) (buffer : Bytes) :
    (writeAttempts g pMtd page offset left buffer).Sat
      (WritesOnly (.pwrite pMtd.uiPartition page offset)) AnyReason AnyResult := by
  induction left generalizing buffer with
  | zero => exact trivial
  | succ left ih =>
    unfold writeAttempts
    refine Sat.andThen (R := AnyResult) ?_ fun written _ => ?_
    · unfold pwriteUnlessDry
      split
      · exact trivial
      · exact sat_perform (fun _ => rfl) fun _ => trivial
    · split
      · split
        · exact ih _
        · exact trivial
      · split
        · refine sat_sys_andThen (fun h => (by cases h)) fun bytes => ?_
          split
          · exact ih _
          · dsimp only
            split
            · exact ih _
            · exact trivial
        · exact trivial

theorem writeAttempts_must (hdry : g.cDryRun = false) (page : Bytes) (offset left : ℕ)
    (buffer : Bytes) : (writeAttempts g pMtd page offset (left + 1) buffer).MustCall
      (fun o => o = .pwrite pMtd.uiPartition page offset) := by
  unfold writeAttempts pwriteUnlessDry
  rw [hdry, if_neg Bool.false_ne_true]
  exact .inl rfl

/-- Writing a page writes that page. -/
theorem writePage_only (page : Bytes) (offset : ℕ) :
    (writePage g pMtd page offset).Sat (WritesOnly (.pwrite pMtd.uiPartition page offset))
      AnyReason AnyResult := by
  unfold writePage
  refine Sat.andThen (R := AnyResult) ?_ fun buffer _ => ?_
  · unfold readBackBuffer
    split
    · exact sat_forget (sat_sysOrFail nofun trivial)
    · exact trivial
  · refine Sat.andThen (writeAttempts_only g pMtd page offset _ buffer) fun done _ => ?_
    split
    · exact trivial
    · exact sat_sys_andThen nofun fun _ => trivial

theorem writePage_must (hdry : g.cDryRun = false) (page : Bytes) (offset : ℕ) :
    (writePage g pMtd page offset).MustCall
      (fun o => o = .pwrite pMtd.uiPartition page offset) := by
  unfold writePage
  refine Sat.andThen_mustCall (sat_any _) fun buffer _ => ?_
  exact MustCall.andThen (writeAttempts_must g pMtd hdry page offset 2 buffer)

variable {g pMtd}
variable {σ : Type} {h : Handler Op Resp σ} {content : Bytes} {pos : σ → ℕ} {s s' : σ}

/-- The last write of a page that has been written. -/
theorem lastWrite_page (hdry : g.cDryRun = false) {page : Bytes} {offset : ℕ} {u : Unit}
    (hrun : Ends h (writePage g pMtd page offset) s (.ret u) s') :
    lastWrite (exec h everyCall (writePage g pMtd page offset) s).calls =
      some (.pwrite pMtd.uiPartition page offset) := by
  obtain ⟨o, hmem, ho⟩ := (writePage_must g pMtd hdry page offset).exec h s hrun.1
  have honly := ((writePage_only g pMtd page offset).exec h everyCall s).1
  have hkept : o ∈ (exec h everyCall (writePage g pMtd page offset) s).calls.filter isWrite :=
    List.mem_filter.mpr ⟨hmem, by rw [ho]; rfl⟩
  unfold lastWrite
  rw [List.getLast?_eq_some_getLast (List.ne_nil_of_mem hkept)]
  have hlast := List.mem_filter.mp (List.getLast_mem (List.ne_nil_of_mem hkept))
  rw [honly _ hlast.1 hlast.2]

/-- Calls that write no page. -/
theorem filter_quiet {α : Type} {p : Flash α} {P : Op → Prop} {X : ExitReason → Prop}
    {R : α → Prop} (hp : p.Sat P X R) (hP : ∀ o, P o → isWrite o = false) (s : σ) :
    (exec h everyCall p s).calls.filter isWrite = [] := by
  rw [List.filter_eq_nil_iff]
  intro o ho
  rw [hP o ((hp.exec h everyCall s).1 o ho)]
  exact Bool.false_ne_true

end Runs

section Written

variable {g : Globals} {pMtd q : MtdPartition} {σ : Type} {h : Handler Op Resp σ}
  {content : Bytes} {pos : σ → ℕ} {s s' : σ}

/-- The place in the file is the start of a page of the image, or its end. -/
def AtPage (pageSize : ℕ) (content : Bytes) (at' : ℕ) : Prop :=
  ∃ i, at' = min (i * pageSize) content.length

/-- A call to read brings the next page of the image, or nothing. -/
theorem readSrc_page (hserves : ServesWhole h pMtd.szImageFileName content pos) {inside : Func}
    {pageSize : ℕ} (hat : AtPage pageSize content (pos s)) {bytes : Chunk pageSize}
    (hread : Ends h (sysOrFail inside (.readSrc pageSize) id) s (.ret bytes) s') :
    pos s' = pos s + bytes.1.length ∧ (bytes.1 ≠ [] → ∃ k, k * pageSize < content.length ∧
      bytes.1 = imageBlock content pageSize k ∧
      pos s' = min ((k + 1) * pageSize) content.length) := by
  obtain ⟨i, hpos⟩ := hat
  obtain ⟨hanswer, hs'⟩ := sysOrFail_inv hread
  have hbytes : (h (.readSrc pageSize) s).1 = some bytes := hanswer
  have hmoved := hserves.moved s _ bytes hbytes
  have hpiece := hserves.whole s _ bytes hbytes
  rw [← hs'] at hmoved
  refine ⟨hmoved, fun hsome => ?_⟩
  have hmore : i * pageSize < content.length := by
    by_contra hend
    rw [hpos, min_eq_right (by omega), List.drop_of_length_le (Nat.le_refl _),
      List.take_nil] at hpiece
    exact hsome hpiece
  have hpos' : pos s = i * pageSize := hpos.trans (min_eq_left hmore.le)
  have hlength : bytes.1.length = min pageSize (content.length - i * pageSize) := by
    rw [hpiece, hpos', List.length_take, List.length_drop]
  rw [hpos'] at hpiece hmoved
  refine ⟨i, hmore, hpiece, ?_⟩
  rw [hmoved, hlength, Nat.succ_mul]
  omega

/-- What some calls of `MtdPartWrite` have done while the place in the file has
moved: nothing has been written and it has not moved, or the page in front of
the new place has been written last, unless the run is dry. -/
def Progress (g : Globals) (pMtd : MtdPartition) (content : Bytes) (calls : List Op)
    (before after : ℕ) : Prop :=
  (calls.filter isWrite = [] ∧ after = before) ∨
    ∃ k offset, k * pMtd.iPageSize < content.length ∧
      after = min ((k + 1) * pMtd.iPageSize) content.length ∧
      (g.cDryRun = false → lastWrite calls =
        some (.pwrite pMtd.uiPartition (paddedPage content pMtd.iPageSize k) offset))

/-- Calls that write nothing and leave the place. -/
theorem progress_none {calls : List Op} (hnone : calls.filter isWrite = []) (at' : ℕ) :
    Progress g pMtd content calls at' at' :=
  .inl ⟨hnone, rfl⟩

theorem Progress.append {calls calls' : List Op} {a b c : ℕ}
    (h₁ : Progress g pMtd content calls a b) (h₂ : Progress g pMtd content calls' b c) :
    Progress g pMtd content (calls ++ calls') a c := by
  rcases h₂ with ⟨hnone, hsame⟩ | ⟨k, offset, hk, hc, hlast⟩
  · unfold Progress lastWrite at h₁ ⊢
    rw [List.filter_append, hnone, List.append_nil, hsame]
    exact h₁
  · refine .inr ⟨k, offset, hk, hc, fun hdry => ?_⟩
    have hpage := hlast hdry
    unfold lastWrite at hpage ⊢
    rw [List.filter_append, List.getLast?_append, hpage, Option.some_or]

theorem Progress.atPage {calls : List Op} {a b : ℕ} (hprogress : Progress g pMtd content calls a b)
    (hat : AtPage pMtd.iPageSize content a) : AtPage pMtd.iPageSize content b := by
  rcases hprogress with ⟨-, hsame⟩ | ⟨k, offset, -, hb, -⟩
  · rw [hsame]
    exact hat
  · exact ⟨k + 1, hb⟩

/-- A call writes no page but one of the image, filled up if it is short. -/
def WritesImage (pMtd : MtdPartition) (content : Bytes) : Op → Prop
  | .pwrite part data _ => part = pMtd.uiPartition ∧
    ∃ k, k * pMtd.iPageSize < content.length ∧ data = paddedPage content pMtd.iPageSize k
  | _ => True

theorem writesImage_of_quiet {o : Op} (ho : isWrite o = false) : WritesImage pMtd content o := by
  cases o <;> first
    | exact trivial
    | exact absurd ho nofun

/-- Plain calls and calls to read write no page. -/
theorem isWrite_of_quiet {o : Op} (ho : Quiet o) : isWrite o = false := by
  cases o <;> first
    | rfl
    | exact absurd ho (by rintro (ho | ho) <;> cases ho)

/-- A pass of the loop of `MtdPartWrite` writes a page of the image. -/
theorem writePass_makes (hserves : ServesWhole h pMtd.szImageFileName content pos)
    (hjffs2 : pMtd.cIsJFFS2 = true) (st : WriteState)
    (hat : AtPage pMtd.iPageSize content (pos s)) :
    Makes h (WritesImage pMtd content) (writePass g pMtd st) s := by
  have hask := mtdPartIsBadBlock_sat pMtd st.iCurrentOffs
  refine makes_seq (makes_of_sat (hask.mono
    (fun o ho => writesImage_of_quiet (isWrite_of_quiet (.inl ho))) (fun _ => id) fun _ => id))
    fun bad s₁ hasked => ?_
  have hkept := position_kept hserves.toServes hasked hask fun _ => reads_of_plain
  cases bad with
  | true => exact fun o ho => absurd ho List.not_mem_nil
  | false =>
    rw [if_neg Bool.false_ne_true]
    refine makes_seq (makes_of_sat (sat_sysOrFail (X := AnyReason) trivial trivial))
      fun bytes s₂ hread => ?_
    split
    · exact fun o ho => absurd ho List.not_mem_nil
    · rename_i hsome
      rw [← hkept] at hat
      obtain ⟨k, hk, hpage, -⟩ := (readSrc_page hserves hat hread).2 hsome
      rw [hpage, hjffs2, fillPage_padded]
      refine makes_seq (makes_of_sat ((writePage_only g pMtd _ _).mono (fun o ho => ?_)
        (fun _ => id) fun _ => id)) fun _ _ _ => fun o ho => absurd ho List.not_mem_nil
      cases hwrite : isWrite o with
      | false => exact writesImage_of_quiet hwrite
      | true =>
        rw [ho hwrite]
        exact ⟨rfl, k, hk, rfl⟩

/-- A pass of the loop of `MtdPartWrite` that goes on or ends the loop. -/
theorem writePass_progress (hserves : ServesWhole h pMtd.szImageFileName content pos)
    (hjffs2 : pMtd.cIsJFFS2 = true) {st : WriteState} {step : WriteState ⊕ WriteState}
    (hat : AtPage pMtd.iPageSize content (pos s))
    (htotal : st.iBytesReadTotal = pos s)
    (hpass : Ends h (writePass g pMtd st) s (.ret step) s') :
    Progress g pMtd content (exec h everyCall (writePass g pMtd st) s).calls (pos s) (pos s') ∧
      Sum.elim (fun st => st.iBytesReadTotal = pos s') (fun st => st.iBytesReadTotal = pos s')
        step := by
  have hsteps : ∀ (st : WriteState) (n : ℕ), st.iBytesReadTotal = n →
      Sum.elim (fun st => st.iBytesReadTotal = n) (fun st => st.iBytesReadTotal = n)
        (st.step pMtd) := fun st n hst =>
    writeState_step_kept (I := fun total _ => total = n) pMtd st hst
  have hask := mtdPartIsBadBlock_sat pMtd st.iCurrentOffs
  obtain ⟨bad, s₁, hasked, hrest⟩ := Ends.split hpass
  have hkept := position_kept hserves.toServes hasked hask fun _ => reads_of_plain
  have hnone := filter_quiet hask (fun o ho => isWrite_of_quiet (.inl ho)) (h := h) s
  have hcalls : (exec h everyCall (writePass g pMtd st) s).calls = _ := hasked.calls_andThen
  rw [hcalls]
  cases bad with
  | true =>
    obtain ⟨hstep, hs'⟩ := hrest.pure_inv
    rw [hs', hkept, hstep]
    exact ⟨progress_none (by rw [List.filter_append, hnone]; rfl) _, hsteps st _ htotal⟩
  | false =>
    rw [if_neg Bool.false_ne_true] at hrest ⊢
    obtain ⟨bytes, s₂, hread, hrest⟩ := Ends.split hrest
    rw [hread.calls_andThen]
    rw [← hkept] at hat htotal ⊢
    obtain ⟨hmoved, hnext⟩ := readSrc_page hserves hat hread
    have hreads : (exec h everyCall (sysOrFail .mtdPartWrite (.readSrc pMtd.iPageSize) id)
        s₁).calls.filter isWrite = [] :=
      filter_quiet (sat_sysOrFail (P := Quiet) (X := AnyReason) (.inr rfl) trivial)
        (fun o ho => isWrite_of_quiet ho) s₁
    split at hrest
    · rename_i hempty
      obtain ⟨hstep, hs'⟩ := hrest.pure_inv
      rw [hempty, List.length_nil, Nat.add_zero] at hmoved
      rw [if_pos hempty, hs', hmoved, hstep]
      refine ⟨progress_none ?_ _, htotal⟩
      rw [List.filter_append, List.filter_append, hnone, hreads]
      rfl
    · rename_i hsome
      obtain ⟨k, hk, hpage, hnew⟩ := hnext hsome
      obtain ⟨u, s₃, hwrite, hrest⟩ := Ends.split hrest
      obtain ⟨hstep, hs'⟩ := hrest.pure_inv
      have hpaged := position_kept hserves.toServes hwrite (writePage_sat g pMtd _ _)
        fun _ => reads_of_paging
      rw [if_neg hsome, hwrite.calls_andThen, hs', hpaged, hstep]
      refine ⟨?_, hsteps (st.add pMtd bytes.1) _ ?_⟩
      · refine (progress_none hnone _).append ((progress_none hreads _).append
          (.append (b := pos s₂) (.inr ⟨k, st.iCurrentOffs, hk, hnew, fun hdry => ?_⟩)
            (progress_none rfl _)))
        rw [lastWrite_page hdry hwrite, hpage, hjffs2, fillPage_padded]
      · rw [hmoved, ← htotal]
        rfl

/-- What the passes of the loop have done when it has ended, by induction over
the passes. -/
theorem writeLoop_progress (hserves : ServesWhole h pMtd.szImageFileName content pos)
    (hjffs2 : pMtd.cIsJFFS2 = true) (fuel : ℕ) {st last : WriteState}
    (hat : AtPage pMtd.iPageSize content (pos s)) (htotal : st.iBytesReadTotal = pos s)
    (hloop : Ends h (Prog.loop (writePass g pMtd) fuel st) s (.ret last) s') :
    Progress g pMtd content (exec h everyCall (Prog.loop (writePass g pMtd) fuel st) s).calls
        (pos s) (pos s') ∧ last.iBytesReadTotal = pos s' := by
  induction fuel generalizing st s with
  | zero => exact absurd hloop.1 nofun
  | succ fuel ih =>
    obtain ⟨step, s₁, hpass, hrest⟩ := Ends.split hloop
    obtain ⟨hprogress, htotal'⟩ := writePass_progress hserves hjffs2 hat htotal hpass
    have hcalls : (exec h everyCall (Prog.loop (writePass g pMtd) (fuel + 1) st) s).calls = _ :=
      hpass.calls_andThen
    rw [hcalls]
    cases step with
    | inl st' =>
      obtain ⟨hmore, hlast⟩ := ih (hprogress.atPage hat) htotal' hrest
      exact ⟨hprogress.append hmore, hlast⟩
    | inr st' =>
      obtain ⟨hlast, hs'⟩ := hrest.ret_inv
      rw [hs', hlast]
      exact ⟨hprogress.append (progress_none rfl _), htotal'⟩

/-- A page that ends with the rest of an image: the rest itself, and behind it
a padding node and zeros when more than twelve bytes are left, or erased cells.
A scanner at the node comes to the end of the page. -/
structure PaddedProperly (rest : Bytes) (pageSize : ℕ) (page : Bytes) : Prop where
  /-- It is one page. -/
  length : page.length = pageSize
  /-- It begins with the bytes of the image. -/
  begins : rest <+: page
  /-- Behind them is a padding node, if there is room for it. -/
  node : ∀ r, pageSize = rest.length + r → r > nodeSize →
    page.drop rest.length =
      nodeHeader jffs2NodetypePadding r ++
        je32 (bitwise Crc32.crc32Polynomial 0 0 (nodeHeader jffs2NodetypePadding r)) ++
          List.replicate (r - nodeSize) 0
  /-- Behind them are erased cells, if there is no room. -/
  erased : ∀ r, pageSize = rest.length + r → r ≤ nodeSize →
    page.drop rest.length = List.replicate r flashErasedByte
  /-- The scanner goes on at the end of the page. -/
  scanned : rest.length + nodeSize < pageSize → scanNode page rest.length = some pageSize

/-- The last page of an image that does not end with a page. -/
theorem paddedPage_proper (content : Bytes) {pageSize : ℕ} (hsize : 0 < pageSize)
    (hbound : pageSize < 2 ^ 32) :
    PaddedProperly (content.drop (content.length - content.length % pageSize)) pageSize
      (paddedPage content pageSize (content.length / pageSize)) := by
  have hmod := Nat.mod_lt content.length hsize
  have hle := Nat.mod_le content.length pageSize
  have hrest : (content.drop (content.length - content.length % pageSize)).length =
      content.length % pageSize := by
    rw [List.length_drop]
    omega
  have hpage : paddedPage content pageSize (content.length / pageSize) =
      content.drop (content.length - content.length % pageSize) ++
        filling (pageSize - content.length % pageSize) := by
    unfold paddedPage
    rw [imageBlock_last content pageSize hsize, hrest, if_pos hmod]
  refine ⟨length_paddedPage .., ?_, fun r hr hroom => ?_, fun r hr hnone => ?_, fun hroom => ?_⟩
  · rw [hpage]
    exact List.prefix_append ..
  · have hleft : pageSize - content.length % pageSize = r := by omega
    rw [hpage, List.drop_left, hleft, filling, if_pos hroom]
    rfl
  · have hleft : pageSize - content.length % pageSize = r := by omega
    rw [hpage, List.drop_left, hleft, filling, if_neg (by omega)]
  · rw [hpage, filling, if_pos (by omega), scanNode_node _ (by omega), hrest]
    congr 1
    omega

/-- The last page of a JFFS2 image: whatever the system answers, the pages
that `MtdPartWrite` writes are those of the image, the short one filled up; and
when it returns, the last page written is the rest of the image with its
padding. -/
theorem last_page_padded (hserves : ServesWhole h pMtd.szImageFileName content pos)
    (hjffs2 : pMtd.cIsJFFS2 = true) (hsize : 0 < pMtd.iPageSize) (hbound : pMtd.iPageSize < 2 ^ 32)
    (hnamed : pMtd.iFileSize = content.length) :
    (∀ g s, Makes h (WritesImage pMtd content) (mtdPartWrite g pMtd) s) ∧
    ∀ g : Globals, g.cDryRun = false → content.length % pMtd.iPageSize ≠ 0 →
      ∀ s q s', Ends h (mtdPartWrite g pMtd) s (.ret q) s' →
        ∃ page offset, lastWrite (exec h everyCall (mtdPartWrite g pMtd) s).calls =
            some (.pwrite pMtd.uiPartition page offset) ∧
          PaddedProperly (content.drop (content.length - content.length % pMtd.iPageSize))
            pMtd.iPageSize page := by
  have hopened : ∀ (s₁ s₂ s₃ : σ) (u v : Unit),
      Ends h (sysOrFail .mtdPartWrite (.openSrc pMtd.szImageFileName) succeeded) s₁ (.ret u) s₂ →
      Ends h (sysOrFail .mtdPartWrite (.lseekMtd pMtd.uiPartition) succeeded) s₂ (.ret v) s₃ →
      pos s₃ = 0 := by
    intro s₁ s₂ s₃ u v hopen hseek
    have hseeks : (sysOrFail .mtdPartWrite (.lseekMtd pMtd.uiPartition) succeeded).Sat Plain
        AnyReason AnyResult := sat_forget (sat_sysOrFail rfl trivial)
    exact (position_kept hserves.toServes hseek hseeks fun _ => reads_of_plain).trans
      (openSrc_front hserves.toServes hopen)
  have hstart : ∀ t, pos t = 0 → AtPage pMtd.iPageSize content (pos t) := fun t ht =>
    ⟨0, by rw [ht, Nat.zero_mul, Nat.zero_min]⟩
  refine ⟨fun g s => ?_, fun g hdry hshort s q s' hrun => ?_⟩
  · refine makes_seq (makes_of_sat (sat_sysOrFail (X := AnyReason) trivial trivial))
      fun _ s₁ _ => ?_
    refine makes_seq (makes_of_sat (sat_sysOrFail (X := AnyReason) trivial trivial))
      fun _ s₂ hopen => ?_
    refine makes_seq (makes_of_sat (sat_sysOrFail (X := AnyReason) trivial trivial))
      fun _ s₃ hseek => ?_
    have hfront := hopened _ _ _ _ _ hopen hseek
    refine makes_seq (makes_loop
      (I := fun st t => AtPage pMtd.iPageSize content (pos t) ∧ st.iBytesReadTotal = pos t)
      (fun st t hst => ⟨writePass_makes hserves hjffs2 st hst.1, fun st' t' hpass => ?_⟩)
      ⟨hstart s₃ hfront, hfront.symm⟩) fun st s₄ _ => ?_
    · obtain ⟨hprogress, htotal⟩ := writePass_progress hserves hjffs2 hst.1 hst.2 hpass
      exact ⟨hprogress.atPage hst.1, htotal⟩
    · refine makes_seq (makes_of_sat (sat_sysOrFail (X := AnyReason) trivial trivial))
        fun _ s₅ _ => ?_
      split
      · exact fun o ho => absurd ho List.not_mem_nil
      · exact fun o ho => absurd ho List.not_mem_nil
  · obtain ⟨_, s₁, hmalloc, hrun⟩ := Ends.split hrun
    obtain ⟨_, s₂, hopen, hrun⟩ := Ends.split hrun
    obtain ⟨_, s₃, hseek, hrun⟩ := Ends.split hrun
    obtain ⟨st, s₄, hloop, hrun⟩ := Ends.split hrun
    obtain ⟨_, s₅, hclose, hrun⟩ := Ends.split hrun
    have hfront := hopened _ _ _ _ _ hopen hseek
    obtain ⟨hloops, htotal⟩ := writeLoop_progress hserves hjffs2 g.fuel (hstart s₃ hfront)
      hfront.symm hloop
    rw [hfront] at hloops
    have hquiet : ∀ {α : Type} {o : Op} {answer : Resp o → Option α}, Quiet o → ∀ (t : σ) (n : ℕ),
        Progress g pMtd content (exec h everyCall (sysOrFail .mtdPartWrite o answer) t).calls n n :=
      fun ho t n => progress_none (filter_quiet (sat_sysOrFail (P := Quiet) (X := AnyReason) ho
        trivial) (fun o ho => isWrite_of_quiet ho) t) n
    split at hrun
    · exact hrun.exit_inv.elim
    · rename_i hsame
      have hend : pos s₄ = content.length := by
        rw [← htotal, ← hnamed]
        exact (not_not.mp hsame).symm
      have hall : Progress g pMtd content (exec h everyCall (mtdPartWrite g pMtd) s).calls 0
          (pos s₄) := by
        unfold mtdPartWrite
        rw [hmalloc.calls_andThen, hopen.calls_andThen, hseek.calls_andThen, hloop.calls_andThen,
          hclose.calls_andThen, if_neg hsame]
        exact (hquiet (o := .malloc pMtd.iPageSize) (.inl rfl) _ _).append
          ((hquiet (.inr rfl) _ _).append
          ((hquiet (o := .lseekMtd pMtd.uiPartition) (.inl rfl) _ _).append (hloops.append ((hquiet (.inr rfl) _ _).append
            (progress_none rfl _)))))
      have hsplit := Nat.div_add_mod content.length pMtd.iPageSize
      rw [hend] at hall
      rcases hall with ⟨-, hzero⟩ | ⟨k, offset, hk, hpast, hlast⟩
      · rw [hzero, Nat.zero_mod] at hshort
        exact absurd rfl hshort
      · have hlower : content.length / pMtd.iPageSize < k + 1 := by
          rw [Nat.div_lt_iff_lt_mul hsize]
          have hle : content.length ≤ (k + 1) * pMtd.iPageSize := by omega
          refine Nat.lt_of_le_of_ne hle fun heq => hshort ?_
          rw [heq, Nat.mul_mod_left]
        have hupper : k ≤ content.length / pMtd.iPageSize :=
          (Nat.le_div_iff_mul_le hsize).mpr hk.le
        have hpage : k = content.length / pMtd.iPageSize := by omega
        rw [hpage] at hlast
        exact ⟨_, offset, hlast hdry, paddedPage_proper content hsize hbound⟩

/-- A partition with pages of sixteen bytes, for an image of three bytes. -/
def paddedPart : MtdPartition :=
  { smallPart true with iPageSize := 16, iFileSize := 3, cIsJFFS2 := true }

/-- Thirteen bytes are left behind three, and a node is padded with a zero. -/
theorem three_bytes_padded :
    ∃ page offset, lastWrite (exec (serveFile (text "abc")) everyCall
        (mtdPartWrite { fuel := 5 } paddedPart) 0).calls = some (.pwrite 0 page offset) ∧
      PaddedProperly (text "abc") 16 page := by
  have hpadded := last_page_padded (serveFile_whole paddedPart.szImageFileName (text "abc")) rfl
    (by decide) (by decide) rfl
  exact hpadded.2 { fuel := 5 } rfl (by decide) 0 _ _ ⟨rfl, rfl⟩

end Written

end MetaDigi.FlashPadding
