import MetaDigi.FlashDevice

/-!
# Writing a partition

`MtdPartWrite` lays the image out over the good pages. The run of its loop on
a system that works is given exactly: which pages are written with what, and
what the flash holds afterwards, for cells that take the bytes written to
them. A dry run reads the image in the same way and writes nothing.
-/

namespace MetaDigi.FlashWriting

open CStrings SystemProgram SystemRuns FlashTypes FlashInit FlashTransfer FlashWorld
open BlockLayout FlashDevice Crc32

/-- A flash whose driver does what it is told, where `program` tells what an
old cell makes of a new byte. -/
structure Programs (env : Env) (program : UInt8 → UInt8 → UInt8) : Prop where
  /-- Erasing erases the range. -/
  erase : ∀ t part start length mem,
    env.alter t (.erase part start length) mem = eraseMem mem part start length
  /-- Writing programs the range. -/
  write : ∀ t part offset data mem,
    env.alter t (.write part offset data) mem = writeMem program mem part offset data
  /-- Writing out-of-band data leaves the cells of the pages alone. -/
  oob : ∀ t part start data mem, env.alter t (.writeOob part start data) mem = mem

/-- The cells from an offset on take the bytes that are to be written. -/
def Accepts (program : UInt8 → UInt8 → UInt8) (cells : ℕ → UInt8) (offset : ℕ) (data : Bytes) :
    Prop :=
  ∀ a b, offset ≤ a → data[a - offset]? = some b → program (cells a) b = b

/-- The cells of all partitions with those of one partition replaced. -/
def setPart (mem : FlashMem) (part : ℕ) (cells : ℕ → UInt8) : FlashMem :=
  fun q => if q = part then cells else mem q

/-- The partition has the new cells. -/
theorem setPart_same (mem : FlashMem) (part : ℕ) (cells : ℕ → UInt8) :
    setPart mem part cells part = cells := if_pos rfl

/-- Only the last cells count. -/
theorem setPart_setPart (mem : FlashMem) (part : ℕ) (cells cells' : ℕ → UInt8) :
    setPart (setPart mem part cells) part cells' = setPart mem part cells' := by
  funext q
  unfold setPart
  split <;> rfl

/-- The same cells again. -/
theorem setPart_self (mem : FlashMem) (part : ℕ) : setPart mem part (mem part) = mem := by
  funext q
  unfold setPart
  split
  · rename_i h
    rw [h]
  · rfl

/-- What accepting cells hold after writing is what was written. -/
theorem writeMem_accepts {program : UInt8 → UInt8 → UInt8} {mem : FlashMem} {part offset : ℕ}
    {data : Bytes} (h : Accepts program (mem part) offset data) :
    writeMem program mem part offset data = setPart mem part (put (mem part) offset data) := by
  funext q a
  unfold writeMem setPart
  by_cases hq : q = part
  · rw [if_pos hq, hq]
    unfold put
    by_cases hle : offset ≤ a
    · rw [if_pos hle]
      by_cases hlt : a < offset + data.length
      · have hindex : a - offset < data.length := by omega
        have hbyte := List.getElem?_eq_getElem hindex
        rw [if_pos ⟨rfl, hle, hlt⟩, List.getD_eq_getElem?_getD, hbyte, Option.getD_some,
          Option.getD_some, h a _ hle hbyte]
      · rw [if_neg fun h => hlt h.2.2, List.getElem?_eq_none (by omega), Option.getD_none]
    · rw [if_neg hle, if_neg fun h => hle h.2.1]
  · rw [if_neg hq, if_neg fun h => hq h.1]

/-- Two bytes. -/
theorem length_je16 (n : BitVec 16) : (je16 n).length = 2 := rfl

/-- Four bytes. -/
theorem length_je32 (n : BitVec 32) : (je32 n).length = 4 := rfl

/-- A node header has its size. -/
theorem length_node (uhNodeType : BitVec 16) (iLen : ℕ) :
    (mtdPartInitJFFS2Node uhNodeType iLen).length = nodeSize := by
  unfold mtdPartInitJFFS2Node
  simp only [List.length_append, length_je16, length_je32, nodeSize]

/-- A page is filled up. -/
theorem length_fillPage (cIsJFFS2 : Bool) {iBlockSize : ℕ} {bytes : Bytes}
    (h : bytes.length ≤ iBlockSize) : (fillPage cIsJFFS2 iBlockSize bytes).length = iBlockSize := by
  unfold fillPage
  split
  · split
    · rename_i hroom
      rw [Bool.and_eq_true, decide_eq_true_eq] at hroom
      rw [List.length_append, List.length_append, length_node, List.length_replicate]
      omega
    · rw [List.length_append, List.length_replicate]
      omega
  · omega

/-- A page begins with the bytes of the image. -/
theorem fillPage_begins (cIsJFFS2 : Bool) (iBlockSize : ℕ) (bytes : Bytes) :
    bytes <+: fillPage cIsJFFS2 iBlockSize bytes := by
  unfold fillPage
  split
  · split
    · rw [List.append_assoc]
      exact List.prefix_append ..
    · exact List.prefix_append ..
  · exact List.prefix_refl _

/-- Without JFFS2 a page is filled up with erased cells. -/
theorem fillPage_plain (iBlockSize : ℕ) (bytes : Bytes) :
    fillPage false iBlockSize bytes =
      bytes ++ List.replicate (iBlockSize - bytes.length) flashErasedByte := by
  unfold fillPage
  split
  · rw [Bool.false_and, if_neg Bool.false_ne_true]
  · rw [Nat.sub_eq_zero_of_le (by omega), List.replicate_zero, List.append_nil]

/-- A full page is left as it is. -/
theorem fillPage_full (cIsJFFS2 : Bool) {iBlockSize : ℕ} {bytes : Bytes}
    (h : bytes.length = iBlockSize) : fillPage cIsJFFS2 iBlockSize bytes = bytes := by
  unfold fillPage
  rw [if_neg (by omega)]

section Page

variable (g : Globals) (pMtd : MtdPartition)

/-- What is really written: nothing in a dry run. -/
def written (pages : List (ℕ × Bytes)) : List (ℕ × Bytes) := if g.cDryRun then [] else pages

/-- Pages after others. -/
theorem written_append (pages pages' : List (ℕ × Bytes)) :
    written g (pages ++ pages') = written g pages ++ written g pages' := by
  unfold written
  split <;> rfl

/-- Without a dry run all pages are written. -/
theorem written_wet (hdry : g.cDryRun = false) (pages : List (ℕ × Bytes)) :
    written g pages = pages := by
  rw [written, if_neg (by rw [hdry]; exact Bool.false_ne_true)]

/-- The state after pages have been written. -/
def afterWrites (w : World) (pages : List (ℕ × Bytes)) : World :=
  { w with
    mem := setPart w.mem pMtd.uiPartition (putAll (w.mem pMtd.uiPartition) (written g pages))
    log := w.log ++ (written g pages).map fun page =>
      .write pMtd.uiPartition page.1 page.2 }

/-- Without a page nothing changes. -/
theorem afterWrites_nil (w : World) : afterWrites g pMtd w [] = w := by
  have hnone : written g [] = [] := by
    unfold written
    split <;> rfl
  unfold afterWrites
  rw [hnone]
  simp only [putAll, List.foldl_nil, List.map_nil, List.append_nil, setPart_self]

/-- Pages after others. -/
theorem afterWrites_append (w : World) (pages pages' : List (ℕ × Bytes)) :
    afterWrites g pMtd w (pages ++ pages') =
      afterWrites g pMtd (afterWrites g pMtd w pages) pages' := by
  unfold afterWrites
  simp only [written_append, List.map_append, List.append_assoc, setPart_same, setPart_setPart,
    putAll, List.foldl_append]

variable {env : Env} {program : UInt8 → UInt8 → UInt8} (hworks : Works env)
  (hprog : Programs env program)

include hworks hprog

/-- The first attempt to write a page is good. -/
theorem writeAttempts_ends {page : Bytes} {offset : ℕ} (left : ℕ) (buffer : Bytes) {w : World}
    (hlen : page.length = pMtd.iPageSize)
    (hinside : offset + pMtd.iPageSize ≤ (env.info pMtd.uiPartition).size)
    (hbuffer : (!g.cDryRun && g.cMarkBadBlocks) = true → buffer.length = pMtd.iPageSize)
    (haccepts : g.cDryRun = false → Accepts program (w.mem pMtd.uiPartition) offset page) :
    ∃ t, Ends (system env) (writeAttempts g pMtd page offset (left + 1) buffer) w (.ret true)
      { afterWrites g pMtd w [(offset, page)] with time := t } := by
  unfold writeAttempts pwriteUnlessDry
  cases hdry : g.cDryRun with
  | true =>
    have hsame : afterWrites g pMtd w [(offset, page)] = w := by
      have hnone : written g [(offset, page)] = [] := by rw [written, if_pos hdry]
      unfold afterWrites
      rw [hnone]
      simp only [putAll, List.foldl_nil, List.map_nil, List.append_nil, setPart_self]
    refine ⟨w.time, ?_⟩
    rw [hsame, if_pos rfl]
    refine Ends.andThen (ends_pure (page.length : ℤ) w) ?_
    rw [if_neg (not_not.mpr rfl), Bool.not_true, Bool.false_and, if_neg Bool.false_ne_true]
    exact ends_pure _ _
  | false =>
    have hpage := written_wet g hdry [(offset, page)]
    have hstate : (system env (.pwrite pMtd.uiPartition page offset) w) =
        ((page.length : ℤ), { afterWrites g pMtd w [(offset, page)] with time := w.time + 1 }) := by
      rw [system_works hworks]
      dsimp only [respond, World.touch]
      rw [if_neg Bool.false_ne_true, hprog.write, writeMem_accepts (haccepts hdry)]
      unfold afterWrites
      rw [hpage]
      rfl
    rw [if_neg Bool.false_ne_true]
    have hpwrite := ends_perform (E := ExitReason) (h := system env)
      (.pwrite pMtd.uiPartition page offset) w
    rw [hstate] at hpwrite
    cases hmark : g.cMarkBadBlocks with
    | false =>
      refine ⟨w.time + 1, Ends.andThen hpwrite ?_⟩
      rw [if_neg (not_not.mpr rfl), Bool.not_false, Bool.true_and, if_neg Bool.false_ne_true]
      exact ends_pure _ _
    | true =>
      have hread : (system env (.pread pMtd.uiPartition pMtd.iPageSize offset)
          { afterWrites g pMtd w [(offset, page)] with time := w.time + 1 }).1.map Subtype.val =
          some page := by
        rw [system_works hworks]
        dsimp only [respond]
        rw [if_neg Bool.false_ne_true, Option.map_some]
        dsimp only [afterWrites]
        rw [readMem_inside _ hinside, setPart_same, hpage, ← hlen]
        exact congrArg some (unitCells_put _ offset page)
      obtain ⟨bytes, hbytes, hval⟩ := Option.map_eq_some_iff.mp hread
      have hsys : (system env (.pread pMtd.uiPartition pMtd.iPageSize offset)
          { afterWrites g pMtd w [(offset, page)] with time := w.time + 1 }) =
          (some bytes, { afterWrites g pMtd w [(offset, page)] with time := w.time + 1 + 1 }) := by
        rw [← hbytes, system_works hworks]
        rfl
      have hpread := ends_perform (E := ExitReason) (h := system env)
        (.pread pMtd.uiPartition pMtd.iPageSize offset)
        { afterWrites g pMtd w [(offset, page)] with time := w.time + 1 }
      rw [hsys] at hpread
      have hfull : fillBuffer buffer page = page := by
        have hcells := hbuffer (by rw [hdry, hmark]; rfl)
        rw [fillBuffer, List.drop_eq_nil_of_le (by omega), List.append_nil]
      refine ⟨w.time + 1 + 1, Ends.andThen hpwrite ?_⟩
      rw [if_neg (not_not.mpr rfl), Bool.not_false, Bool.true_and, if_pos rfl]
      refine Ends.andThen hpread ?_
      dsimp only
      rw [hval, hfull, if_neg (not_not.mpr rfl)]
      exact ends_pure _ _

/-- A page of accepting cells is written. -/
theorem writePage_ends {page : Bytes} (offset : ℕ) {w : World}
    (hlen : page.length = pMtd.iPageSize)
    (hinside : offset + pMtd.iPageSize ≤ (env.info pMtd.uiPartition).size)
    (haccepts : g.cDryRun = false → Accepts program (w.mem pMtd.uiPartition) offset page) :
    ∃ t, Ends (system env) (writePage g pMtd page offset) w (.ret ())
      { afterWrites g pMtd w [(offset, page)] with time := t } := by
  unfold writePage readBackBuffer
  by_cases hcheck : (!g.cDryRun && g.cMarkBadBlocks) = true
  · rw [if_pos hcheck]
    have hcells := (env.memory (w.time + 1) pMtd.iPageSize).2
    have hmalloc : Ends (system env) (sysOrFail .mtdPartWrite (.malloc pMtd.iPageSize)
        (fun r => r.map Subtype.val)) w (.ret (env.memory (w.time + 1) pMtd.iPageSize).1)
        { w with time := w.time + 1 } :=
      sysOrFail_ends (system_works hworks w _) rfl
    obtain ⟨t, hattempt⟩ := writeAttempts_ends g pMtd hworks hprog 2 _
      (w := { w with time := w.time + 1 }) hlen hinside (fun _ => hcells) haccepts
    exact ⟨t, Ends.andThen hmalloc (Ends.andThen hattempt (ends_pure _ _))⟩
  · rw [if_neg hcheck]
    obtain ⟨t, hattempt⟩ := writeAttempts_ends g pMtd hworks hprog 2 []
      hlen hinside (fun h => absurd h hcheck) haccepts
    exact ⟨t, Ends.andThen (ends_pure _ _) (Ends.andThen hattempt (ends_pure _ _))⟩

end Page

section Loop

variable (g : Globals) (pMtd : MtdPartition)

/-- The pages that are written for the rest of an image over some units. -/
def pagesOf (units : List ℕ) (rest : Bytes) : List (ℕ × Bytes) :=
  (layout pMtd.iPageSize units rest).map fun page =>
    (page.1, fillPage pMtd.cIsJFFS2 pMtd.iPageSize page.2)

/-- The pages that are written are the first ones. -/
theorem pagesOf_offsets (hpos : 0 < pMtd.iPageSize) (units : List ℕ) (rest : Bytes) :
    (pagesOf pMtd units rest).map Prod.fst =
      units.take ((rest.length + pMtd.iPageSize - 1) / pMtd.iPageSize) := by
  rw [← layout_offsets hpos, pagesOf, List.map_map]
  rfl

/-- Whole pages are written. -/
theorem pagesOf_length (units : List ℕ) (rest : Bytes) :
    ∀ page ∈ pagesOf pMtd units rest, page.2.length = pMtd.iPageSize := by
  intro page hpage
  obtain ⟨piece, hpiece, rfl⟩ := List.mem_map.mp hpage
  exact length_fillPage _ (layout_piece_length _ _ _ piece hpiece)

/-- The state after some bytes of the open file have been read. -/
def afterReading (w : World) (path : Path) (pos : ℕ) (bytes : Bytes) : World :=
  { w with src := some (path, pos + bytes.length), lastRead := w.lastRead ++ bytes }

/-- Reading and writing twice is reading and writing more. -/
theorem afterWrites_twice (w : World) (path : Path) (pos t : ℕ) (a b : Bytes)
    (pages pages' : List (ℕ × Bytes)) :
    afterWrites g pMtd (afterReading { afterWrites g pMtd (afterReading w path pos a) pages with
        time := t } path (pos + a.length) b) pages' =
      { afterWrites g pMtd (afterReading w path pos (a ++ b)) (pages ++ pages') with
        time := t } := by
  rw [afterWrites_append]
  simp only [afterWrites, afterReading, List.length_append, List.append_assoc, Nat.add_assoc,
    setPart_same, setPart_setPart]

/-- The rest of a file behind the next piece. -/
theorem drop_piece (content : Bytes) (pos size : ℕ) :
    content.drop (pos + ((content.drop pos).take size).length) = (content.drop pos).drop size := by
  rw [← List.drop_drop, List.length_take]
  rcases Nat.le_total size (content.drop pos).length with hle | hle
  · rw [Nat.min_eq_left hle]
  · rw [Nat.min_eq_right hle, List.drop_length, List.drop_eq_nil_of_le hle]

/-- Writing to other cells does not matter to accepting ones. -/
theorem accepts_put {program : UInt8 → UInt8 → UInt8} {cells : ℕ → UInt8} {o o' : ℕ}
    {data data' : Bytes} (h : Accepts program cells o' data') (hafter : o + data.length ≤ o') :
    Accepts program (put cells o data) o' data' := by
  intro a b hle hb
  rw [put_outside cells (.inr (by omega))]
  exact h a b hle hb

/-- Writing a page takes nothing from the pages behind it. -/
theorem accepts_behind {program : UInt8 → UInt8 → UInt8} {cells : ℕ → UInt8} {bad : ℕ → Bool}
    {i k : ℕ} {rest data : Bytes} (hpos : 0 < pMtd.iPageSize) (hdata : data.length ≤ pMtd.iPageSize)
    {page : ℕ × Bytes} (hpage : page ∈ pagesOf pMtd (goodUnits bad pMtd.iPageSize (i + 1) k) rest)
    (h : Accepts program cells page.1 page.2) :
    Accepts program (put cells (i * pMtd.iPageSize) (fillPage pMtd.cIsJFFS2 pMtd.iPageSize data))
      page.1 page.2 := by
  have hunit : page.1 ∈ goodUnits bad pMtd.iPageSize (i + 1) k := by
    have hmem := List.mem_map_of_mem (f := Prod.fst) hpage
    rw [pagesOf_offsets pMtd hpos] at hmem
    exact List.mem_of_mem_take hmem
  obtain ⟨j, hj, -, hpj, -⟩ := (mem_goodUnits _ _ _ _ _).mp hunit
  refine accepts_put h ?_
  rw [length_fillPage _ hdata, hpj, ← Nat.succ_mul]
  exact Nat.mul_le_mul_right _ hj

variable {env : Env} {program : UInt8 → UInt8 → UInt8} (hg : Geometry env pMtd.uiPartition)
  (hd : Describes env pMtd)

include hg hd

/-- A pass goes on as long as there are pages. -/
theorem writeState_step {st : WriteState} {i : ℕ} (hoff : st.iCurrentOffs = i * pMtd.iPageSize) :
    st.step pMtd =
      if i + 1 < pageCount env pMtd.uiPartition then
        .inl { st with iCurrentOffs := (i + 1) * pMtd.iPageSize }
      else .inr { st with iCurrentOffs := (i + 1) * pMtd.iPageSize } := by
  have hpos := hd.page_pos hg
  have hsize := hd.size_eq hg
  unfold WriteState.step
  dsimp only
  rw [hoff, ← Nat.succ_mul, hsize]
  by_cases hlt : i + 1 < pageCount env pMtd.uiPartition
  · rw [if_pos hlt, if_pos (Nat.mul_lt_mul_of_pos_right hlt hpos)]
  · rw [if_neg hlt, if_neg fun h => hlt (Nat.lt_of_mul_lt_mul_right h)]

variable (hworks : Works env) (hprog : Programs env program) {st : WriteState} {w : World}
  {i : ℕ} (hi : i < pageCount env pMtd.uiPartition)
  (hoff : st.iCurrentOffs = i * pMtd.iPageSize)

/-- The start of a page lies in the partition. -/
theorem page_inside {i : ℕ} (hi : i < pageCount env pMtd.uiPartition) :
    i * pMtd.iPageSize + pMtd.iPageSize ≤ (env.info pMtd.uiPartition).size := by
  rw [← Nat.succ_mul, hd.page, ← hg.pages_mul]
  exact Nat.mul_le_mul_right _ hi

include hworks hi hoff

/-- Asking about the block of a page. -/
theorem askPage_ends :
    Ends (system env) (mtdPartIsBadBlock pMtd st.iCurrentOffs) w
      (.ret (env.badAt pMtd.uiPartition (i * pMtd.iPageSize))) { w with time := w.time + 1 } := by
  have hpos := hd.page_pos hg
  have hinside := page_inside pMtd hg hd hi
  rw [hoff]
  exact mtdPartIsBadBlock_ends hworks pMtd w _ (by omega)

/-- A pass over a page of a bad block. -/
theorem writePass_bad (hbad : env.badAt pMtd.uiPartition (i * pMtd.iPageSize) = true) :
    Ends (system env) (writePass g pMtd st) w
      (.ret (if i + 1 < pageCount env pMtd.uiPartition then
          .inl { st with iCurrentOffs := (i + 1) * pMtd.iPageSize }
        else .inr { st with iCurrentOffs := (i + 1) * pMtd.iPageSize }))
      { w with time := w.time + 1 } := by
  have hask := askPage_ends pMtd hg hd hworks (w := w) hi hoff
  rw [hbad] at hask
  refine Ends.andThen hask ?_
  rw [if_pos rfl, writeState_step pMtd hg hd hoff]
  exact ends_pure _ _

variable {path : Path} {pos : ℕ} (hsrc : w.src = some (path, pos))

include hsrc

/-- A pass that finds the end of the image. -/
theorem writePass_end (hgood : env.badAt pMtd.uiPartition (i * pMtd.iPageSize) = false)
    (hempty : piece w.files path pos pMtd.iPageSize = []) :
    ∃ t, Ends (system env) (writePass g pMtd st) w (.ret (.inr st)) { w with time := t } := by
  have hask := askPage_ends pMtd hg hd hworks (w := w) hi hoff
  rw [hgood] at hask
  obtain ⟨bytes, hbytes, hread⟩ := readSrc_ends hworks { w with time := w.time + 1 }
    .mtdPartWrite pMtd.iPageSize hsrc
  have hnil : bytes.1 = [] := hbytes.trans hempty
  have hstate : ({ w with
      time := w.time + 1 + 1
      src := some (path, pos + bytes.1.length)
      lastRead := w.lastRead ++ bytes.1 } : World) = { w with time := w.time + 1 + 1 } := by
    rw [hnil, List.length_nil, List.append_nil, hsrc]
    rfl
  refine ⟨w.time + 1 + 1, Ends.andThen hask ?_⟩
  rw [if_neg Bool.false_ne_true]
  rw [← hstate]
  refine Ends.andThen hread ?_
  rw [if_pos hnil]
  exact ends_pure _ _

include hprog

/-- A pass that writes a page. -/
theorem writePass_page (hgood : env.badAt pMtd.uiPartition (i * pMtd.iPageSize) = false)
    (hmore : piece w.files path pos pMtd.iPageSize ≠ [])
    (haccepts : g.cDryRun = false → Accepts program (w.mem pMtd.uiPartition) (i * pMtd.iPageSize)
      (fillPage pMtd.cIsJFFS2 pMtd.iPageSize (piece w.files path pos pMtd.iPageSize))) :
    ∃ t, Ends (system env) (writePass g pMtd st) w
      (.ret (if i + 1 < pageCount env pMtd.uiPartition then
          .inl { st.add pMtd (piece w.files path pos pMtd.iPageSize) with
            iCurrentOffs := (i + 1) * pMtd.iPageSize }
        else .inr { st.add pMtd (piece w.files path pos pMtd.iPageSize) with
            iCurrentOffs := (i + 1) * pMtd.iPageSize }))
      { afterWrites g pMtd (afterReading w path pos (piece w.files path pos pMtd.iPageSize))
          [(i * pMtd.iPageSize, fillPage pMtd.cIsJFFS2 pMtd.iPageSize
            (piece w.files path pos pMtd.iPageSize))] with time := t } := by
  have hask := askPage_ends pMtd hg hd hworks (w := w) hi hoff
  rw [hgood] at hask
  obtain ⟨bytes, hbytes, hread⟩ := readSrc_ends hworks { w with time := w.time + 1 }
    .mtdPartWrite pMtd.iPageSize hsrc
  have hpiece : bytes.1 = piece w.files path pos pMtd.iPageSize := hbytes
  rw [← hpiece] at hmore haccepts ⊢
  have hlen := length_fillPage pMtd.cIsJFFS2 bytes.2
  obtain ⟨t, hwrite⟩ := writePage_ends g pMtd hworks hprog (i * pMtd.iPageSize)
    (w := { afterReading w path pos bytes.1 with time := w.time + 1 + 1 }) hlen
    (page_inside pMtd hg hd hi) haccepts
  refine ⟨t, Ends.andThen hask (Ends.andThen hread ?_)⟩
  rw [if_neg hmore, hoff]
  have hadd : (st.add pMtd bytes.1).iCurrentOffs = i * pMtd.iPageSize := hoff
  refine Ends.andThen hwrite ?_
  rw [writeState_step pMtd hg hd hadd]
  exact ends_pure _ _

omit hoff hsrc hi in
/-- The loop over the remaining pages, if there are any. -/
theorem writeLoop_ends (k i fuel : ℕ) {st : WriteState} {w : World} {path : Path} {pos : ℕ}
    {content : Bytes} (hoff : st.iCurrentOffs = i * pMtd.iPageSize)
    (hk : i + k = pageCount env pMtd.uiPartition) (hfuel : k ≤ fuel)
    (hsrc : w.src = some (path, pos)) (hfile : w.files path = some content)
    (haccepts : g.cDryRun = false → ∀ page ∈ pagesOf pMtd
      (goodUnits (env.badAt pMtd.uiPartition) pMtd.iPageSize i k) (content.drop pos),
      Accepts program (w.mem pMtd.uiPartition) page.1 page.2) :
    ∃ t st' bytes, bytes = (content.drop pos).take
        ((goodUnits (env.badAt pMtd.uiPartition) pMtd.iPageSize i k).length * pMtd.iPageSize) ∧
      st'.iBytesReadTotal = st.iBytesReadTotal + bytes.length ∧
      st'.uiCRC32 =
        (if pMtd.cChecksumCalculated then st.uiCRC32 else crc32 st.uiCRC32 bytes) ∧
      Ends (system env)
        (if i < pageCount env pMtd.uiPartition then Prog.loop (writePass g pMtd) fuel st
          else .ret st) w (.ret st')
        { afterWrites g pMtd (afterReading w path pos bytes) (pagesOf pMtd
          (goodUnits (env.badAt pMtd.uiPartition) pMtd.iPageSize i k) (content.drop pos))
          with time := t } := by
  have hread_nil : ∀ (w : World) (pos : ℕ), w.src = some (path, pos) →
      afterReading w path pos [] = w := by
    intro w pos hsrc
    rw [afterReading, List.length_nil, Nat.add_zero, List.append_nil, ← hsrc]
  have hcrc_nil : ∀ crc : Crc, crc = if pMtd.cChecksumCalculated then crc else crc32 crc [] := by
    intro crc
    rw [crc32_nil, ite_self]
  induction k generalizing i fuel st w pos with
  | zero =>
    refine ⟨w.time, st, [], (List.take_zero).symm.trans (by rw [goodUnits, List.length_nil,
      Nat.zero_mul]), rfl, hcrc_nil _, ?_⟩
    have hnone : pagesOf pMtd (goodUnits (env.badAt pMtd.uiPartition) pMtd.iPageSize i 0)
        (content.drop pos) = [] := rfl
    rw [if_neg (by omega), hread_nil w pos hsrc, hnone, afterWrites_nil]
    exact ends_ret _ _
  | succ k ih =>
    obtain ⟨fuel, rfl⟩ := Nat.exists_eq_add_one_of_ne_zero (Nat.ne_of_gt (by omega : 0 < fuel))
    have hi : i < pageCount env pMtd.uiPartition := by omega
    rw [if_pos hi]
    cases hbad : env.badAt pMtd.uiPartition (i * pMtd.iPageSize) with
    | true =>
      rw [goodUnits_bad _ _ hbad] at haccepts ⊢
      have hpass := writePass_bad g pMtd hg hd hworks (w := w) hi hoff hbad
      have hoff' : ({ st with iCurrentOffs := (i + 1) * pMtd.iPageSize } : WriteState).iCurrentOffs =
          (i + 1) * pMtd.iPageSize := rfl
      obtain ⟨t, st', bytes, hbytes, htotal, hcrc, hrest⟩ := ih (i + 1) fuel
        (w := { w with time := w.time + 1 }) hoff' (by omega) (by omega) hsrc hfile haccepts
      exact ⟨t, st', bytes, hbytes, htotal, hcrc, hpass.loop_test hrest⟩
    | false =>
      have hpiece : piece w.files path pos pMtd.iPageSize =
          (content.drop pos).take pMtd.iPageSize := by
        rw [piece, hfile, Option.getD_some]
      have hpos := hd.page_pos hg
      rw [goodUnits_good _ _ hbad] at haccepts ⊢
      by_cases hend : content.drop pos = []
      · have hempty : piece w.files path pos pMtd.iPageSize = [] := by
          rw [hpiece, hend, List.take_nil]
        obtain ⟨t, hpass⟩ := writePass_end g pMtd hg hd hworks hi hoff hsrc hbad hempty
        refine ⟨t, st, [], by rw [hend, List.take_nil], rfl, hcrc_nil _, ?_⟩
        rw [hread_nil w pos hsrc, pagesOf, hend, layout_nil, List.map_nil, afterWrites_nil]
        exact hpass.loop_last
      · have hmore : piece w.files path pos pMtd.iPageSize ≠ [] := by
          rw [hpiece]
          intro hnil
          rcases List.take_eq_nil_iff.mp hnil with h | h
          · omega
          · exact hend h
        rw [pagesOf, layout_cons hend, List.map_cons] at haccepts
        obtain ⟨t, hpass⟩ := writePass_page g pMtd hg hd hworks hprog hi hoff hsrc hbad hmore
          (fun hdry => by rw [hpiece]; exact haccepts hdry _ (List.mem_cons_self ..))
        rw [hpiece] at hpass
        have hafter : g.cDryRun = false → ∀ page ∈ pagesOf pMtd
            (goodUnits (env.badAt pMtd.uiPartition) pMtd.iPageSize (i + 1) k)
            (content.drop (pos + ((content.drop pos).take pMtd.iPageSize).length)),
            Accepts program (setPart w.mem pMtd.uiPartition (putAll (w.mem pMtd.uiPartition)
              (written g [(i * pMtd.iPageSize, fillPage pMtd.cIsJFFS2 pMtd.iPageSize
                ((content.drop pos).take pMtd.iPageSize))])) pMtd.uiPartition)
              page.1 page.2 := by
          intro hdry page hpage
          rw [drop_piece] at hpage
          rw [setPart_same, written_wet g hdry]
          exact accepts_behind pMtd hpos (List.length_take_le ..) hpage
            (haccepts hdry page (List.mem_cons_of_mem _ hpage))
        have hoff' : ({ st.add pMtd ((content.drop pos).take pMtd.iPageSize) with
            iCurrentOffs := (i + 1) * pMtd.iPageSize } : WriteState).iCurrentOffs =
            (i + 1) * pMtd.iPageSize := rfl
        obtain ⟨t', st', bytes, hbytes, htotal, hcrc, hrest⟩ := ih (i + 1) fuel hoff' (by omega)
          (by omega) (w := { afterWrites g pMtd (afterReading w path pos
            ((content.drop pos).take pMtd.iPageSize)) [(i * pMtd.iPageSize, fillPage pMtd.cIsJFFS2
              pMtd.iPageSize ((content.drop pos).take pMtd.iPageSize))] with time := t })
          rfl hfile hafter
        rw [drop_piece] at hbytes hrest
        rw [afterWrites_twice] at hrest
        refine ⟨t', st', (content.drop pos).take pMtd.iPageSize ++ bytes, ?_, ?_, ?_, ?_⟩
        · rw [hbytes, List.length_cons, Nat.succ_mul, Nat.add_comm _ pMtd.iPageSize, List.take_add]
        · rw [htotal, List.length_append]
          dsimp only [WriteState.add]
          omega
        · rw [hcrc]
          dsimp only [WriteState.add]
          split
          · rfl
          · exact crc32_append _ _ _
        · rw [pagesOf, layout_cons hend, List.map_cons]
          exact hpass.loop_test hrest

end Loop

section Whole

variable (g : Globals) (pMtd : MtdPartition) {env : Env} {program : UInt8 → UInt8 → UInt8}

/-- The offsets of the good pages of a partition. -/
def goodPages (env : Env) (part : ℕ) : List ℕ :=
  goodUnits (env.badAt part) (pageSize env part) 0 (pageCount env part)

/-- What of an image goes into the good pages. -/
def fitting (env : Env) (part : ℕ) (content : Bytes) : Bytes :=
  content.take (goodBytes env part)

/-- The state after an image has been written. -/
def afterWriting (env : Env) (w : World) (content : Bytes) : World :=
  { afterWrites g pMtd w (pagesOf pMtd (goodPages env pMtd.uiPartition) content) with
    src := none
    lastRead := fitting env pMtd.uiPartition content }

/-- The good pages have all good bytes. -/
theorem length_goodPages {part : ℕ} (hg : Geometry env part) :
    (goodPages env part).length * pageSize env part = goodBytes env part := by
  rw [← hg.length_image fun _ _ => 0, image, length_goodCells, goodPages]

variable (hg : Geometry env pMtd.uiPartition) (hd : Describes env pMtd) (hworks : Works env)
  (hprog : Programs env program)

include hg hd

/-- The good pages begin with the image once it has been written, and behind
it with what its last page was filled with. -/
theorem image_written {mem : FlashMem} {cells : ℕ → UInt8} {content : Bytes}
    (hcells : mem pMtd.uiPartition =
      putAll cells (pagesOf pMtd (goodPages env pMtd.uiPartition) content))
    (hfits : content.length ≤ goodBytes env pMtd.uiPartition) :
    ∃ tail, (tail = [] ∨ ∃ bytes, fillPage pMtd.cIsJFFS2 pMtd.iPageSize bytes = bytes ++ tail) ∧
      (image env pMtd.uiPartition mem).take
        ((content.length + pMtd.iPageSize - 1) / pMtd.iPageSize * pMtd.iPageSize) =
          content ++ tail := by
  have hpos := hd.page_pos hg
  have hpages := pagesOf_offsets pMtd hpos (goodPages env pMtd.uiPartition) content
  have hsorted : ((pagesOf pMtd (goodPages env pMtd.uiPartition) content).map Prod.fst).Pairwise
      (fun a b => a + pMtd.iPageSize ≤ b) := by
    rw [hpages, hd.page]
    exact (goodUnits_pairwise _ _ _ _).sublist (List.take_sublist _ _)
  have hstored := unitCells_putAll cells _
    (pagesOf_length pMtd (goodPages env pMtd.uiPartition) content) hsorted
  obtain ⟨tail, htail, hfilled⟩ := layout_filled (fillPage_begins pMtd.cIsJFFS2 pMtd.iPageSize)
    (fun _ => fillPage_full pMtd.cIsJFFS2) (goodPages env pMtd.uiPartition) content
  refine ⟨tail, htail, ?_⟩
  have hroom : content.length ≤ (goodPages env pMtd.uiPartition).length * pMtd.iPageSize := by
    rw [hd.page, length_goodPages hg]
    exact hfits
  have hdata : (pagesOf pMtd (goodPages env pMtd.uiPartition) content).flatMap Prod.snd =
      content ++ tail := by
    rw [pagesOf, List.flatMap_map, hfilled, List.take_of_length_le hroom]
  rw [hpages, hdata] at hstored
  have himage : image env pMtd.uiPartition mem =
      (goodPages env pMtd.uiPartition).flatMap (unitCells (mem pMtd.uiPartition) pMtd.iPageSize) := by
    rw [hd.page]
    rfl
  rw [himage, take_units, hcells, hstored]

/-- The good pages begin with the image once it has been written. -/
theorem image_take_written {mem : FlashMem} {cells : ℕ → UInt8} {content : Bytes}
    (hcells : mem pMtd.uiPartition =
      putAll cells (pagesOf pMtd (goodPages env pMtd.uiPartition) content))
    (hfits : content.length ≤ goodBytes env pMtd.uiPartition) :
    (image env pMtd.uiPartition mem).take content.length = content := by
  have hpos := hd.page_pos hg
  obtain ⟨tail, -, htake⟩ := image_written pMtd hg hd hcells hfits
  rw [← Nat.min_eq_left (le_ceil_mul hpos content.length), ← List.take_take, htake,
    List.take_left]

include hworks hprog

/-- `MtdPartWrite` writes what fits of the image, on a system that works. It
leaves when the image has not the size that the record says. -/
theorem mtdPartWrite_ends (w : World) {content : Bytes}
    (hfile : w.files pMtd.szImageFileName = some content)
    (hfuel : pageCount env pMtd.uiPartition ≤ g.fuel)
    (haccepts : g.cDryRun = false →
      ∀ page ∈ pagesOf pMtd (goodPages env pMtd.uiPartition) content,
        Accepts program (w.mem pMtd.uiPartition) page.1 page.2) :
    ∃ t, Ends (system env) (mtdPartWrite g pMtd) w
      (if pMtd.iFileSize = (fitting env pMtd.uiPartition content).length then
        .ret (recordWritten pMtd (crc32 0 (fitting env pMtd.uiPartition content)))
      else .exit (.filesizeChanged .mtdPartWrite pMtd.szImageFileName))
      { afterWriting g pMtd env w content with time := t } := by
  have hmalloc := malloc_ends hworks w .mtdPartWrite pMtd.iPageSize
  have hfound : { w with time := w.time + 1 }.files pMtd.szImageFileName ≠ none := by
    dsimp only
    rw [hfile]
    exact Option.some_ne_none content
  have hopen := openSrc_ends hworks { w with time := w.time + 1 } .mtdPartWrite hfound
  have hseek : Ends (system env) (sysOrFail .mtdPartWrite (.lseekMtd pMtd.uiPartition) succeeded)
      { w with time := w.time + 1 + 1, src := some (pMtd.szImageFileName, 0), lastRead := [] }
      (.ret ()) { w with
        time := w.time + 1 + 1 + 1, src := some (pMtd.szImageFileName, 0), lastRead := [] } :=
    succeeded_ends hworks _ _ rfl rfl
  have hstart : ({} : WriteState).iCurrentOffs = 0 * pMtd.iPageSize := (Nat.zero_mul _).symm
  obtain ⟨t, st, bytes, hbytes, htotal, hcrc, hloop⟩ := writeLoop_ends g pMtd hg hd hworks hprog
    (pageCount env pMtd.uiPartition) 0 g.fuel hstart (Nat.zero_add _) hfuel
    (w := { w with
      time := w.time + 1 + 1 + 1, src := some (pMtd.szImageFileName, 0), lastRead := [] })
    rfl hfile
    (by rw [hd.page]; exact haccepts)
  rw [if_pos hg.pageCount_pos, List.drop_zero] at hloop
  have hfits : bytes = fitting env pMtd.uiPartition content := by
    rw [hbytes, List.drop_zero, fitting, ← length_goodPages hg, hd.page, goodPages]
  have hsum : recordWritten pMtd st.uiCRC32 =
      recordWritten pMtd (crc32 0 (fitting env pMtd.uiPartition content)) := by
    unfold recordWritten
    split
    · rfl
    · rename_i hcalculated
      rw [hcrc, if_neg hcalculated, hfits]
  have hread : st.iBytesReadTotal = (fitting env pMtd.uiPartition content).length := by
    rw [htotal, hfits, Nat.zero_add]
  have hpages : goodUnits (env.badAt pMtd.uiPartition) pMtd.iPageSize 0
      (pageCount env pMtd.uiPartition) = goodPages env pMtd.uiPartition := by
    rw [hd.page, goodPages]
  rw [hfits, hpages] at hloop
  refine ⟨t + 1, Ends.andThen hmalloc (Ends.andThen hopen (Ends.andThen hseek
    (Ends.andThen hloop (Ends.andThen (closeSrc_ends hworks _ .mtdPartWrite) ?_))))⟩
  rw [hread]
  by_cases hsize : pMtd.iFileSize = (fitting env pMtd.uiPartition content).length
  · rw [if_pos hsize, if_neg (not_not.mpr hsize), hsum]
    exact ends_pure _ _
  · rw [if_neg hsize, if_pos hsize]
    exact ends_exit _ _

end Whole

end MetaDigi.FlashWriting
