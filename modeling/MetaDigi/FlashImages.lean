import MetaDigi.FlashChecksum
import MetaDigi.FlashRecords

/-!
# The image in flash

The loops that erase, write and sum a partition agree about where an image
lies, although they go by erase blocks and by pages and each of them skips the
bad blocks for itself.
-/

namespace MetaDigi.FlashImages

open CStrings SystemProgram SystemRuns FlashTypes FlashInit FlashTransfer FlashWorld FlashEffects
open BlockLayout FlashDevice FlashWriting FlashErasing FlashChecksum FlashRecords Crc32

section Sums

variable {env : Env} {program : UInt8 → UInt8 → UInt8} {g : Globals} {pMtd : MtdPartition}
  (hg : Geometry env pMtd.uiPartition) (hd : Describes env pMtd) (hworks : Works env)

include hg hd hworks

/-- An image that has been written has the checksum of the record. -/
theorem write_then_check_ends (hprog : Programs env program) (hdry : g.cDryRun = false) (w : World)
    {content : Bytes} (hfile : w.files pMtd.szImageFileName = some content)
    (hsize : content.length = pMtd.iFileSize)
    (hfits : pMtd.iFileSize ≤ goodBytes env pMtd.uiPartition)
    (hsum : pMtd.cChecksumCalculated = true → pMtd.uiCRC32 = crc32 0 content)
    (haccepts : ∀ page ∈ pagesOf pMtd (goodPages env pMtd.uiPartition) content,
      Accepts program (w.mem pMtd.uiPartition) page.1 page.2)
    (hfuel : pageCount env pMtd.uiPartition ≤ g.fuel) :
    ∃ q w', Ends (system env) (mtdPartWrite g pMtd >>= mtdPartCheckCRC32 g) w (.ret q) w' := by
  have hwhole : fitting env pMtd.uiPartition content = content :=
    List.take_of_length_le (by omega)
  obtain ⟨t, hwrite⟩ := mtdPartWrite_ends g pMtd hg hd hworks hprog w hfile hfuel
    fun _ => haccepts
  rw [hwhole, if_pos hsize.symm] at hwrite
  have hcrc : (recordWritten pMtd (crc32 0 content)).uiCRC32 = crc32 0 content := by
    unfold recordWritten
    split
    · rename_i hcalculated
      exact hsum hcalculated
    · rfl
  have hsame : (recordWritten pMtd (crc32 0 content)).uiPartition = pMtd.uiPartition ∧
      (recordWritten pMtd (crc32 0 content)).iFileSize = pMtd.iFileSize ∧
      Describes env (recordWritten pMtd (crc32 0 content)) := by
    unfold recordWritten
    split
    · exact ⟨rfl, rfl, hd⟩
    · exact ⟨rfl, rfl, hd.info, hd.nand, hd.page⟩
  obtain ⟨hpart, hlen, hdq⟩ := hsame
  have hmem : ({ afterWriting g pMtd env w content with time := t } : World).mem
      pMtd.uiPartition = putAll (w.mem pMtd.uiPartition)
        (pagesOf pMtd (goodPages env pMtd.uiPartition) content) := by
    dsimp only [afterWriting, afterWrites]
    rw [setPart_same, written_wet g hdry]
  obtain ⟨t', hcheck⟩ := mtdPartCheckCRC32_ends (recordWritten pMtd (crc32 0 content))
    (hpart ▸ hg) hdq (by rw [hpart, hlen]; exact hfits) hworks g
    { afterWriting g pMtd env w content with time := t } (by rw [hpart]; exact hg.blockCount_le.trans hfuel)
  have himage := image_take_written pMtd hg hd hmem (by omega)
  rw [hpart, hlen, ← hsize, himage, hcrc, if_pos rfl] at hcheck
  exact ⟨_, _, Ends.andThen hwrite hcheck⟩

/-- The checker, which goes by erase blocks, compares the checksum of the first
good bytes, taken page by page, with the record. So it accepts an image that
has been written to cells that took it; a checksum that has been calculated
before is the one of that image. -/
theorem checker_reads_written_image (hfits : pMtd.iFileSize ≤ goodBytes env pMtd.uiPartition)
    (hfuel : pageCount env pMtd.uiPartition ≤ g.fuel) :
    (∀ w, ∃ t, Ends (system env) (mtdPartCheckCRC32 g pMtd) w
      (if crc32 0 ((image env pMtd.uiPartition w.mem).take pMtd.iFileSize) = pMtd.uiCRC32 then
        .ret (reopened g pMtd)
      else .exit (.crcMismatch .mtdPartCheckCRC32 pMtd.szImageFileName pMtd.uiCRC32
        (crc32 0 ((image env pMtd.uiPartition w.mem).take pMtd.iFileSize))))
      { w with time := t }) ∧
    ∀ program w content, Programs env program → g.cDryRun = false →
      w.files pMtd.szImageFileName = some content → content.length = pMtd.iFileSize →
      (pMtd.cChecksumCalculated = true → pMtd.uiCRC32 = crc32 0 content) →
      (∀ page ∈ pagesOf pMtd (goodPages env pMtd.uiPartition) content,
        Accepts program (w.mem pMtd.uiPartition) page.1 page.2) →
      ∃ q w', Ends (system env) (mtdPartWrite g pMtd >>= mtdPartCheckCRC32 g) w (.ret q) w' :=
  ⟨fun w => mtdPartCheckCRC32_ends pMtd hg hd hfits hworks g w (hg.blockCount_le.trans hfuel),
    fun _ w _ hprog hdry hfile hsize hsum haccepts =>
      write_then_check_ends hg hd hworks hprog hdry w hfile hsize hfits hsum haccepts hfuel⟩

end Sums

section Layout

/-- The erasures among what is recorded: partition, offset and length. -/
def erasuresOf (log : List Effect) : List (ℕ × ℕ × ℕ) :=
  log.filterMap fun
    | .erase part start length => some (part, start, length)
    | _ => none

/-- The writes among what is recorded: partition, offset and data. -/
def writesOf (log : List Effect) : List (ℕ × ℕ × Bytes) :=
  log.filterMap fun
    | .write part offset data => some (part, offset, data)
    | _ => none

/-- The blocks that have to be erased for an image. -/
def neededBlocks (env : Env) (part : ℕ) (cEraseAll : Bool) (len : ℕ) : List ℕ :=
  if cEraseAll then goodBlocks env part
  else (goodBlocks env part).take ((len + (env.info part).erasesize - 1) / (env.info part).erasesize)

/-- The number of pages that an image takes. -/
def neededPages (env : Env) (part len : ℕ) : ℕ :=
  (len + pageSize env part - 1) / pageSize env part

/-- What erasing and writing an image has to do between two states, where
`effects` is what has been recorded and `blocks` are the blocks to be erased. -/
structure LaidOut (env : Env) (part : ℕ) (blocks : List ℕ) (content : Bytes)
    (effects : List Effect) (w w' : World) : Prop where
  /-- This has been recorded. -/
  log : w'.log = w.log ++ effects
  /-- The blocks are erased, each of them once, and nothing else is. -/
  erased : erasuresOf effects = blocks.map fun o => (part, o, (env.info part).erasesize)
  /-- No block is erased twice. -/
  nodup : blocks.Nodup
  /-- The blocks are good and lie in the partition. -/
  good : ∀ o ∈ blocks, env.badAt part o = false ∧
    o + (env.info part).erasesize ≤ (env.info part).size
  /-- No page is written twice. -/
  once : ((writesOf effects).map fun page => page.2.1).Nodup
  /-- As many pages are written as the image takes. -/
  pages : (writesOf effects).length = neededPages env part content.length
  /-- A page is written inside a block that has been erased. -/
  inside : ∀ page ∈ writesOf effects, page.1 = part ∧ ∃ o ∈ blocks,
    o ≤ page.2.1 ∧ page.2.1 + page.2.2.length ≤ o + (env.info part).erasesize
  /-- The good pages begin with the image, filled up with erased cells. -/
  content : (image env part w'.mem).take
      (neededPages env part content.length * pageSize env part) =
    content ++ List.replicate
      (neededPages env part content.length * pageSize env part - content.length) flashErasedByte
  /-- All other cells are as they were. -/
  outside : ∀ q a, (q = part → ∀ o ∈ blocks, a < o ∨ o + (env.info part).erasesize ≤ a) →
    w'.mem q a = w.mem q a

theorem erasuresOf_append (log log' : List Effect) :
    erasuresOf (log ++ log') = erasuresOf log ++ erasuresOf log' := List.filterMap_append

theorem writesOf_append (log log' : List Effect) :
    writesOf (log ++ log') = writesOf log ++ writesOf log' := List.filterMap_append

variable (pMtd : MtdPartition)

/-- What is recorded of erasing are the erasures. -/
theorem erasuresOf_erases (blocks : List ℕ) :
    erasuresOf (blocks.flatMap (eraseEffects pMtd)) =
      blocks.map fun o => (pMtd.uiPartition, o, pMtd.xInfo.erasesize) := by
  induction blocks with
  | nil => rfl
  | cons o blocks ih =>
    rw [List.flatMap_cons, erasuresOf_append, ih, eraseEffects]
    split <;> rfl

/-- Erasing writes no page. -/
theorem writesOf_erases (blocks : List ℕ) :
    writesOf (blocks.flatMap (eraseEffects pMtd)) = [] := by
  induction blocks with
  | nil => rfl
  | cons o blocks ih =>
    rw [List.flatMap_cons, writesOf_append, ih, eraseEffects]
    split <;> rfl

/-- What is recorded of writing has no erasures. -/
theorem erasuresOf_writes (pages : List (ℕ × Bytes)) :
    erasuresOf (pages.map fun page => .write pMtd.uiPartition page.1 page.2) = [] := by
  induction pages with
  | nil => rfl
  | cons page pages ih => exact ih

/-- What is recorded of writing are the pages. -/
theorem writesOf_writes (pages : List (ℕ × Bytes)) :
    writesOf (pages.map fun page => .write pMtd.uiPartition page.1 page.2) =
      pages.map fun page => (pMtd.uiPartition, page.1, page.2) := by
  induction pages with
  | nil => rfl
  | cons page pages ih =>
    rw [List.map_cons, List.map_cons, ← ih]
    rfl

variable {pMtd} {env : Env} (hg : Geometry env pMtd.uiPartition) (hd : Describes env pMtd)

/-- The blocks for an image are needed, also when all blocks are erased. -/
theorem mem_neededBlocks {cEraseAll : Bool} {len o : ℕ}
    (ho : o ∈ (goodBlocks env pMtd.uiPartition).take
      ((len + (env.info pMtd.uiPartition).erasesize - 1) /
        (env.info pMtd.uiPartition).erasesize)) :
    o ∈ neededBlocks env pMtd.uiPartition cEraseAll len := by
  unfold neededBlocks
  cases cEraseAll with
  | false => exact ho
  | true => exact List.mem_of_mem_take ho

include hg

/-- The blocks that are needed are the first good ones. -/
theorem neededBlocks_eq (cEraseAll : Bool) (len : ℕ) :
    neededBlocks env pMtd.uiPartition cEraseAll len =
      (goodBlocks env pMtd.uiPartition).take
        (((if cEraseAll then goodBytes env pMtd.uiPartition else len) +
          (env.info pMtd.uiPartition).erasesize - 1) / (env.info pMtd.uiPartition).erasesize) := by
  unfold neededBlocks
  cases cEraseAll with
  | false => rfl
  | true =>
    have hroom : goodBytes env pMtd.uiPartition ≤ (goodBytes env pMtd.uiPartition +
        (env.info pMtd.uiPartition).erasesize - 1) / (env.info pMtd.uiPartition).erasesize *
          (env.info pMtd.uiPartition).erasesize := le_ceil_mul hg.erase_pos _
    have hall : (goodBlocks env pMtd.uiPartition).length ≤ _ :=
      Nat.le_of_mul_le_mul_right hroom hg.erase_pos
    rw [if_pos rfl, if_pos rfl, List.take_of_length_le hall]

/-- Blocks that are needed are good. -/
theorem neededBlocks_subset (cEraseAll : Bool) (len : ℕ) :
    (neededBlocks env pMtd.uiPartition cEraseAll len).Sublist (goodBlocks env pMtd.uiPartition) := by
  rw [neededBlocks_eq hg]
  exact List.take_sublist _ _

/-- Good blocks are all different. -/
theorem goodBlocks_nodup : (goodBlocks env pMtd.uiPartition).Nodup := by
  refine (goodUnits_pairwise _ _ _ _).imp fun hle => ?_
  have hpos := hg.erase_pos
  omega

include hd

/-- The pages of an image lie in the blocks that are needed for it. -/
theorem page_in_neededBlock {content : Bytes} {page : ℕ × Bytes} (cEraseAll : Bool)
    (hpage : page ∈ pagesOf pMtd (goodPages env pMtd.uiPartition) content) :
    ∃ o ∈ neededBlocks env pMtd.uiPartition cEraseAll content.length,
      o ≤ page.1 ∧ page.1 + page.2.length ≤ o + (env.info pMtd.uiPartition).erasesize := by
  have hpos := hd.page_pos hg
  have hoffset := List.mem_map_of_mem (f := Prod.fst) hpage
  rw [pagesOf_offsets pMtd hpos, hd.page] at hoffset
  obtain ⟨o, ho, hle, hlt⟩ := page_in_block hg hoffset
  refine ⟨o, mem_neededBlocks ho, hle, ?_⟩
  rw [pagesOf_length pMtd _ _ page hpage, hd.page]
  exact hlt

/-- The pages of an image are all different, and as many as it takes. -/
theorem pagesOf_needed {content : Bytes}
    (hfits : content.length ≤ goodBytes env pMtd.uiPartition) :
    ((pagesOf pMtd (goodPages env pMtd.uiPartition) content).map Prod.fst).Nodup ∧
      (pagesOf pMtd (goodPages env pMtd.uiPartition) content).length =
        neededPages env pMtd.uiPartition content.length := by
  have hpos := hd.page_pos hg
  have hoffsets := pagesOf_offsets pMtd hpos (goodPages env pMtd.uiPartition) content
  have hcount : neededPages env pMtd.uiPartition content.length ≤
      (goodPages env pMtd.uiPartition).length := by
    refine ceil_le hg.page_pos ?_
    rw [length_goodPages hg]
    exact hfits
  constructor
  · rw [hoffsets]
    refine List.Nodup.sublist (List.take_sublist _ _) ?_
    refine (goodUnits_pairwise _ _ _ _).imp fun hle => ?_
    have hpage := hg.page_pos
    omega
  · rw [← List.length_map (f := Prod.fst), hoffsets, List.length_take, hd.page]
    exact Nat.min_eq_left hcount

/-- The good pages after an image has been written that is not JFFS2. -/
theorem image_plain (hplain : pMtd.cIsJFFS2 = false) {mem : FlashMem} {cells : ℕ → UInt8}
    {content : Bytes}
    (hcells : mem pMtd.uiPartition =
      putAll cells (pagesOf pMtd (goodPages env pMtd.uiPartition) content))
    (hfits : content.length ≤ goodBytes env pMtd.uiPartition) :
    (image env pMtd.uiPartition mem).take
        (neededPages env pMtd.uiPartition content.length * pageSize env pMtd.uiPartition) =
      content ++ List.replicate (neededPages env pMtd.uiPartition content.length *
        pageSize env pMtd.uiPartition - content.length) flashErasedByte := by
  obtain ⟨tail, htail, htake⟩ := image_written pMtd hg hd hcells hfits
  rw [hd.page] at htake
  have herased : ∀ b ∈ tail, b = flashErasedByte := by
    rcases htail with hnil | ⟨bytes, hfill⟩
    · rw [hnil]
      exact fun b hb => absurd hb List.not_mem_nil
    · rw [hplain, fillPage_plain] at hfill
      rw [← List.append_cancel_left hfill]
      exact fun b hb => List.eq_of_mem_replicate hb
  have hcount : neededPages env pMtd.uiPartition content.length * pageSize env pMtd.uiPartition ≤
      goodBytes env pMtd.uiPartition := by
    rw [← length_goodPages hg]
    refine Nat.mul_le_mul_right _ (ceil_le hg.page_pos ?_)
    rw [length_goodPages hg]
    exact hfits
  have hlength : (content ++ tail).length =
      neededPages env pMtd.uiPartition content.length * pageSize env pMtd.uiPartition := by
    rw [← htake, List.length_take, hg.length_image]
    exact Nat.min_eq_left hcount
  rw [List.length_append] at hlength
  have hreplicate := List.eq_replicate_of_mem herased
  have hrest : tail.length = neededPages env pMtd.uiPartition content.length *
      pageSize env pMtd.uiPartition - content.length := by omega
  rw [hrest] at hreplicate
  rw [← hreplicate]
  exact htake

variable {program : UInt8 → UInt8 → UInt8} {g : Globals} (hworks : Works env)
  (hprog : Programs env program) (herased : ∀ b, program flashErasedByte b = b)
  (hdry : g.cDryRun = false) (hmarker : pMtd.cWriteCleanMarker = true → pMtd.cIsNAND = true)
  (hplain : pMtd.cIsJFFS2 = false)

include hworks hprog herased hdry hmarker hplain

/-- Erasing and writing an image that fits lays it out. -/
theorem erase_then_write_ends (w : World) {content : Bytes}
    (hfile : w.files pMtd.szImageFileName = some content)
    (hlength : content.length = pMtd.iFileSize) (hsize : pMtd.iSize = goodBytes env pMtd.uiPartition)
    (hfits : pMtd.iFileSize ≤ goodBytes env pMtd.uiPartition)
    (hfuel : pageCount env pMtd.uiPartition < g.fuel) :
    ∃ q w' effects, Ends (system env) (mtdPartErase g pMtd >>= fun _ => mtdPartWrite g pMtd) w
        (.ret q) w' ∧
      LaidOut env pMtd.uiPartition
        (neededBlocks env pMtd.uiPartition pMtd.cEraseAll content.length) content effects w w' := by
  have hfits' : content.length ≤ goodBytes env pMtd.uiPartition := by omega
  have herase_size : eraseSize pMtd =
      ((if pMtd.cEraseAll then goodBytes env pMtd.uiPartition else content.length : ℕ) : ℤ) := by
    unfold eraseSize
    split
    · exact hsize
    · rw [hlength]
  have hroom : (if pMtd.cEraseAll then goodBytes env pMtd.uiPartition else content.length) ≤
      goodBytes env pMtd.uiPartition := by
    split
    · exact Nat.le_refl _
    · exact hfits'
  obtain ⟨t₁, herase⟩ := mtdPartErase_ends g pMtd hworks hprog hdry hmarker hg hd w herase_size
    hroom (Nat.lt_of_le_of_lt hg.blockCount_le hfuel)
  rw [hd.info, ← neededBlocks_eq hg] at herase
  have hcell : ∀ a, (∃ o ∈ neededBlocks env pMtd.uiPartition pMtd.cEraseAll content.length,
      o ≤ a ∧ a < o + (env.info pMtd.uiPartition).erasesize) →
      putAll (w.mem pMtd.uiPartition) (erasedBlocks pMtd (neededBlocks env pMtd.uiPartition
        pMtd.cEraseAll content.length)) a = flashErasedByte := by
    intro a hin
    refine putAll_replicate _ (.inr ?_)
    rw [hd.info]
    exact hin
  have hmem : ∀ t, ({ afterErases pMtd w (neededBlocks env pMtd.uiPartition pMtd.cEraseAll
      content.length) with time := t } : World).mem pMtd.uiPartition =
        putAll (w.mem pMtd.uiPartition) (erasedBlocks pMtd (neededBlocks env pMtd.uiPartition
          pMtd.cEraseAll content.length)) := fun t => setPart_same _ _ _
  obtain ⟨t₂, hwrite⟩ := mtdPartWrite_ends g pMtd hg hd hworks hprog
    { afterErases pMtd w (neededBlocks env pMtd.uiPartition pMtd.cEraseAll content.length) with
      time := t₁ } hfile (Nat.le_of_lt hfuel) fun _ page hpage a b hle hb => by
        obtain ⟨o, ho, hlo, hhi⟩ := page_in_neededBlock hg hd pMtd.cEraseAll hpage
        have hlt := (List.getElem?_eq_some_iff.mp hb).1
        rw [hmem, hcell a ⟨o, ho, by omega, by omega⟩]
        exact herased b
  have hwhole : fitting env pMtd.uiPartition content = content := List.take_of_length_le hfits'
  rw [hwhole, if_pos hlength.symm] at hwrite
  refine ⟨_, _, (neededBlocks env pMtd.uiPartition pMtd.cEraseAll content.length).flatMap
      (eraseEffects pMtd) ++
    (pagesOf pMtd (goodPages env pMtd.uiPartition) content).map
      fun page => .write pMtd.uiPartition page.1 page.2, Ends.andThen herase hwrite, ?_⟩
  have hwrites : writesOf ((neededBlocks env pMtd.uiPartition pMtd.cEraseAll
      content.length).flatMap (eraseEffects pMtd) ++
        (pagesOf pMtd (goodPages env pMtd.uiPartition) content).map
          fun page => .write pMtd.uiPartition page.1 page.2) =
      (pagesOf pMtd (goodPages env pMtd.uiPartition) content).map
        fun page => (pMtd.uiPartition, page.1, page.2) := by
    rw [writesOf_append, writesOf_erases, writesOf_writes, List.nil_append]
  obtain ⟨hnodup, hcount⟩ := pagesOf_needed hg hd hfits'
  refine ⟨?_, ?_, ?_, ?_, ?_, ?_, ?_, ?_, ?_⟩
  · dsimp only [afterWriting, afterWrites, afterErases]
    rw [written_wet g hdry, List.append_assoc]
  · rw [erasuresOf_append, erasuresOf_erases, erasuresOf_writes, List.append_nil, hd.info]
  · exact (goodBlocks_nodup hg).sublist (neededBlocks_subset hg _ _)
  · exact fun o ho => mem_goodBlocks hg ((neededBlocks_subset hg _ _).subset ho)
  · rw [hwrites, List.map_map]
    exact hnodup
  · rw [hwrites, List.length_map, hcount]
  · intro page hpage
    rw [hwrites] at hpage
    obtain ⟨p, hp, rfl⟩ := List.mem_map.mp hpage
    exact ⟨rfl, page_in_neededBlock hg hd pMtd.cEraseAll hp⟩
  · refine image_plain hg hd hplain (?_ : _ = putAll (putAll (w.mem pMtd.uiPartition)
      (erasedBlocks pMtd (neededBlocks env pMtd.uiPartition pMtd.cEraseAll content.length))) _) hfits'
    dsimp only [afterWriting, afterWrites, afterErases]
    rw [setPart_same, setPart_same, written_wet g hdry]
  · intro q a houtside
    dsimp only [afterWriting, afterWrites, afterErases]
    rw [written_wet g hdry, setPart_same, setPart_setPart]
    unfold setPart
    split
    · rename_i hq
      rw [putAll_outside, putAll_outside, hq]
      · intro piece hpiece
        obtain ⟨o, ho, rfl⟩ := List.mem_map.mp hpiece
        rw [List.length_replicate, hd.info]
        exact houtside hq o ho
      · intro page hpage
        obtain ⟨o, ho, hlo, hhi⟩ := page_in_neededBlock hg hd pMtd.cEraseAll hpage
        rcases houtside hq o ho with h | h
        · exact .inl (by omega)
        · exact .inr (by omega)
    · rfl

omit hg hd herased hdry hmarker hplain hworks hprog

/-- A partition that has been initialised is erased and written as it should
be, when every call succeeds and no clean marker goes into its pages. -/
theorem erase_and_write_agree {part : ℕ} {name : Path} {p : MtdPartition} {w₀ w : World}
    (hg : Geometry env part) (hworks : Works env) (hprog : Programs env program)
    (herased : ∀ b, program flashErasedByte b = b) (hdry : g.cDryRun = false)
    (hinit : Ends (system env) (mtdPartInit g part name) w₀ (.ret p) w)
    (hplain : p.cIsJFFS2 = false)
    (hmarker : p.cWriteCleanMarker = true → (env.info part).type = .nandFlash)
    (hfuel : pageCount env part < g.fuel) :
    ∃ content q w' effects, w.files name = some content ∧ content.length ≤ goodBytes env part ∧
      Ends (system env) (mtdPartOpen g p false >>= fun p => mtdPartErase g p >>= fun _ =>
        mtdPartWrite g p) w (.ret q) w' ∧
      LaidOut env part (neededBlocks env part p.cEraseAll content.length) content effects w w' := by
  obtain ⟨hpart, hnamed, -, hstat⟩ := mtdPartInit_inv hg hinit
  have hfiles := files_kept hworks.interfere hinit (mtdPartInit_sat g part name)
  obtain ⟨content, hcontent, hlength⟩ :=
    Option.map_eq_some_iff.mp (hstat (Still.sized hworks.interfere name))
  rw [← hfiles] at hcontent
  have hfits := hnamed.fits
  rw [hpart] at hfits
  have hopen := mtdPartOpen_ends hworks p w g false hnamed.closed
  have hgq : Geometry env (reopened g p).uiPartition := hpart ▸ hg
  have hd : Describes env (reopened g p) :=
    ⟨hnamed.describes.info, hnamed.describes.nand, hnamed.describes.page⟩
  have hnand : p.cIsNAND = decide ((env.info part).type = .nandFlash) := by
    rw [← hpart]
    exact hnamed.describes.nand
  obtain ⟨q, w', effects, hrun, hlaid⟩ := erase_then_write_ends
    hgq hd hworks hprog herased hdry
    (fun hmark => hnand.trans (decide_eq_true (hmarker hmark))) hplain
    { w with time := w.time + 1 } ((congrArg w.files hnamed.image).trans hcontent)
    hlength hnamed.size hnamed.fits (hpart ▸ hfuel)
  refine ⟨content, q, w', effects, hcontent, by omega, Ends.andThen hopen hrun, ?_⟩
  rw [← hpart]
  exact ⟨hlaid.log, hlaid.erased, hlaid.nodup, hlaid.good, hlaid.once, hlaid.pages, hlaid.inside,
    hlaid.content, hlaid.outside⟩

end Layout

section Sample

/-- The small system with erased flash and an image that goes on behind the bad
block. -/
def smallErased : World :=
  { smallWorld [(text "uImage-x", text "123456789012345678")] with
    mem := fun _ _ => flashErasedByte }

theorem smallEnv_programs : Programs smallEnv (fun old new => old &&& new) :=
  ⟨fun _ _ _ _ _ => rfl, fun _ _ _ _ _ => rfl, fun _ _ _ _ _ => rfl⟩

/-- An erased cell takes any byte. -/
theorem erased_and (b : UInt8) : flashErasedByte &&& b = b := by
  have hones : flashErasedByte = -1 := rfl
  rw [hones, UInt8.neg_one_and]

/-- The small system after `MtdPartInit`. -/
def smallInitialised : World :=
  (exec (system smallEnv) everyCall (mtdPartInit { fuel := 20 } 0 (text "uImage-x"))
    smallErased).state

set_option maxRecDepth 8000 in
/-- Flashing an image whose last two bytes come behind the bad block. -/
theorem erase_and_write_agree_example :
    ∃ content q w' effects, smallInitialised.files (text "uImage-x") = some content ∧
      content.length ≤ goodBytes smallEnv 0 ∧
      Ends (system smallEnv) (mtdPartOpen { fuel := 20 } (smallKernel 18) false >>= fun p =>
        mtdPartErase { fuel := 20 } p >>= fun _ => mtdPartWrite { fuel := 20 } p)
        smallInitialised (.ret q) w' ∧
      LaidOut smallEnv 0 (neededBlocks smallEnv 0 false content.length) content effects
        smallInitialised w' :=
  have hinit : Ends (system smallEnv) (mtdPartInit { fuel := 20 } 0 (text "uImage-x")) smallErased
      (.ret (smallKernel 18)) smallInitialised := ⟨rfl, rfl⟩
  erase_and_write_agree (smallEnv_geometry 0) smallEnv_works smallEnv_programs erased_and rfl
    hinit rfl (fun _ => rfl) (by decide)

/-- Writing this image and summing it. -/
theorem checker_reads_written_image_example :
    ∃ q w', Ends (system smallEnv)
      (mtdPartWrite { fuel := 20 } (smallKernel 18) >>= mtdPartCheckCRC32 { fuel := 20 })
      smallErased (.ret q) w' :=
  (checker_reads_written_image (g := { fuel := 20 }) (smallEnv_geometry 0)
    ⟨rfl, rfl, rfl⟩ smallEnv_works (by decide) (by decide)).2 _ smallErased
    (text "123456789012345678") smallEnv_programs rfl rfl rfl nofun fun _ _ _ b _ _ => erased_and b

end Sample

end MetaDigi.FlashImages
