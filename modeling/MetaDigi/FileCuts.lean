import MetaDigi.FileSums
import MetaDigi.FlashWriting
import MetaDigi.SystemReturns

/-!
# Files in pieces

On a system that serves a file in pieces of any size, and that grants the other
calls, each of the four loops comes to its end, with the usual checksum of the
whole file. A checksum that was given is compared with it. A JFFS2 image may be
rejected on the way, and flashing needs a good page for each piece.
-/

namespace MetaDigi.FileCuts

open CStrings SystemProgram SystemRuns SystemReturns FlashTypes FlashInit FlashTransfer FlashWorld
open FlashDevice FlashEffects FlashWriting FileSums BlockLayout Crc32 Prog

/-- The calls to sum a file are granted. -/
structure Grants {σ : Type} (h : Handler Op Resp σ) : Prop where
  /-- There is memory. -/
  malloc : ∀ s size, ∃ cells, (h (.malloc size) s).1 = some cells
  /-- A file can be opened. -/
  openSrc : ∀ s path, (h (.openSrc path) s).1 = true
  /-- It can be read. -/
  readSrc : ∀ s size, ∃ bytes, (h (.readSrc size) s).1 = some bytes
  /-- It can be closed. -/
  closeSrc : ∀ s, (h .closeSrc s).1 = true

/-- So are the calls to copy it. -/
structure GrantsCopy {σ : Type} (h : Handler Op Resp σ) : Prop extends Grants h where
  /-- The copy can be opened. -/
  openDst : ∀ s path, (h (.openDst path) s).1 = true
  /-- Everything can be written to it. -/
  writeDst : ∀ s data, (h (.writeDst data) s).1 = data.length
  /-- It can be closed. -/
  closeDst : ∀ s, (h .closeDst s).1 = true

/-- So are the calls to flash it to a partition with these bad blocks. -/
structure GrantsFlash {σ : Type} (h : Handler Op Resp σ) (part : ℕ) (bad : ℕ → Bool) : Prop
    extends Grants h where
  /-- The partition can be rewound. -/
  lseekMtd : ∀ s, (h (.lseekMtd part) s).1 = true
  /-- The bad blocks are told. -/
  memGetBadBlock : ∀ s offset,
    isBadBlockReply (h (.memGetBadBlock part offset) s).1 = some (bad offset)
  /-- A page can be written. -/
  pwrite : ∀ s data offset, (h (.pwrite part data offset) s).1 = data.length
  /-- It reads back as it was written. -/
  pread : ∀ s data size offset, data.length = size →
    ∃ bytes : Chunk size,
      (h (.pread part size offset) (h (.pwrite part data offset) s).2).1 = some bytes ∧
        bytes.1 = data

/-- A file comes in so many pieces at most when it is read by so many bytes:
each piece leaves one less to come. -/
structure InPieces {σ : Type} (h : Handler Op Resp σ) (size count : ℕ) (pieces : σ → ℕ) : Prop where
  /-- At the front of the file all of them are to come. -/
  opened : ∀ s path, pieces (h (.openSrc path) s).2 ≤ count
  /-- A piece that is read is not to come any more. -/
  next : ∀ s bytes, (h (.readSrc size) s).1 = some bytes → bytes.1 ≠ [] →
    pieces (h (.readSrc size) s).2 < pieces s
  /-- Other calls bring no new ones. -/
  kept : ∀ s o, callKind o ≠ .reads → pieces (h o s).2 ≤ pieces s

/-- The reasons to reject a JFFS2 image. -/
def Rejects : ExitReason → Prop
  | .noJffs2Header => True
  | .noCleanMarkers => True
  | .cleanMarkerAtOffset _ => True
  | _ => False

/-- How summing the file of a record ends: with the checksum in the record, or
with a given one that it differs from, or with a JFFS2 image that is rejected. -/
def Summed (pMtd : MtdPartition) (sum : Crc) (out : Outcome ExitReason MtdPartition) : Prop :=
  (∃ q, out = .ret q ∧ q.uiCRC32 = sum) ∨
  (pMtd.cChecksumSet = true ∧ pMtd.uiCRC32 ≠ sum ∧
    ∃ inside, out = .exit (.crcMismatch inside pMtd.szImageFileName pMtd.uiCRC32 sum)) ∨
  pMtd.cIsJFFS2 = true ∧ ∃ r, Rejects r ∧ out = .exit r

/-- The offsets of the good pages of a partition, as the record has its sizes. -/
def pagesFor (pMtd : MtdPartition) (bad : ℕ → Bool) : List ℕ :=
  goodUnits bad pMtd.iPageSize 0 ((pMtd.xInfo.size + pMtd.iPageSize - 1) / pMtd.iPageSize)

section Loops

variable {σ α : Type} {h : Handler Op Resp σ} {path : Path} {content : Bytes} {pos : σ → ℕ} {s : σ}
  {inside : Func}

/-- A call that is granted. -/
theorem leaves_granted {o : Op} {answer : Resp o → Option α} {a : α} {β : Type} {f : α → Flash β}
    {R : Outcome ExitReason β → σ → Prop} (hanswer : answer (h o s).1 = some a)
    (hf : Leaves h (f a) (h o s).2 R) : Leaves h (sysOrFail inside o answer >>= f) s R :=
  Ends.leaves (sysOrFail_ends rfl hanswer) hf

/-- One that is granted without an answer. -/
theorem leaves_succeeded {o : Op} {answer : Resp o → Option Unit} {β : Type} {f : Unit → Flash β}
    {R : Outcome ExitReason β → σ → Prop} (hanswer : answer (h o s).1 = some ())
    (hf : Leaves h (f ()) (h o s).2 R) : Leaves h (sysOrFail inside o answer >>= f) s R :=
  leaves_granted hanswer hf

/-- The front of a file that has been read: where it ends, and its checksum. -/
structure Read (content : Bytes) (pos : σ → ℕ) (crc : Crc) (s : σ) : Prop where
  /-- The position is in the file. -/
  inside : pos s ≤ content.length
  /-- The checksum of what is in front of it. -/
  sum : crc = crc32 0 (content.take (pos s))

/-- Nothing has been read at the front. -/
theorem read_front (hserves : Serves h path content pos) (hopen : (h (.openSrc path) s).1 = true) :
    Read content pos 0 (h (.openSrc path) s).2 := by
  have hfront := hserves.opened s hopen
  exact ⟨by omega, by rw [hfront, List.take_zero, crc32_nil]⟩

/-- Behind the end of the file its checksum is complete. -/
theorem Read.whole {crc : Crc} (hread : Read content pos crc s) (hend : content.length ≤ pos s) :
    pos s = content.length ∧ crc = crc32 0 content := by
  have hpos := Nat.le_antisymm hread.inside hend
  exact ⟨hpos, by rw [hread.sum, hpos, List.take_length]⟩

/-- A piece continues the front. -/
theorem Read.next (hserves : Serves h path content pos) {crc : Crc} (hread : Read content pos crc s)
    {size : ℕ} {bytes : Chunk size} (hbytes : (h (.readSrc size) s).1 = some bytes) :
    Read content pos (crc32 crc bytes.1) (h (.readSrc size) s).2 ∧
      pos (h (.readSrc size) s).2 = pos s + bytes.1.length := by
  have hprefix := hserves.next s size bytes hbytes
  have hmoved := hserves.moved s size bytes hbytes
  have hle := hprefix.length_le
  have hinside := hread.inside
  rw [List.length_drop] at hle
  refine ⟨⟨by omega, ?_⟩, hmoved⟩
  rw [hmoved, List.take_add, ← List.prefix_iff_eq_take.mp hprefix, ← crc32_append, ← hread.sum]

/-- A call that does not move the position. -/
theorem Read.kept {crc : Crc} (hread : Read content pos crc s) {s' : σ} (hpos : pos s' = pos s) :
    Read content pos crc s' :=
  ⟨by rw [hpos]; exact hread.inside, by rw [hpos]; exact hread.sum⟩

/-- `CalcCRC32OfFile`. -/
theorem calcCRC32OfFile_cut (hserves : Serves h path content pos) (hgrants : Grants h)
    {g : Globals} (hfuel : content.length < g.fuel) (s : σ) :
    Leaves h (calcCRC32OfFile g path) s fun out _ => out = .ret (crc32 0 content) := by
  refine leaves_succeeded (succeeded_iff.mpr (hgrants.openSrc s path)) (Leaves.andThen ?_)
  refine Leaves.mono (Q := fun out _ => out = .ret (crc32 0 content)) ?_ fun out s' hout => ?_
  · refine leaves_loop (Read content pos) (fun _ t => content.length - pos t) ?_ (by omega)
      (read_front hserves (hgrants.openSrc s path))
    intro crc t hread
    obtain ⟨bytes, hbytes⟩ := hgrants.readSrc t ioBlockSize
    refine leaves_granted (a := bytes) hbytes ?_
    split
    · rename_i hempty
      have hwhole := hread.whole (hserves.last t _ bytes (by decide) hbytes hempty)
      exact leaves_pure (congrArg Outcome.ret hwhole.2)
    · rename_i hmore
      obtain ⟨hnext, hmoved⟩ := hread.next hserves hbytes
      have hpos := List.length_pos_iff.mpr hmore
      have hinside := hnext.inside
      refine leaves_pure ⟨hnext, ?_⟩
      dsimp only
      omega
  · rw [hout, resumes_ret]
    refine leaves_succeeded (succeeded_iff.mpr (hgrants.closeSrc s')) ?_
    exact leaves_pure rfl

/-- Looking into a block goes on, or rejects a JFFS2 image. -/
theorem verifyIfJFFS2_cases (pMtd : MtdPartition) (pucData : Bytes) (iSize : ℕ) :
    (∃ q, verifyIfJFFS2 pMtd pucData iSize = .ret q ∧ Warned pMtd q) ∨
      pMtd.cIsJFFS2 = true ∧ ∃ r, Rejects r ∧ verifyIfJFFS2 pMtd pucData iSize = .exit r := by
  unfold verifyIfJFFS2
  split
  swap
  · exact .inl ⟨pMtd, rfl, .refl pMtd⟩
  rename_i hjffs2
  unfold mtdPartVerifyJFFS2Block
  split
  · exact .inl ⟨pMtd, rfl, .refl pMtd⟩
  dsimp only
  split
  · split
    · exact .inr ⟨hjffs2, .noJffs2Header, trivial, rfl⟩
    · exact .inl ⟨_, rfl, _, rfl⟩
  · split
    · exact .inr ⟨hjffs2, .noCleanMarkers, trivial, rfl⟩
    · split
      · exact .inr ⟨hjffs2, .cleanMarkerAtOffset _, trivial, rfl⟩
      · exact .inl ⟨pMtd, rfl, .refl pMtd⟩

/-- How the loops end that read a whole image. -/
def FileDone (pMtd : MtdPartition) (content : Bytes) (out : Outcome ExitReason FileState) : Prop :=
  (∃ st, out = .ret st ∧ Warned pMtd st.pMtd ∧ st.iBytesReadTotal = content.length ∧
    st.uiCRC32 = crc32 0 content) ∨
  pMtd.cIsJFFS2 = true ∧ ∃ r, Rejects r ∧ out = .exit r

/-- The loops that read a whole image, with what is done with the bytes. -/
theorem fileLoop_cut (hserves : Serves h path content pos) (hgrants : Grants h)
    (use : Bytes → Flash Unit)
    (huse : ∀ bytes t, ∃ t', Ends h (use bytes) t (.ret ()) t' ∧ pos t' = pos t)
    {pMtd : MtdPartition} (hsize : 0 < pMtd.xInfo.erasesize) {fuel : ℕ}
    (hfuel : content.length < fuel) {st : FileState} (hrecord : st.pMtd = pMtd)
    (htotal : st.iBytesReadTotal = 0) (hsum : st.uiCRC32 = 0) (hfront : pos s = 0) :
    Leaves h (Prog.loop (filePass inside use) fuel st) s fun out _ =>
      FileDone pMtd content out := by
  refine leaves_loop (fun st t => Warned pMtd st.pMtd ∧ st.iBytesReadTotal = pos t ∧
    Read content pos st.uiCRC32 t) (fun _ t => content.length - pos t) ?_ (by omega) ?_
  swap
  · refine ⟨hrecord ▸ .refl st.pMtd, by rw [htotal, hfront], by omega, ?_⟩
    rw [hsum, hfront, List.take_zero, crc32_nil]
  rintro st t ⟨hwarned, htotal, hread⟩
  have hblock : 0 < st.pMtd.xInfo.erasesize := by
    obtain ⟨b, hb⟩ := hwarned
    rw [hb]
    exact hsize
  obtain ⟨bytes, hbytes⟩ := hgrants.readSrc t st.pMtd.xInfo.erasesize
  refine leaves_granted (a := bytes) hbytes ?_
  split
  · rename_i hempty
    have hwhole := hread.whole (hserves.last t _ bytes hblock hbytes hempty)
    exact leaves_pure (.inl ⟨st, rfl, hwarned, htotal.trans hwhole.1, hwhole.2⟩)
  · rename_i hmore
    obtain ⟨hnext, hmoved⟩ := hread.next hserves hbytes
    have hpos := List.length_pos_iff.mpr hmore
    have hinside := hnext.inside
    dsimp only
    rcases verifyIfJFFS2_cases st.pMtd (fillBuffer st.pucBuffer bytes.1) bytes.1.length with
      ⟨q, hlook, hq⟩ | ⟨hjffs2, r, hr, hlook⟩
    · obtain ⟨t', hused, hkept⟩ := huse bytes.1 (h (.readSrc st.pMtd.xInfo.erasesize) t).2
      rw [hlook]
      refine hused.leaves (leaves_pure ⟨⟨hwarned.trans hq, ?_, hnext.kept hkept⟩, ?_⟩)
      · rw [hkept, hmoved]
        exact congrArg (· + bytes.1.length) htotal
      · dsimp only
        omega
    · rw [hlook]
      obtain ⟨b, hb⟩ := hwarned
      rw [hb] at hjffs2
      exact leaves_exit (.inr ⟨hjffs2, r, hr, rfl⟩)

/-- The checksum is kept, or compared with the one that is given. -/
theorem setOrCompareCRC32_cut {pMtd q : MtdPartition} (hq : Warned pMtd q) {sum crc : Crc}
    (hcrc : crc = sum) :
    Leaves h (setOrCompareCRC32 inside q crc) s fun out _ => Summed pMtd sum out := by
  obtain ⟨b, rfl⟩ := hq
  unfold setOrCompareCRC32
  split
  · rename_i hset
    unfold mtdPartCompareCRC32
    split
    · rename_i hdiffers
      rw [hcrc] at hdiffers ⊢
      exact leaves_exit (.inr (.inl ⟨hset, fun hsame => hdiffers hsame.symm, inside, rfl⟩))
    · rename_i hsame
      exact leaves_pure (.inl ⟨_, rfl, (not_not.mp hsame).symm.trans hcrc⟩)
  · exact leaves_pure (.inl ⟨_, rfl, hcrc⟩)

/-- `MtdPartVerifyFile`. -/
theorem mtdPartVerifyFile_cut {pMtd : MtdPartition}
    (hserves : Serves h pMtd.szImageFileName content pos) (hgrants : Grants h) {g : Globals}
    (hfuel : content.length < g.fuel) (hsize : 0 < pMtd.xInfo.erasesize) (s : σ) :
    Leaves h (mtdPartVerifyFile g pMtd) s fun out _ => Summed pMtd (crc32 0 content) out := by
  obtain ⟨pucBuffer, hmalloc⟩ := hgrants.malloc s pMtd.xInfo.erasesize
  refine leaves_granted (a := pucBuffer) hmalloc ?_
  have hopen := hgrants.openSrc (h (.malloc pMtd.xInfo.erasesize) s).2 pMtd.szImageFileName
  refine leaves_succeeded (succeeded_iff.mpr hopen) (Leaves.andThen ?_)
  refine Leaves.mono (fileLoop_cut hserves hgrants _ (fun _ t => ⟨t, ends_pure () t, rfl⟩) hsize
    hfuel rfl rfl rfl (hserves.opened _ hopen)) fun out t hout => ?_
  rcases hout with ⟨st, rfl, hwarned, -, hsum⟩ | ⟨hjffs2, r, hr, rfl⟩
  · rw [resumes_ret]
    refine leaves_succeeded (succeeded_iff.mpr (hgrants.closeSrc t)) ?_
    exact setOrCompareCRC32_cut hwarned hsum
  · exact .inr (.inr ⟨hjffs2, r, hr, rfl⟩)

/-- `MtdPartCopyFile`. -/
theorem mtdPartCopyFile_cut {pMtd : MtdPartition}
    (hserves : Serves h pMtd.szImageFileName content pos) (hgrants : GrantsCopy h) {g : Globals}
    (hfuel : content.length < g.fuel) (hsize : 0 < pMtd.xInfo.erasesize)
    (hlength : pMtd.iFileSize = content.length) (szDstFileName : Path) (s : σ) :
    Leaves h (mtdPartCopyFile g pMtd szDstFileName) s
      fun out _ => Summed pMtd (crc32 0 content) out := by
  obtain ⟨pucBuffer, hmalloc⟩ := hgrants.malloc s pMtd.xInfo.erasesize
  refine leaves_granted (a := pucBuffer) hmalloc ?_
  have hopen := hgrants.openSrc (h (.malloc pMtd.xInfo.erasesize) s).2 pMtd.szImageFileName
  have hfront := hserves.opened _ hopen
  refine leaves_succeeded (succeeded_iff.mpr hopen) ?_
  refine leaves_succeeded (succeeded_iff.mpr (hgrants.openDst _ szDstFileName)) (Leaves.andThen ?_)
  have huse : ∀ bytes t, ∃ t', Ends h (writeDstOrFail bytes) t (.ret ()) t' ∧ pos t' = pos t := by
    intro bytes t
    refine ⟨_, sysOrFail_ends rfl (by rw [if_pos (hgrants.writeDst t bytes)]), ?_⟩
    exact hserves.kept t _ (by decide : CallKind.files ≠ .reads)
  have hkept := hserves.kept (h (.openSrc pMtd.szImageFileName)
    (h (.malloc pMtd.xInfo.erasesize) s).2).2 (.openDst szDstFileName)
    (by decide : CallKind.files ≠ .reads)
  refine Leaves.mono (fileLoop_cut hserves hgrants.toGrants _ huse hsize hfuel rfl rfl rfl
    (hkept.trans hfront)) fun out t hout => ?_
  rcases hout with ⟨st, rfl, hwarned, htotal, hsum⟩ | ⟨hjffs2, r, hr, rfl⟩
  · rw [resumes_ret]
    refine leaves_succeeded (succeeded_iff.mpr (hgrants.closeDst t)) ?_
    refine leaves_succeeded (succeeded_iff.mpr (hgrants.closeSrc _)) ?_
    have hsame : st.pMtd.iFileSize = st.iBytesReadTotal := by
      obtain ⟨b, hb⟩ := hwarned
      rw [hb, htotal]
      exact hlength
    rw [if_neg (not_not.mpr hsame)]
    exact setOrCompareCRC32_cut hwarned hsum
  · exact .inr (.inr ⟨hjffs2, r, hr, rfl⟩)

section Pages

variable {g : Globals} {pMtd : MtdPartition} {bad : ℕ → Bool} {pieces : σ → ℕ} {count : ℕ}

/-- A page is written, and reads back as it was written. -/
theorem writePage_granted (hgrants : GrantsFlash h pMtd.uiPartition bad) {data : Bytes}
    (hdata : data.length = pMtd.iPageSize) (offset : ℕ) (s : σ) :
    ∃ s', Ends h (writePage g pMtd data offset) s (.ret ()) s' := by
  obtain ⟨cells, hmalloc⟩ := hgrants.malloc s pMtd.iPageSize
  have hbuffer : ∃ buffer : Bytes, ∃ s₁, buffer.length ≤ pMtd.iPageSize ∧
      Ends h (readBackBuffer g pMtd) s (.ret buffer) s₁ := by
    unfold readBackBuffer
    split
    · refine ⟨cells.1, _, Nat.le_of_eq cells.2, sysOrFail_ends rfl ?_⟩
      rw [hmalloc]
      rfl
    · exact ⟨[], s, Nat.zero_le _, ends_pure _ s⟩
  obtain ⟨buffer, s₁, hlen, hbuffer⟩ := hbuffer
  have hattempt : Returns h (writeAttempts g pMtd data offset cMaxRetries buffer) s₁
      fun done _ => done = true := by
    unfold cMaxRetries writeAttempts pwriteUnlessDry
    by_cases hdry : g.cDryRun = true
    · rw [if_pos hdry, hdry]
      refine Returns.andThen (returns_pure (Q := fun n _ => n = (data.length : ℤ)) rfl) ?_
      intro n t hn
      rw [if_neg (not_not.mpr hn)]
      exact returns_pure rfl
    · rw [if_neg hdry]
      refine returns_call ?_
      rw [if_neg (not_not.mpr (hgrants.pwrite s₁ data offset))]
      split
      swap
      · exact returns_pure rfl
      obtain ⟨bytes, hread, hbytes⟩ := hgrants.pread s₁ data _ offset hdata
      have hfilled : fillBuffer buffer bytes.1 = data := by
        rw [fillBuffer, hbytes, List.drop_of_length_le (by omega), List.append_nil]
      refine returns_call ?_
      rw [hread]
      dsimp only
      rw [hfilled, if_neg (not_not.mpr rfl)]
      exact returns_pure rfl
  obtain ⟨done, s₂, hattempt, hdone⟩ := hattempt
  refine ⟨s₂, Ends.andThen hbuffer (Ends.andThen hattempt ?_)⟩
  rw [if_pos hdone]
  exact ends_pure () s₂

/-- Where no piece is to come, the whole file has been read. -/
theorem Read.finished (hserves : Serves h path content pos) (hgrants : Grants h) {size : ℕ}
    (hpieces : InPieces h size count pieces) (hsize : 0 < size) {crc : Crc}
    (hread : Read content pos crc s) (hnone : pieces s = 0) :
    pos s = content.length ∧ crc = crc32 0 content := by
  obtain ⟨bytes, hbytes⟩ := hgrants.readSrc s size
  have hempty : bytes.1 = [] := by
    by_contra hmore
    have hfewer := hpieces.next s bytes hbytes hmore
    omega
  exact hread.whole (hserves.last s size bytes hsize hbytes hempty)

/-- What the loop of `MtdPartWrite` keeps: where the next page is, what has been
read, and a good page for each piece that is to come. -/
structure Writing (pMtd : MtdPartition) (content : Bytes) (bad : ℕ → Bool) (pos pieces : σ → ℕ)
    (st : WriteState) (s : σ) : Prop where
  /-- The next page is one of the partition, or behind them. -/
  page : ∃ i, st.iCurrentOffs = i * pMtd.iPageSize ∧ pieces s ≤
    (goodUnits bad pMtd.iPageSize i
      ((pMtd.xInfo.size + pMtd.iPageSize - 1) / pMtd.iPageSize - i)).length
  /-- The bytes of the file. -/
  total : st.iBytesReadTotal = pos s
  /-- Their checksum. -/
  read : Read content pos st.uiCRC32 s

/-- How that loop ends. -/
def WriteDone (content : Bytes) (out : Outcome ExitReason WriteState) : Prop :=
  ∃ st, out = .ret st ∧ st.iBytesReadTotal = content.length ∧ st.uiCRC32 = crc32 0 content

/-- A page of the partition has an offset inside it. -/
theorem page_inside_iff {size page i : ℕ} (hpage : 0 < page) :
    i < (size + page - 1) / page ↔ i * page < size := by
  rw [Nat.lt_iff_add_one_le, Nat.le_div_iff_mul_le hpage, Nat.succ_mul]
  omega

/-- A bad page leaves as many good ones behind it, any other one fewer. -/
theorem length_goodUnits_behind (bad : ℕ → Bool) (unit i n : ℕ) :
    (goodUnits bad unit i (n - i)).length ≤
      (goodUnits bad unit (i + 1) (n - (i + 1))).length + if bad (i * unit) then 0 else 1 := by
  cases hleft : n - i with
  | zero => exact Nat.zero_le _
  | succ left =>
    rw [show n - (i + 1) = left by omega]
    cases hbad : bad (i * unit) with
    | true =>
      rw [goodUnits_bad bad unit hbad]
      exact Nat.le_add_right _ _
    | false => rw [goodUnits_good bad unit hbad, if_neg Bool.false_ne_true, List.length_cons]

/-- The loop goes on with the next page, or all pieces have been read. -/
theorem Writing.step (st : WriteState) (hserves : Serves h path content pos) (hgrants : Grants h)
    (hpieces : InPieces h pMtd.iPageSize count pieces) (hpage : 0 < pMtd.iPageSize)
    {i : ℕ} (hoff : st.iCurrentOffs = i * pMtd.iPageSize)
    (hroom : pieces s ≤ (goodUnits bad pMtd.iPageSize (i + 1)
      ((pMtd.xInfo.size + pMtd.iPageSize - 1) / pMtd.iPageSize - (i + 1))).length)
    (htotal : st.iBytesReadTotal = pos s) (hread : Read content pos st.uiCRC32 s) {st₀ : WriteState}
    (hfrom : st₀.iCurrentOffs = i * pMtd.iPageSize) (s₀ : σ) :
    Leaves h (pure (st.step pMtd) : Flash (WriteState ⊕ WriteState)) s
      (Passes (Writing pMtd content bad pos pieces)
        (fun st _ => pMtd.xInfo.size - st.iCurrentOffs) (fun out _ => WriteDone content out)
        st₀ s₀) := by
  have hnext : st.iCurrentOffs + pMtd.iPageSize = (i + 1) * pMtd.iPageSize := by
    rw [hoff, Nat.succ_mul]
  unfold WriteState.step
  dsimp only
  split
  · rename_i hinside
    refine leaves_pure ⟨⟨⟨i + 1, hnext, hroom⟩, htotal, hread⟩, ?_⟩
    dsimp only
    omega
  · rename_i hbehind
    have hnone : pieces s = 0 := by
      have hlast : ¬i + 1 < (pMtd.xInfo.size + pMtd.iPageSize - 1) / pMtd.iPageSize := by
        rw [page_inside_iff hpage, ← hnext]
        exact hbehind
      rw [show (pMtd.xInfo.size + pMtd.iPageSize - 1) / pMtd.iPageSize - (i + 1) = 0 by omega,
        goodUnits, List.length_nil] at hroom
      omega
    obtain ⟨hpos, hsum⟩ := hread.finished hserves hgrants hpieces hpage hnone
    exact leaves_pure ⟨_, rfl, htotal.trans hpos, hsum⟩

/-- One pass of that loop. -/
theorem writePass_cut (hserves : Serves h path content pos)
    (hgrants : GrantsFlash h pMtd.uiPartition bad)
    (hpieces : InPieces h pMtd.iPageSize count pieces) (hpage : 0 < pMtd.iPageSize)
    (hsums : pMtd.cChecksumCalculated = false) {st : WriteState}
    (hst : Writing pMtd content bad pos pieces st s) :
    Leaves h (writePass g pMtd st) s (Passes (Writing pMtd content bad pos pieces)
      (fun st _ => pMtd.xInfo.size - st.iCurrentOffs) (fun out _ => WriteDone content out)
      st s) := by
  obtain ⟨⟨i, hoff, hroom⟩, htotal, hread⟩ := hst
  have hbehind := length_goodUnits_behind bad pMtd.iPageSize i
    ((pMtd.xInfo.size + pMtd.iPageSize - 1) / pMtd.iPageSize)
  let asked := h (.memGetBadBlock pMtd.uiPartition st.iCurrentOffs) s
  have hasked : pos asked.2 = pos s := hserves.kept s _ (by decide : CallKind.harmless ≠ .reads)
  have hfewer : pieces asked.2 ≤ pieces s :=
    hpieces.kept s _ (by decide : CallKind.harmless ≠ .reads)
  refine leaves_granted (hgrants.memGetBadBlock s st.iCurrentOffs) ?_
  cases hbad : bad st.iCurrentOffs with
  | true =>
    rw [if_pos rfl]
    refine Writing.step st hserves hgrants.toGrants hpieces hpage hoff ?_ (htotal.trans hasked.symm)
      (hread.kept hasked) hoff s
    rw [hoff] at hbad
    rw [hbad, if_pos rfl] at hbehind
    omega
  | false =>
    rw [if_neg Bool.false_ne_true]
    obtain ⟨bytes, hbytes⟩ := hgrants.readSrc asked.2 pMtd.iPageSize
    refine leaves_granted (a := bytes) hbytes ?_
    have hfront := hread.kept hasked
    split
    · rename_i hempty
      obtain ⟨hpos, hsum⟩ := hfront.whole (hserves.last _ _ bytes hpage hbytes hempty)
      exact leaves_pure ⟨st, rfl, htotal.trans (hasked.symm.trans hpos), hsum⟩
    · rename_i hmore
      obtain ⟨hnext, hmoved⟩ := hfront.next hserves hbytes
      have hcount := hpieces.next _ bytes hbytes hmore
      have hfilled : (fillPage pMtd.cIsJFFS2 pMtd.iPageSize bytes.1).length = pMtd.iPageSize :=
        length_fillPage _ bytes.2
      obtain ⟨t, hwritten⟩ := writePage_granted (g := g) hgrants hfilled st.iCurrentOffs
        (h (.readSrc pMtd.iPageSize) asked.2).2
      have hpaged := writePage_sat g pMtd (fillPage pMtd.cIsJFFS2 pMtd.iPageSize bytes.1)
        st.iCurrentOffs
      have hkept := position_kept hserves hwritten hpaged fun _ => reads_of_paging
      have hleft := hwritten.keeps (I := fun t => pieces t < pieces asked.2) hpaged
        (fun q t hq ht => Nat.lt_of_le_of_lt (hpieces.kept t q (reads_of_paging hq)) ht) hcount
      refine hwritten.leaves (Writing.step (st.add pMtd bytes.1) hserves hgrants.toGrants
        hpieces hpage hoff ?_ ?_ ?_ hoff s)
      · rw [hoff] at hbad
        rw [hbad, if_neg Bool.false_ne_true] at hbehind
        omega
      · rw [hkept, hmoved, hasked, ← htotal]
        rfl
      · rw [WriteState.add, hsums]
        exact hnext.kept hkept

/-- `MtdPartWrite`, with a good page for each piece. -/
theorem mtdPartWrite_cut (hserves : Serves h pMtd.szImageFileName content pos)
    (hgrants : GrantsFlash h pMtd.uiPartition bad)
    (hpieces : InPieces h pMtd.iPageSize (pagesFor pMtd bad).length pieces)
    (hpage : 0 < pMtd.iPageSize) (hsums : pMtd.cChecksumCalculated = false)
    (hlength : pMtd.iFileSize = content.length) (hfuel : pMtd.xInfo.size < g.fuel) (s : σ) :
    Leaves h (mtdPartWrite g pMtd) s fun out _ =>
      out = .ret (recordWritten pMtd (crc32 0 content)) := by
  obtain ⟨cells, hmalloc⟩ := hgrants.malloc s pMtd.iPageSize
  refine leaves_granted (a := cells) hmalloc ?_
  have hopen := hgrants.openSrc (h (.malloc pMtd.iPageSize) s).2 pMtd.szImageFileName
  have hfront := read_front hserves hopen
  have hfirst := hserves.opened _ hopen
  have hcount := hpieces.opened (h (.malloc pMtd.iPageSize) s).2 pMtd.szImageFileName
  refine leaves_succeeded (succeeded_iff.mpr hopen) ?_
  generalize (h (.openSrc pMtd.szImageFileName) (h (.malloc pMtd.iPageSize) s).2).2 = s₁
    at hfront hfirst hcount
  have hseek : pos (h (.lseekMtd pMtd.uiPartition) s₁).2 = pos s₁ :=
    hserves.kept s₁ _ (by decide : CallKind.harmless ≠ .reads)
  have hfewer : pieces (h (.lseekMtd pMtd.uiPartition) s₁).2 ≤ pieces s₁ :=
    hpieces.kept s₁ _ (by decide : CallKind.harmless ≠ .reads)
  refine leaves_succeeded (succeeded_iff.mpr (hgrants.lseekMtd s₁)) (Leaves.andThen ?_)
  refine Leaves.mono (Q := fun out _ => WriteDone content out) ?_ fun out t hout => ?_
  · refine leaves_loop (Writing pMtd content bad pos pieces)
      (fun st _ => pMtd.xInfo.size - st.iCurrentOffs)
      (fun st t hst => writePass_cut hserves hgrants hpieces hpage hsums hst) ?_ ?_
    · dsimp only
      omega
    · refine ⟨⟨0, (Nat.zero_mul _).symm, ?_⟩, by rw [hseek, hfirst], hfront.kept hseek⟩
      rw [Nat.sub_zero]
      exact hfewer.trans hcount
  · obtain ⟨st, rfl, htotal, hsum⟩ := hout
    rw [resumes_ret]
    refine leaves_succeeded (succeeded_iff.mpr (hgrants.closeSrc t)) ?_
    rw [if_neg (not_not.mpr (hlength.trans htotal.symm)), hsum]
    exact leaves_pure rfl

end Pages

end Loops

/-- What any of the four functions returns for a file has its checksum. -/
structure SumsOnly {σ : Type} (h : Handler Op Resp σ) (g : Globals) (path : Path)
    (content : Bytes) : Prop where
  /-- `CalcCRC32OfFile`. -/
  calcCRC32OfFile : ∀ s s' uiCRC32, Ends h (calcCRC32OfFile g path) s (.ret uiCRC32) s' →
    uiCRC32 = crc32Bitwise content
  /-- `MtdPartVerifyFile`. -/
  mtdPartVerifyFile : ∀ s s' pMtd q, pMtd.szImageFileName = path → 0 < pMtd.xInfo.erasesize →
    Ends h (mtdPartVerifyFile g pMtd) s (.ret q) s' → q.uiCRC32 = crc32Bitwise content
  /-- `MtdPartCopyFile`. -/
  mtdPartCopyFile : ∀ s s' pMtd q szDstFileName, pMtd.szImageFileName = path →
    0 < pMtd.xInfo.erasesize → Ends h (mtdPartCopyFile g pMtd szDstFileName) s (.ret q) s' →
    q.uiCRC32 = crc32Bitwise content
  /-- `MtdPartWrite`. -/
  mtdPartWrite : ∀ s s' pMtd q, pMtd.szImageFileName = path → pMtd.cChecksumCalculated = false →
    pMtd.iFileSize = content.length → Ends h (mtdPartWrite g pMtd) s (.ret q) s' →
    q.uiCRC32 = crc32Bitwise content

/-- Each of them comes to its end where its calls are granted, with the checksum
of the file. -/
structure SumsAlways {σ : Type} (h : Handler Op Resp σ) (g : Globals) (path : Path)
    (content : Bytes) : Prop where
  /-- `CalcCRC32OfFile`. -/
  calcCRC32OfFile : Grants h → ∀ s, ∃ s',
    Ends h (calcCRC32OfFile g path) s (.ret (crc32Bitwise content)) s'
  /-- `MtdPartVerifyFile`. -/
  mtdPartVerifyFile : Grants h → ∀ s pMtd, pMtd.szImageFileName = path →
    0 < pMtd.xInfo.erasesize →
    ∃ out s', Ends h (mtdPartVerifyFile g pMtd) s out s' ∧ Summed pMtd (crc32Bitwise content) out
  /-- `MtdPartCopyFile`. -/
  mtdPartCopyFile : GrantsCopy h → ∀ s pMtd szDstFileName, pMtd.szImageFileName = path →
    0 < pMtd.xInfo.erasesize → pMtd.iFileSize = content.length →
    ∃ out s', Ends h (mtdPartCopyFile g pMtd szDstFileName) s out s' ∧
      Summed pMtd (crc32Bitwise content) out
  /-- `MtdPartWrite`, with a good page for each piece. -/
  mtdPartWrite : ∀ s pMtd bad pieces, GrantsFlash h pMtd.uiPartition bad →
    InPieces h pMtd.iPageSize (pagesFor pMtd bad).length pieces → pMtd.szImageFileName = path →
    0 < pMtd.iPageSize → pMtd.xInfo.size < g.fuel → pMtd.cChecksumCalculated = false →
    pMtd.iFileSize = content.length →
    ∃ s', Ends h (mtdPartWrite g pMtd) s (.ret (recordWritten pMtd (crc32Bitwise content))) s'

/-- The checksum does not depend on how a text is cut, and it is the usual one;
so is the checksum of a file in each of the four functions that sum it, however
the calls to read cut it. -/
theorem checksum_any_cut :
    (∀ chunks : List Bytes, chunks.foldl crc32 0 = crc32Bitwise chunks.flatten) ∧
    ∀ {σ : Type} (h : Handler Op Resp σ) (path : Path) (content : Bytes) (pos : σ → ℕ),
      Serves h path content pos → ∀ g : Globals,
      SumsOnly h g path content ∧ (content.length < g.fuel → SumsAlways h g path content) := by
  refine ⟨fun chunks => ?_, fun h path content pos hserves g => ⟨?_, fun hfuel => ?_⟩⟩
  · rw [foldl_crc32, crc32_eq_bitwise]
  · constructor
    · intro s s' uiCRC32 hrun
      rw [← crc32_eq_bitwise]
      exact calcCRC32OfFile_sum hserves hrun
    · intro s s' pMtd q hname hsize hrun
      rw [← hname] at hserves
      rw [← crc32_eq_bitwise]
      exact mtdPartVerifyFile_sum hserves hsize hrun
    · intro s s' pMtd q szDstFileName hname hsize hrun
      rw [← hname] at hserves
      rw [← crc32_eq_bitwise]
      exact mtdPartCopyFile_sum hserves hsize hrun
    · intro s s' pMtd q hname hsums hlength hrun
      rw [← hname] at hserves
      rw [← crc32_eq_bitwise]
      exact mtdPartWrite_sum hserves hsums hlength hrun
  · constructor
    · intro hgrants s
      have hrun := calcCRC32OfFile_cut hserves hgrants hfuel s
      rw [← crc32_eq_bitwise]
      exact ⟨_, hrun, rfl⟩
    · intro hgrants s pMtd hname hsize
      rw [← hname] at hserves
      rw [← crc32_eq_bitwise]
      exact ⟨_, _, ⟨rfl, rfl⟩, mtdPartVerifyFile_cut hserves hgrants hfuel hsize s⟩
    · intro hgrants s pMtd szDstFileName hname hsize hlength
      rw [← hname] at hserves
      rw [← crc32_eq_bitwise]
      exact ⟨_, _, ⟨rfl, rfl⟩,
        mtdPartCopyFile_cut hserves hgrants hfuel hsize hlength szDstFileName s⟩
    · intro s pMtd bad pieces hgrants hpieces hname hpage hsize hsums hlength
      rw [← hname] at hserves
      have hrun := mtdPartWrite_cut (g := g) hserves hgrants hpieces hpage hsums hlength hsize s
      rw [← crc32_eq_bitwise]
      exact ⟨_, hrun, rfl⟩

/-- A system that serves one file, one byte with every call, and has a flash
that keeps the last page. The second erase block is bad. -/
def dribble (content : Bytes) : Handler Op Resp (ℕ × Bytes) := fun o s =>
  match o with
  | .openSrc _ => (true, (0, s.2))
  | .readSrc size =>
    (some ⟨(content.drop s.1).take (min 1 size),
      (List.length_take_le ..).trans (Nat.min_le_right ..)⟩,
      (s.1 + ((content.drop s.1).take (min 1 size)).length, s.2))
  | .writeDst data => (data.length, s)
  | .memGetBadBlock _ offset => (if offset / 16 = 1 then .bad else .good, s)
  | .pwrite _ data _ => (data.length, (s.1, data))
  | .pread _ size _ => (some ⟨s.2.take size, List.length_take_le ..⟩, s)
  | o => ((respond smallEnv false o (smallWorld [])).1, s)

/-- It serves the file from front to end. -/
theorem dribble_serves (path : Path) (content : Bytes) :
    Serves (dribble content) path content Prod.fst where
  opened _ _ := rfl
  next s size bytes hread := by
    rw [← Option.some.inj hread]
    exact List.take_prefix ..
  last s size bytes hsize hread hempty := by
    rw [← Option.some.inj hread] at hempty
    rcases List.take_eq_nil_iff.mp hempty with hzero | hnil
    · omega
    · exact List.drop_eq_nil_iff.mp hnil
  moved s size bytes hread := by
    rw [← Option.some.inj hread]
    rfl
  kept s o ho := by
    cases o <;> first
      | rfl
      | exact absurd rfl ho

/-- It grants every call about the image. -/
theorem dribble_grants (content : Bytes) : Grants (dribble content) where
  malloc _ _ := ⟨_, rfl⟩
  openSrc _ _ := rfl
  readSrc _ _ := ⟨_, rfl⟩
  closeSrc _ := rfl

/-- It grants every call about the copy. -/
theorem dribble_grantsCopy (content : Bytes) : GrantsCopy (dribble content) where
  toGrants := dribble_grants content
  openDst _ _ := rfl
  writeDst _ _ := rfl
  closeDst _ := rfl

/-- It grants every call about flash, with the second block bad. -/
theorem dribble_grantsFlash (content : Bytes) (part : ℕ) :
    GrantsFlash (dribble content) part (fun offset => offset / 16 = 1) where
  toGrants := dribble_grants content
  lseekMtd _ := rfl
  memGetBadBlock s offset := by
    by_cases hbad : offset / 16 = 1
    · simp [dribble, hbad, isBadBlockReply]
    · simp [dribble, hbad, isBadBlockReply]
  pwrite _ _ _ := rfl
  pread s data size offset hsize := ⟨_, rfl, List.take_of_length_le (Nat.le_of_eq hsize)⟩

/-- One piece for each byte. -/
theorem dribble_inPieces (content : Bytes) {size count : ℕ} (hcount : content.length ≤ count) :
    InPieces (dribble content) size count (fun s => content.length - s.1) where
  opened _ _ := (Nat.sub_le _ _).trans hcount
  next s bytes hread hmore := by
    rw [← Option.some.inj hread] at hmore
    have hpos := List.length_pos_iff.mpr hmore
    have hlen := List.length_take_le (min 1 size) (content.drop s.1)
    rw [List.length_take, List.length_drop] at hpos
    simp only [dribble, List.length_take, List.length_drop]
    omega
  kept s o ho := by
    cases o <;> first
      | exact Nat.le_refl _
      | exact absurd rfl ho

/-- A record of a file of five bytes, for a partition with pages of four. -/
def cutPart : MtdPartition :=
  { cleared with
    szImageFileName := text "uImage-x"
    iFileSize := 5
    iPageSize := 4
    xInfo := smallInfo }

/-- All four functions on a file of five bytes that is read byte by byte. Its
pages go past the bad block. -/
theorem checksum_any_cut_example :
    (∃ s', Ends (dribble (text "12345")) (calcCRC32OfFile { fuel := 65 } (text "uImage-x")) (0, [])
      (.ret (crc32Bitwise (text "12345"))) s') ∧
    (∃ q s', Ends (dribble (text "12345")) (mtdPartVerifyFile { fuel := 65 } cutPart) (0, [])
      (.ret q) s' ∧ q.uiCRC32 = crc32Bitwise (text "12345")) ∧
    (∃ q s', Ends (dribble (text "12345"))
      (mtdPartCopyFile { fuel := 65 } cutPart (text "/tmp/uImage-x")) (0, []) (.ret q) s' ∧
        q.uiCRC32 = crc32Bitwise (text "12345")) ∧
    ∃ s', Ends (dribble (text "12345")) (mtdPartWrite { fuel := 65, cMarkBadBlocks := true } cutPart)
      (0, []) (.ret (recordWritten cutPart (crc32Bitwise (text "12345")))) s' := by
  have hserves := dribble_serves (text "uImage-x") (text "12345")
  have hsums := (checksum_any_cut.2 _ _ _ _ hserves { fuel := 65 }).2 (by decide)
  have hmarks := (checksum_any_cut.2 _ _ _ _ hserves { fuel := 65, cMarkBadBlocks := true }).2
    (by decide)
  have hreturned : ∀ out, Summed cutPart (crc32Bitwise (text "12345")) out →
      ∃ q, out = .ret q ∧ q.uiCRC32 = crc32Bitwise (text "12345") := by
    rintro out (hret | ⟨hset, -⟩ | ⟨hjffs2, -⟩)
    · exact hret
    · cases hset
    · cases hjffs2
  refine ⟨hsums.calcCRC32OfFile (dribble_grants _) (0, []), ?_, ?_, ?_⟩
  · obtain ⟨out, s', hends, hout⟩ := hsums.mtdPartVerifyFile (dribble_grants _) (0, []) cutPart rfl
      (by decide)
    obtain ⟨q, rfl, hq⟩ := hreturned out hout
    exact ⟨q, s', hends, hq⟩
  · obtain ⟨out, s', hends, hout⟩ := hsums.mtdPartCopyFile (dribble_grantsCopy _) (0, []) cutPart
      (text "/tmp/uImage-x") rfl (by decide) rfl
    obtain ⟨q, rfl, hq⟩ := hreturned out hout
    exact ⟨q, s', hends, hq⟩
  · exact hmarks.mtdPartWrite (0, []) cutPart _ _ (dribble_grantsFlash _ _)
      (dribble_inPieces _ (by decide)) rfl (by decide) (by decide) rfl rfl

end MetaDigi.FileCuts
