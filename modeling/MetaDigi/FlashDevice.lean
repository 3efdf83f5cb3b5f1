import MetaDigi.FlashWorld
import MetaDigi.FlashTransfer
import MetaDigi.SystemRuns
import MetaDigi.BlockLayout

/-!
# A partition as the tool sees it

The good pages of a partition in ascending order are its image. The driver
gives it a geometry in which pages fill erase blocks and erase blocks fill the
partition, so that pages and erase blocks walk over the same image. What a
single call of the tool does to the system is stated here in both directions:
for a call that is known to have succeeded, and for a system in which none
fails.
-/

namespace MetaDigi.FlashDevice

open CStrings SystemProgram SystemRuns FlashTypes FlashInit FlashTransfer FlashWorld BlockLayout

section Geometry

variable (env : Env) (part : ℕ)

/-- The size of a page: what the tool writes at once. -/
def pageSize : ℕ :=
  if (env.info part).type = .nandFlash then (env.info part).writesize
  else (env.info part).erasesize

/-- The number of pages. -/
def pageCount : ℕ := (env.info part).size / pageSize env part

/-- The number of erase blocks. -/
def blockCount : ℕ := (env.info part).size / (env.info part).erasesize

/-- Pages fill erase blocks, and erase blocks fill the partition. -/
structure Geometry : Prop where
  /-- A page has some cells. -/
  page_pos : 0 < pageSize env part
  /-- An erase block consists of whole pages. -/
  page_dvd : pageSize env part ∣ (env.info part).erasesize
  /-- The partition consists of whole erase blocks. -/
  erase_dvd : (env.info part).erasesize ∣ (env.info part).size
  /-- There is at least one erase block. -/
  size_pos : 0 < (env.info part).size

/-- The cells of the good pages of a partition in ascending order. -/
def image (mem : FlashMem) : Bytes :=
  goodCells (mem part) (env.badAt part) (pageSize env part) 0 (pageCount env part)

/-- The number of bytes in good blocks. -/
def goodBytes : ℕ :=
  (goodUnits (env.badAt part) (env.info part).erasesize 0 (blockCount env part)).length *
    (env.info part).erasesize

variable {env part} (hg : Geometry env part)

include hg

/-- A block has some cells. -/
theorem Geometry.erase_pos : 0 < (env.info part).erasesize :=
  Nat.pos_of_dvd_of_pos hg.erase_dvd hg.size_pos

/-- The blocks make up the partition. -/
theorem Geometry.blocks_mul :
    blockCount env part * (env.info part).erasesize = (env.info part).size :=
  Nat.div_mul_cancel hg.erase_dvd

/-- So do the pages. -/
theorem Geometry.pages_mul : pageCount env part * pageSize env part = (env.info part).size :=
  Nat.div_mul_cancel (Nat.dvd_trans hg.page_dvd hg.erase_dvd)

/-- There is a page. -/
theorem Geometry.pageCount_pos : 0 < pageCount env part := by
  refine Nat.pos_of_mul_pos_right (b := pageSize env part) ?_
  rw [hg.pages_mul]
  exact hg.size_pos

/-- There is an erase block. -/
theorem Geometry.blockCount_pos : 0 < blockCount env part :=
  Nat.div_pos (Nat.le_of_dvd hg.size_pos hg.erase_dvd) hg.erase_pos

/-- There are not more erase blocks than pages. -/
theorem Geometry.blockCount_le : blockCount env part ≤ pageCount env part :=
  Nat.div_le_div_left (Nat.le_of_dvd hg.erase_pos hg.page_dvd) hg.page_pos

/-- All pages of an erase block are good, or all are bad. -/
theorem Geometry.badAt_page {k : ℕ} (hk : (env.info part).erasesize = k * pageSize env part)
    (i j : ℕ) (hj : j < k) :
    env.badAt part ((i * k + j) * pageSize env part) =
      env.badAt part (i * (k * pageSize env part)) := by
  have hoffset : (i * k + j) * pageSize env part =
      j * pageSize env part + (k * pageSize env part) * i := by
    rw [Nat.add_mul, Nat.add_comm, Nat.mul_assoc, Nat.mul_comm i]
  have hsmall : j * pageSize env part < k * pageSize env part :=
    Nat.mul_lt_mul_of_pos_right hj hg.page_pos
  have hpos : 0 < k * pageSize env part := Nat.lt_of_le_of_lt (Nat.zero_le _) hsmall
  unfold Env.badAt
  rw [hk, hoffset, Nat.add_mul_div_left _ _ hpos, Nat.div_eq_of_lt hsmall, Nat.zero_add,
    Nat.mul_div_cancel _ hpos]

/-- The pages are those of the blocks. -/
theorem Geometry.pageCount_eq {k : ℕ} (hk : (env.info part).erasesize = k * pageSize env part) :
    pageCount env part = blockCount env part * k := by
  refine Nat.eq_of_mul_eq_mul_right hg.page_pos ?_
  rw [hg.pages_mul, Nat.mul_assoc, ← hk, hg.blocks_mul]

/-- The image walked by erase blocks. -/
theorem Geometry.image_blocks (mem : FlashMem) :
    image env part mem =
      goodCells (mem part) (env.badAt part) (env.info part).erasesize 0 (blockCount env part) := by
  obtain ⟨k, hk⟩ := hg.page_dvd
  rw [Nat.mul_comm] at hk
  have hpages := hg.pageCount_eq hk
  have hwalk := goodCells_pages (env.badAt part) (mem part) (hg.badAt_page hk) 0
    (blockCount env part)
  rw [Nat.zero_mul, ← hk] at hwalk
  rw [image, hpages, hwalk]

/-- The image has all good bytes. -/
theorem Geometry.length_image (mem : FlashMem) :
    (image env part mem).length = goodBytes env part := by
  rw [hg.image_blocks, length_goodCells, goodBytes]

end Geometry

/-- A range inside the partition is read as it is. -/
theorem readMem_inside (mem : FlashMem) {size part offset n : ℕ} (h : offset + n ≤ size) :
    readMem mem size part offset n = unitCells (mem part) n offset := by
  rw [readMem, Nat.min_eq_left (by omega), unitCells]

/-- A record has what the driver says about its partition. -/
structure Describes (env : Env) (pMtd : MtdPartition) : Prop where
  /-- The record holds the information of the driver. -/
  info : pMtd.xInfo = env.info pMtd.uiPartition
  /-- The record knows whether the partition is NAND. -/
  nand : pMtd.cIsNAND = decide ((env.info pMtd.uiPartition).type = .nandFlash)
  /-- The record knows the size of a page. -/
  page : pMtd.iPageSize = pageSize env pMtd.uiPartition

section Described

variable {pMtd : MtdPartition} (hd : Describes env pMtd) (hg : Geometry env pMtd.uiPartition)
include hd hg

/-- The record has a page size. -/
theorem Describes.page_pos : 0 < pMtd.iPageSize := by
  rw [hd.page]
  exact hg.page_pos

/-- It has a block size. -/
theorem Describes.erase_pos : 0 < pMtd.xInfo.erasesize := by
  rw [hd.info]
  exact hg.erase_pos

/-- The partition as the record has it. -/
theorem Describes.size_eq :
    pMtd.xInfo.size = pageCount env pMtd.uiPartition * pMtd.iPageSize := by
  rw [hd.info, hd.page, hg.pages_mul]

end Described

section Calls

variable {σ α : Type} {h : Handler Op Resp σ} {inside : Func} {o : Op}
  {answer : Resp o → Option α} {s s' : σ} {a : α}

/-- A call that did not leave had a successful answer. -/
theorem sysOrFail_inv (hrun : Ends h (sysOrFail inside o answer) s (.ret a) s') :
    answer (h o s).1 = some a ∧ s' = (h o s).2 := by
  obtain ⟨r, s₁, hcall, hrest⟩ := Ends.split hrun
  obtain ⟨hr, hs₁⟩ := hcall.perform_inv
  rw [hr, hs₁] at hrest
  split at hrest
  · rename_i b hb
    obtain ⟨ha, hs'⟩ := hrest.pure_inv
    exact ⟨by rw [hb, ha], hs'⟩
  · exact hrest.exit_inv.elim

/-- A call with a successful answer does not leave. -/
theorem sysOrFail_ends {r : Resp o} (hcall : h o s = (r, s')) (hanswer : answer r = some a) :
    Ends h (sysOrFail inside o answer) s (.ret a) s' := by
  have hrun := ends_perform (E := ExitReason) (h := h) o s
  rw [hcall] at hrun
  refine Ends.andThen hrun ?_
  dsimp only
  rw [hanswer]
  exact ends_pure a _

end Calls

section Succeeded

variable {env : Env} {pMtd : MtdPartition} {w w' : World}

/-- The answer about a bad block is the truth, for an offset inside NAND. -/
theorem mtdPartIsBadBlock_inv {offset : ℕ} {bad : Bool}
    (hrun : Ends (system env) (mtdPartIsBadBlock pMtd offset) w (.ret bad) w') :
    bad = env.badAt pMtd.uiPartition offset ∧ w' = w.enter env := by
  obtain ⟨hanswer, hw'⟩ := sysOrFail_inv hrun
  refine ⟨?_, hw'⟩
  dsimp only [system, respond] at hanswer
  split at hanswer
  · exact absurd hanswer nofun
  · unfold Env.badBlockReply at hanswer
    split at hanswer
    · rename_i htype
      have hgood : false = bad := Option.some.inj hanswer
      rw [← hgood, Env.badAt]
      exact (decide_eq_false fun h => htype h.1).symm
    · split at hanswer
      · exact absurd hanswer nofun
      · split at hanswer
        · rename_i hbad
          rw [hbad]
          exact (Option.some.inj hanswer).symm
        · rename_i hbad
          rw [Bool.eq_false_iff.mpr hbad]
          exact (Option.some.inj hanswer).symm

/-- Closing leaves everything but the record. -/
theorem mtdPartClose_inv {q : MtdPartition}
    (hrun : Ends (system env) (mtdPartClose pMtd) w (.ret q) w') :
    q = { pMtd with isOpen := false } ∧ w' = w.enter env := by
  obtain ⟨_, w₁, hcall, hrest⟩ := Ends.split hrun
  obtain ⟨hq, hw'⟩ := hrest.pure_inv
  exact ⟨hq, hw'.trans (sysOrFail_inv hcall).2⟩

/-- Opening leaves everything but the record. -/
theorem mtdPartOpen_inv {g : Globals} {cReadOnly : Bool} {q : MtdPartition}
    (hrun : Ends (system env) (mtdPartOpen g pMtd cReadOnly) w (.ret q) w') :
    q = { pMtd with acName := g.szMtdPrefix ++ decimal pMtd.uiPartition, isOpen := true } ∧
      w' = w.enter env := by
  unfold mtdPartOpen at hrun
  split at hrun
  · exact hrun.exit_inv.elim
  · obtain ⟨_, w₁, hcall, hrest⟩ := Ends.split hrun
    obtain ⟨hq, hw'⟩ := hrest.pure_inv
    exact ⟨hq, hw'.trans (sysOrFail_inv hcall).2⟩

/-- Memory is handed out without any other effect. -/
theorem malloc_inv {inside : Func} {size : ℕ} {cells : Cells size}
    (hrun : Ends (system env) (sysOrFail inside (.malloc size) id) w (.ret cells) w') :
    w' = w.enter env :=
  (sysOrFail_inv hrun).2

/-- What is read from flash is what it holds. -/
theorem pread_inv {inside : Func} {part size offset : ℕ} {bytes : Chunk size}
    (hrun : Ends (system env) (sysOrFail inside (.pread part size offset) id) w (.ret bytes) w') :
    bytes.1 = readMem w.mem (env.info part).size part offset size ∧ w' = w.enter env := by
  obtain ⟨hanswer, hw'⟩ := sysOrFail_inv hrun
  refine ⟨?_, hw'⟩
  dsimp only [system, respond, id] at hanswer
  split at hanswer
  · exact absurd hanswer nofun
  · rw [← Option.some.inj hanswer]
    rfl

/-- A file that was opened exists, and is read from its start. -/
theorem openSrc_inv {inside : Func} {path : Path} {u : Unit}
    (hrun : Ends (system env) (sysOrFail inside (.openSrc path) succeeded) w (.ret u) w') :
    (w.enter env).files path ≠ none ∧
      w' = { w.enter env with src := some (path, 0), lastRead := [] } := by
  obtain ⟨hanswer, hw'⟩ := sysOrFail_inv hrun
  rw [hw']
  dsimp only [system, respond] at hanswer ⊢
  split at hanswer
  · exact absurd hanswer nofun
  · rename_i hopen
    rw [if_neg hopen]
    exact ⟨fun hnone => hopen (.inr hnone), rfl⟩

/-- The piece of a file that a call reads. -/
def piece (files : Files) (path : Path) (pos size : ℕ) : Bytes :=
  (((files path).getD []).drop pos).take size

/-- What is read from a file is the next piece of it. -/
theorem readSrc_inv {inside : Func} {size : ℕ} {bytes : Chunk size}
    (hrun : Ends (system env) (sysOrFail inside (.readSrc size) id) w (.ret bytes) w') :
    ∃ path pos, w.src = some (path, pos) ∧
      bytes.1 = piece (w.enter env).files path pos size ∧
      w' = { w.enter env with
        src := some (path, pos + bytes.1.length), lastRead := w.lastRead ++ bytes.1 } := by
  obtain ⟨hanswer, hw'⟩ := sysOrFail_inv hrun
  rw [hw']
  dsimp only [system, respond, id] at hanswer ⊢
  cases hfails : env.fails w.time (.readSrc size) with
  | true =>
    rw [hfails] at hanswer
    exact absurd hanswer nofun
  | false =>
    have hsrc : (w.enter env).src = w.src := rfl
    rw [hfails] at hanswer
    cases hw : w.src with
    | none =>
      rw [hsrc, hw] at hanswer
      exact absurd hanswer nofun
    | some file =>
      obtain ⟨path, pos⟩ := file
      rw [hsrc, hw] at hanswer ⊢
      have hbytes : bytes.1 = piece (w.enter env).files path pos size := by
        rw [← Option.some.inj hanswer]
        rfl
      refine ⟨path, pos, rfl, hbytes, ?_⟩
      rw [hbytes]
      rfl

end Succeeded

/-- A system in which every call succeeds and nobody else changes files. -/
structure Works (env : Env) : Prop where
  /-- No call fails. -/
  fails : ∀ t o, env.fails t o = false
  /-- The files are left to the tool. -/
  interfere : ∀ t files, env.interfere t files = files

section Works

variable {env : Env} (hworks : Works env) (pMtd : MtdPartition) (w : World)

include hworks

/-- Nobody else has a turn. -/
theorem enter_works : w.enter env = { w with time := w.time + 1 } := by
  rw [World.enter, hworks.interfere]

/-- Calls are answered without failure. -/
theorem system_works (o : Op) :
    system env o w = respond env false o { w with time := w.time + 1 } := by
  rw [system, hworks.fails, enter_works hworks]

/-- The answer about a block of the partition. -/
theorem mtdPartIsBadBlock_ends (offset : ℕ)
    (hoffset : offset < (env.info pMtd.uiPartition).size) :
    Ends (system env) (mtdPartIsBadBlock pMtd offset) w
      (.ret (env.badAt pMtd.uiPartition offset)) { w with time := w.time + 1 } := by
  refine sysOrFail_ends (system_works hworks w _) ?_
  rw [if_neg Bool.false_ne_true, Env.badBlockReply]
  split
  · rename_i htype
    rw [Env.badAt, decide_eq_false fun h => htype h.1]
    rfl
  · rw [if_neg (by omega)]
    cases env.badAt pMtd.uiPartition offset <;> rfl

/-- A partition can be closed. -/
theorem mtdPartClose_ends :
    Ends (system env) (mtdPartClose pMtd) w (.ret { pMtd with isOpen := false })
      { w with time := w.time + 1 } :=
  Ends.andThen (sysOrFail_ends (system_works hworks w _) rfl) (ends_pure _ _)

/-- A partition that is not open can be opened. -/
theorem mtdPartOpen_ends (g : Globals) (cReadOnly : Bool) (hclosed : pMtd.isOpen = false) :
    Ends (system env) (mtdPartOpen g pMtd cReadOnly) w
      (.ret { pMtd with acName := g.szMtdPrefix ++ decimal pMtd.uiPartition, isOpen := true })
      { w with time := w.time + 1 } := by
  unfold mtdPartOpen
  rw [if_neg (by rw [hclosed]; exact Bool.false_ne_true)]
  exact Ends.andThen (sysOrFail_ends (system_works hworks w _) rfl) (ends_pure _ _)

/-- There is memory. -/
theorem malloc_ends (inside : Func) (size : ℕ) :
    Ends (system env) (sysOrFail inside (.malloc size) id) w (.ret (env.memory (w.time + 1) size))
      { w with time := w.time + 1 } :=
  sysOrFail_ends (system_works hworks w _) rfl

/-- Flash can be read. -/
theorem pread_ends (inside : Func) (part size offset : ℕ) :
    ∃ bytes : Chunk size, bytes.1 = readMem w.mem (env.info part).size part offset size ∧
      Ends (system env) (sysOrFail inside (.pread part size offset) id) w (.ret bytes)
        { w with time := w.time + 1 } :=
  ⟨⟨_, length_readMem_le ..⟩, rfl, sysOrFail_ends (system_works hworks w _) rfl⟩

/-- A file that exists can be opened. -/
theorem openSrc_ends (inside : Func) {path : Path} (hfile : w.files path ≠ none) :
    Ends (system env) (sysOrFail inside (.openSrc path) succeeded) w (.ret ())
      { w with time := w.time + 1, src := some (path, 0), lastRead := [] } := by
  have hopen : ¬ ((false : Bool) = true ∨ w.files path = none) := fun h =>
    h.elim Bool.false_ne_true hfile
  have hcall : system env (.openSrc path) w =
      (true, { w with time := w.time + 1, src := some (path, 0), lastRead := [] }) := by
    rw [system_works hworks]
    dsimp only [respond]
    rw [if_neg hopen]
  exact sysOrFail_ends hcall rfl

/-- The open file can be read. -/
theorem readSrc_ends (inside : Func) {path : Path} {pos : ℕ} (size : ℕ)
    (hsrc : w.src = some (path, pos)) :
    ∃ bytes : Chunk size, bytes.1 = piece w.files path pos size ∧
      Ends (system env) (sysOrFail inside (.readSrc size) id) w (.ret bytes)
        { w with
          time := w.time + 1
          src := some (path, pos + bytes.1.length)
          lastRead := w.lastRead ++ bytes.1 } := by
  refine ⟨⟨piece w.files path pos size, List.length_take_le ..⟩, rfl, ?_⟩
  have hcall : system env (.readSrc size) w =
      (some ⟨piece w.files path pos size, List.length_take_le ..⟩, { w with
        time := w.time + 1
        src := some (path, pos + (piece w.files path pos size).length)
        lastRead := w.lastRead ++ piece w.files path pos size }) := by
    rw [system_works hworks]
    dsimp only [respond]
    rw [hsrc]
    rfl
  exact sysOrFail_ends hcall rfl

/-- The open file can be closed. -/
theorem closeSrc_ends (inside : Func) :
    Ends (system env) (sysOrFail inside .closeSrc succeeded) w (.ret ())
      { w with time := w.time + 1, src := none } :=
  sysOrFail_ends (system_works hworks w _) rfl

/-- A call whose only answer is success, and which does nothing else. -/
theorem succeeded_ends (inside : Func) {o : Op} {answer : Resp o → Option Unit} {w' : World}
    (hanswer : answer (respond env false o { w with time := w.time + 1 }).1 = some ())
    (hstate : (respond env false o { w with time := w.time + 1 }).2 = w') :
    Ends (system env) (sysOrFail inside o answer) w (.ret ()) w' := by
  rw [← hstate]
  exact sysOrFail_ends (system_works hworks w o) hanswer

end Works

/-- The small system works. -/
theorem smallEnv_works : Works smallEnv := ⟨fun _ _ => rfl, fun _ _ => rfl⟩

/-- Its partitions consist of pages and blocks. -/
theorem smallEnv_geometry (part : ℕ) : Geometry smallEnv part :=
  ⟨(by decide : 0 < 4), (by decide : 4 ∣ 16), (by decide : 16 ∣ 64), (by decide : 0 < 64)⟩

end MetaDigi.FlashDevice
