import MetaDigi.FlashTransfer
import MetaDigi.FlashWorld
import MetaDigi.SystemRuns

/-!
# A configuration block in a file

The NVRAM tool copies the configuration block of an operating system to a file
and from one. Loading does not look at how much has been read, and the block
is handed on with whatever the memory held behind it. Storing does not cut the
file, so that the rest of a longer one stays.
-/

namespace MetaDigi.NvramFiles

open CStrings SystemProgram SystemRuns FlashTypes FlashTransfer FlashWorld
open Prog (ret_andThen exit_andThen)

/-- The calls of the two functions. There is one open file at most. -/
inductive FileOp where
  /-- `NvOSCfgFind`, answered by the `uiSize` of the block. -/
  | nvOSCfgFind (eOS : ℕ)
  /-- `NvOSCfgGet`, answered by the block. -/
  | nvOSCfgGet (eOS uiSize : ℕ)
  /-- `NvOSCfgSet`. -/
  | nvOSCfgSet (eOS : ℕ) (pvTmp : Bytes)
  /-- `malloc`. -/
  | malloc (size : ℕ)
  /-- `open(szFile, O_RDONLY)`. -/
  | openToRead (szFile : Path)
  /-- `read`. -/
  | read (size : ℕ)
  /-- `open(szFile, O_CREAT | O_WRONLY)`. -/
  | openToWrite (szFile : Path)
  /-- `write`. -/
  | write (pvTmp : Bytes)
  /-- `close`. -/
  | close
  deriving DecidableEq

/-- What a call is answered with, nothing for an error. -/
abbrev FileResp : FileOp → Type
  | .nvOSCfgFind _ => Option ℕ
  | .nvOSCfgGet _ uiSize => Option (Cells uiSize)
  | .nvOSCfgSet _ _ => Bool
  | .malloc size => Option (Cells size)
  | .openToRead _ => Bool
  | .read size => Option (Chunk size)
  | .openToWrite _ => Bool
  | .write pvTmp => Option (Fin (pvTmp.length + 1))
  | .close => Bool

/-- How the tool is left. -/
inductive FileError where
  /-- `ExitError` with the call that has failed. -/
  | exitError (cmd : Bytes)
  /-- `systemError` when there is no memory. -/
  | noMemory (uiSize : ℕ)
  /-- `systemError` with a text. -/
  | systemError (what : Bytes)
  deriving DecidableEq

/-- A part of the tool. -/
abbrev Tool := Prog FileOp FileResp FileError

/-- Issue a call, and leave when the answer says that it has failed. -/
def orFail {α : Type} (o : FileOp) (answer : FileResp o → Option α) (e : FileError) : Tool α :=
  Prog.perform o >>= fun r => match answer r with
    | some a => pure a
    | none => .exit e

/-- A call that only succeeds or fails. -/
def done (ok : Bool) : Option Unit := if ok then some () else none

/-- `OSLoadFromFile`. -/
def osLoadFromFile (eOS : ℕ) (szFile : Path) : Tool Unit := do
  let uiSize ← orFail (.nvOSCfgFind eOS) id (.exitError (text "NvOSCfgFind(&xCfg, eOS)"))
  let pvTmp ← orFail (.malloc uiSize) id (.noMemory uiSize)
  orFail (.openToRead szFile) done (.systemError szFile)
  let bytes ← orFail (.read uiSize) id (.systemError (text "read"))
  let pvTmp := fillBuffer pvTmp.1 bytes.1
  orFail .close done (.systemError (text "close"))
  orFail (.nvOSCfgSet eOS pvTmp) done
    (.exitError (text "NvOSCfgSet(eOS, pvTmp, xCfg.uiSize)"))

/-- All bytes have been written. The error is no size of a block: as a `uint32_t`
it is one that no memory can have. -/
def complete {pvTmp : Bytes} (count : Option (Fin (pvTmp.length + 1))) : Option Unit :=
  if count.map Fin.val = some pvTmp.length then some () else none

/-- `OSSaveToFile`. -/
def osSaveToFile (eOS : ℕ) (szFile : Path) : Tool Unit := do
  let uiSize ← orFail (.nvOSCfgFind eOS) id (.exitError (text "NvOSCfgFind(&xCfg, eOS)"))
  let _ ← orFail (.malloc uiSize) id (.noMemory uiSize)
  let pvTmp ← orFail (.nvOSCfgGet eOS uiSize) id
    (.exitError (text "NvOSCfgGet(eOS, pvTmp, xCfg.uiSize, &iSize)"))
  orFail (.openToWrite szFile) done (.systemError szFile)
  orFail (.write pvTmp.1) complete (.systemError (text "write"))
  orFail .close done (.systemError (text "close"))

/-- What the calls of a run answer, as far as they can choose. -/
structure Answers where
  /-- Whether `NvOSCfgFind` finds a block that is there. -/
  nvOSCfgFind : Bool
  /-- Whether `NvOSCfgGet` succeeds. -/
  nvOSCfgGet : Bool
  /-- Whether `NvOSCfgSet` succeeds. -/
  nvOSCfgSet : Bool
  /-- Whether there is memory. -/
  malloc : Bool
  /-- Whether the file can be opened. -/
  opens : Bool
  /-- How much `read` or `write` transfers at most, unless it fails. -/
  limit : Option ℕ
  /-- Whether `close` succeeds. -/
  close : Bool

/-- Everything succeeds, and nothing is cut short. -/
def allWell (limit : ℕ) : Answers where
  nvOSCfgFind := true
  nvOSCfgGet := true
  nvOSCfgSet := true
  malloc := true
  opens := true
  limit := some limit
  close := true

/-- What the allocated memory holds. -/
abbrev Memory := (size : ℕ) → Cells size

/-- The blocks in the library and the files. -/
structure World where
  /-- The configuration blocks. -/
  blocks : ℕ → Option Bytes
  /-- The files. -/
  files : Files
  /-- The open file, and how far it has been read or written. -/
  iFd : Option (Path × ℕ)

/-- The library and the system. A block is found with its size, and is got and
set as a whole. -/
def machine (ans : Answers) (memory : Memory) : Handler FileOp FileResp World
  | .nvOSCfgFind eOS, w => (if ans.nvOSCfgFind then (w.blocks eOS).map List.length else none, w)
  | .nvOSCfgGet eOS uiSize, w =>
    (match w.blocks eOS with
      | some block =>
        if h : ans.nvOSCfgGet ∧ block.length = uiSize then some ⟨block, h.2⟩ else none
      | none => none, w)
  | .nvOSCfgSet eOS pvTmp, w =>
    if ans.nvOSCfgSet then (true, { w with blocks := Function.update w.blocks eOS (some pvTmp) })
    else (false, w)
  | .malloc size, w => (if ans.malloc then some (memory size) else none, w)
  | .openToRead szFile, w =>
    if ans.opens ∧ w.files szFile ≠ none then (true, { w with iFd := some (szFile, 0) })
    else (false, w)
  | .read size, w =>
    match ans.limit, w.iFd with
    | some limit, some (path, pos) =>
      let bytes := (((w.files path).getD []).drop pos).take (min size limit)
      (some ⟨bytes, (List.length_take_le ..).trans (Nat.min_le_left ..)⟩,
        { w with iFd := some (path, pos + bytes.length) })
    | _, _ => (none, w)
  | .openToWrite szFile, w =>
    if ans.opens then
      (true, { w with
        files := setFile w.files szFile (some ((w.files szFile).getD []))
        iFd := some (szFile, 0) })
    else (false, w)
  | .write pvTmp, w =>
    match ans.limit, w.iFd with
    | some limit, some (path, pos) =>
      let count := min pvTmp.length limit
      (some ⟨count, Nat.lt_succ_of_le (Nat.min_le_left ..)⟩,
        { w with
          files := setFile w.files path
            (some (overlay ((w.files path).getD []) pos (pvTmp.take count)))
          iFd := some (path, pos + count) })
    | _, _ => (none, w)
  | .close, w => (ans.close, { w with iFd := none })

/-- The calls of `NvOSCfgSet`. -/
def setsBlock : FileOp → Bool
  | .nvOSCfgSet _ _ => true
  | _ => false

/-- The run of `OSLoadFromFile`, with the calls of `NvOSCfgSet`. -/
def load (ans : Answers) (memory : Memory) (eOS : ℕ) (szFile : Path) (w : World) :
    Run FileOp FileError Unit World :=
  exec (machine ans memory) setsBlock (osLoadFromFile eOS szFile) w

/-- The run of `OSSaveToFile`, with the calls of `NvOSCfgSet`. -/
def save (ans : Answers) (memory : Memory) (eOS : ℕ) (szFile : Path) (w : World) :
    Run FileOp FileError Unit World :=
  exec (machine ans memory) setsBlock (osSaveToFile eOS szFile) w

/-- What loading is for: the block is set to the content of the file, which
has the size of the block, or nothing is set and the tool fails. -/
def LoadsExactly (eOS : ℕ) (szFile : Path) (w : World)
    (run : Run FileOp FileError Unit World) : Prop :=
  (∃ block content, w.blocks eOS = some block ∧ w.files szFile = some content ∧
    content.length = block.length ∧ run.calls = [.nvOSCfgSet eOS content] ∧
    (run.state.blocks eOS = some content ∨ run.state.blocks = w.blocks)) ∨
  ((∃ e, run.outcome = .exit e) ∧ run.calls = [] ∧ run.state.blocks = w.blocks)

/-- What storing is for: when the tool has not failed, the file is the block. -/
def SavesExactly (eOS : ℕ) (szFile : Path) (w : World)
    (run : Run FileOp FileError Unit World) : Prop :=
  run.outcome = .ret () → ∃ block, w.blocks eOS = some block ∧ run.state.files szFile = some block

/-- The answers with which loading gets as far as setting the block. -/
structure Handed (ans : Answers) (w : World) (eOS : ℕ) (szFile : Path) (block content : Bytes)
    (limit : ℕ) : Prop where
  /-- The block is found. -/
  nvOSCfgFind : ans.nvOSCfgFind = true
  /-- There is memory. -/
  malloc : ans.malloc = true
  /-- The file can be opened. -/
  opens : ans.opens = true
  /-- It can be read, but not more than this at once. -/
  limit : ans.limit = some limit
  /-- It can be closed. -/
  close : ans.close = true
  /-- The block. -/
  block : w.blocks eOS = some block
  /-- The file. -/
  content : w.files szFile = some content

/-- The answers with which storing does not fail. -/
structure Stored (ans : Answers) (w : World) (eOS : ℕ) (block : Bytes) : Prop where
  /-- The block is found. -/
  nvOSCfgFind : ans.nvOSCfgFind = true
  /-- There is memory. -/
  malloc : ans.malloc = true
  /-- The block can be got. -/
  nvOSCfgGet : ans.nvOSCfgGet = true
  /-- The file can be opened. -/
  opens : ans.opens = true
  /-- All of it can be written at once. -/
  limit : ∃ limit, ans.limit = some limit ∧ block.length ≤ limit
  /-- It can be closed. -/
  close : ans.close = true
  /-- The block. -/
  block : w.blocks eOS = some block

section Runs

variable {ans : Answers} {memory : Memory} {eOS : ℕ} {szFile : Path} {w : World}

/-- The tool has failed, and nothing has been set. -/
def Fails (w : World) (run : Run FileOp FileError Unit World) : Prop :=
  (∃ e, run.outcome = .exit e) ∧ run.calls = [] ∧ run.state.blocks = w.blocks

/-- Only `NvOSCfgSet` changes the blocks. -/
theorem machine_blocks {o : FileOp} (hquiet : setsBlock o = false) :
    (machine ans memory o w).2.blocks = w.blocks := by
  cases o with
  | nvOSCfgSet eOS pvTmp => cases hquiet
  | openToRead szFile | openToWrite szFile | read size | write pvTmp =>
    unfold machine
    dsimp only
    split <;> rfl
  | _ => rfl

section Steps

variable {α β : Type} {o : FileOp} (answer : FileResp o → Option α) {e : FileError}
  {f : α → Tool β}

/-- A call that fails leaves the function. -/
theorem exec_orFail (hquiet : setsBlock o = false) :
    exec (machine ans memory) setsBlock (orFail o answer e >>= f) w =
      match answer (machine ans memory o w).1 with
      | some a => exec (machine ans memory) setsBlock (f a) (machine ans memory o w).2
      | none => ⟨.exit e, (machine ans memory o w).2, []⟩ := by
  unfold orFail
  rw [Prog.andThen_assoc, exec_monadBind, exec_perform, hquiet, Run.andThen_ret]
  cases answer (machine ans memory o w).1 <;> rfl

/-- A call that has been answered well. -/
theorem orFail_step {r : FileResp o} {w' : World} {a : α} (hquiet : setsBlock o = false)
    (hr : machine ans memory o w = (r, w')) (ha : answer r = some a) :
    exec (machine ans memory) setsBlock (orFail o answer e >>= f) w =
      exec (machine ans memory) setsBlock (f a) w' := by
  rw [exec_orFail answer hquiet, hr]
  dsimp only
  rw [ha]

end Steps

/-- The rest of the tool may count on the answer that it has got. -/
theorem fails_orFail {α : Type} {o : FileOp} {answer : FileResp o → Option α} {e : FileError}
    {f : α → Tool Unit} {w' : World} (hquiet : setsBlock o = false) (hw : w'.blocks = w.blocks)
    (hf : ∀ a, answer (machine ans memory o w').1 = some a →
      Fails w (exec (machine ans memory) setsBlock (f a) (machine ans memory o w').2)) :
    Fails w (exec (machine ans memory) setsBlock (orFail o answer e >>= f) w') := by
  rw [exec_orFail answer hquiet]
  cases ha : answer (machine ans memory o w').1 with
  | some a => exact hf a ha
  | none => exact ⟨⟨e, rfl⟩, rfl, (machine_blocks hquiet).trans hw⟩

/-- The last call has been refused. -/
theorem fails_last {o : FileOp} {answer : FileResp o → Option Unit} {e : FileError} {w' : World}
    (hquiet : setsBlock o = false) (hw : w'.blocks = w.blocks)
    (hf : answer (machine ans memory o w').1 ≠ some ()) :
    Fails w (exec (machine ans memory) setsBlock (orFail o answer e) w') := by
  unfold orFail
  rw [exec_monadBind, exec_perform, hquiet, Run.andThen_ret]
  cases ha : answer (machine ans memory o w').1 with
  | some a => exact absurd ha hf
  | none => exact ⟨⟨e, rfl⟩, rfl, (machine_blocks hquiet).trans hw⟩

/-- A success is the answer true. -/
theorem done_inv {ok : Bool} {u : Unit} (h : done ok = some u) : ok = true := by
  cases ok
  · exact absurd h nofun
  · rfl

/-- A block that is found is there, with this size. -/
theorem nvOSCfgFind_inv {uiSize : ℕ} (h : (machine ans memory (.nvOSCfgFind eOS) w).1 = some uiSize) :
    ans.nvOSCfgFind = true ∧ ∃ block, w.blocks eOS = some block ∧ block.length = uiSize := by
  change (if ans.nvOSCfgFind then (w.blocks eOS).map List.length else none) = some uiSize at h
  obtain ⟨hfind, hsize⟩ := Option.ite_none_right_eq_some.mp h
  exact ⟨hfind, Option.map_eq_some_iff.mp hsize⟩

/-- Memory is given when there is some. -/
theorem malloc_inv {size : ℕ} {cells : Cells size}
    (h : (machine ans memory (.malloc size) w).1 = some cells) : ans.malloc = true := by
  change (if ans.malloc then some (memory size) else none) = some cells at h
  exact (Option.ite_none_right_eq_some.mp h).1

/-- A block that is read is the stored one. -/
theorem nvOSCfgGet_inv {uiSize : ℕ} {cells : Cells uiSize}
    (h : (machine ans memory (.nvOSCfgGet eOS uiSize) w).1 = some cells) :
    ans.nvOSCfgGet = true ∧ w.blocks eOS = some cells.1 := by
  unfold machine at h
  dsimp only at h
  split at h
  · rename_i block hblock
    split at h
    · rename_i hget
      exact ⟨hget.1, by rw [← Option.some.inj h, hblock]⟩
    · cases h
  · cases h

/-- A file that is opened is there. -/
theorem openToRead_inv (h : (machine ans memory (.openToRead szFile) w).1 = true) :
    ans.opens = true ∧ ∃ content, w.files szFile = some content := by
  unfold machine at h
  dsimp only at h
  split at h
  · rename_i hopens
    exact ⟨hopens.1, Option.ne_none_iff_exists'.mp hopens.2⟩
  · cases h

/-- A file can be opened for writing when opening succeeds. -/
theorem openToWrite_inv (h : (machine ans memory (.openToWrite szFile) w).1 = true) :
    ans.opens = true := by
  unfold machine at h
  dsimp only at h
  split at h
  · assumption
  · cases h

/-- Reading succeeds up to some limit. -/
theorem read_inv {size : ℕ} {bytes : Chunk size}
    (h : (machine ans memory (.read size) w).1 = some bytes) :
    ∃ limit, ans.limit = some limit := by
  unfold machine at h
  dsimp only at h
  split at h
  · exact ⟨_, by assumption⟩
  · cases h

/-- A write is complete when it is within the limit. -/
theorem write_inv {pvTmp : Bytes} {u : Unit}
    (h : complete (machine ans memory (.write pvTmp) w).1 = some u) :
    ∃ limit, ans.limit = some limit ∧ pvTmp.length ≤ limit := by
  have hcount := (Option.ite_none_right_eq_some.mp h).1
  unfold machine at hcount
  dsimp only at hcount
  split at hcount
  · rename_i limit _ _ hlimit _
    have hmin : min pvTmp.length limit = pvTmp.length := Option.some.inj hcount
    exact ⟨limit, hlimit, by omega⟩
  · cases hcount

/-- The block is found. -/
theorem machine_nvOSCfgFind {block : Bytes} (hfind : ans.nvOSCfgFind = true)
    (hblock : w.blocks eOS = some block) :
    machine ans memory (.nvOSCfgFind eOS) w = (some block.length, w) := by
  show (if ans.nvOSCfgFind then (w.blocks eOS).map List.length else none, w) = _
  rw [hfind, hblock]
  rfl

/-- There is memory. -/
theorem machine_malloc (size : ℕ) (hmalloc : ans.malloc = true) :
    machine ans memory (.malloc size) w = (some (memory size), w) := by
  unfold machine
  rw [hmalloc]
  rfl

/-- The block is read. -/
theorem machine_nvOSCfgGet {block : Bytes} (hget : ans.nvOSCfgGet = true)
    (hblock : w.blocks eOS = some block) :
    machine ans memory (.nvOSCfgGet eOS block.length) w = (some ⟨block, rfl⟩, w) := by
  unfold machine
  simp only [hblock, hget, and_self, dite_true]

/-- The file is opened at its front. -/
theorem machine_openToRead {content : Bytes} (hopens : ans.opens = true)
    (hcontent : w.files szFile = some content) :
    machine ans memory (.openToRead szFile) w = (true, { w with iFd := some (szFile, 0) }) :=
  if_pos ⟨hopens, by rw [hcontent]; nofun⟩

variable (ans memory w) in
/-- Reading from the beginning of a file. -/
theorem machine_read {content : Bytes} {limit : ℕ} (size : ℕ) (hlimit : ans.limit = some limit)
    (hfd : w.iFd = some (szFile, 0)) (hcontent : w.files szFile = some content) :
    ∃ iFd bytes, machine ans memory (.read size) w = (some bytes, { w with iFd }) ∧
      bytes.1 = content.take (min size limit) := by
  unfold machine
  simp only [hlimit, hfd, hcontent, Option.getD_some, List.drop_zero]
  exact ⟨_, _, rfl, rfl⟩

/-- The file is opened at its front, or made. -/
theorem machine_openToWrite (hopens : ans.opens = true) :
    machine ans memory (.openToWrite szFile) w = (true, { w with
      files := setFile w.files szFile (some ((w.files szFile).getD []))
      iFd := some (szFile, 0) }) :=
  if_pos hopens

variable (ans memory w) in
/-- Writing from the beginning of a file. -/
theorem machine_write {limit : ℕ} {pvTmp : Bytes} (hlimit : ans.limit = some limit)
    (hle : pvTmp.length ≤ limit) (hfd : w.iFd = some (szFile, 0)) :
    ∃ iFd count, machine ans memory (.write pvTmp) w = (count, { w with
        files := setFile w.files szFile (some (overlay ((w.files szFile).getD []) 0 pvTmp))
        iFd }) ∧
      complete count = some () := by
  have hall : min pvTmp.length limit = pvTmp.length := Nat.min_eq_left hle
  unfold machine
  simp only [hlimit, hfd, hall, List.take_length]
  refine ⟨_, _, rfl, if_pos ?_⟩
  rw [Option.map_some]

/-- The file is closed. -/
theorem machine_close (hclose : ans.close = true) :
    machine ans memory .close w = (true, { w with iFd := none }) := by
  unfold machine
  rw [hclose]

/-- The memory after as much of a file as could be read. -/
def filled (memory : Memory) (size : ℕ) (content : Bytes) (limit : ℕ) : Bytes :=
  fillBuffer (memory size).1 (content.take (min size limit))

variable (memory) in
/-- Loading that gets so far sets the block to what has been read and what the
memory held behind it. -/
theorem load_handed {block content : Bytes} {limit : ℕ}
    (h : Handed ans w eOS szFile block content limit) :
    (load ans memory eOS szFile w).calls =
        [.nvOSCfgSet eOS (filled memory block.length content limit)] ∧
      ((load ans memory eOS szFile w).state.blocks eOS =
          some (filled memory block.length content limit) ∨
        (load ans memory eOS szFile w).state.blocks = w.blocks) := by
  obtain ⟨iFd, bytes, hread, hbytes⟩ := machine_read ans memory
    { w with iFd := some (szFile, 0) } block.length h.limit rfl h.content
  have hrun : load ans memory eOS szFile w = exec (machine ans memory) setsBlock
      (orFail (.nvOSCfgSet eOS (filled memory block.length content limit)) done
        (.exitError (text "NvOSCfgSet(eOS, pvTmp, xCfg.uiSize)"))) { w with iFd := none } := by
    unfold load osLoadFromFile
    rw [orFail_step id rfl (machine_nvOSCfgFind h.nvOSCfgFind h.block) rfl,
      orFail_step id rfl (machine_malloc _ h.malloc) rfl,
      orFail_step done rfl (machine_openToRead h.opens h.content) rfl,
      orFail_step id rfl hread rfl, orFail_step done rfl (machine_close h.close) rfl, filled,
      ← hbytes]
  rw [hrun]
  unfold orFail
  rw [exec_monadBind, exec_perform, Run.andThen_ret]
  cases hset : ans.nvOSCfgSet with
  | false =>
    have hans : machine ans memory (.nvOSCfgSet eOS (filled memory block.length content limit))
        { w with iFd := none } = (false, { w with iFd := none }) := if_neg (by rw [hset]; nofun)
    rw [hans]
    exact ⟨rfl, .inr rfl⟩
  | true =>
    have hans : machine ans memory (.nvOSCfgSet eOS (filled memory block.length content limit))
        { w with iFd := none } = (true, { w with
          blocks := Function.update w.blocks eOS (some (filled memory block.length content limit))
          iFd := none }) := if_pos hset
    rw [hans]
    exact ⟨rfl, .inl (Function.update_self ..)⟩

/-- Loading that does not get so far fails. -/
theorem load_fails (h : ∀ block content limit, ¬ Handed ans w eOS szFile block content limit) :
    Fails w (load ans memory eOS szFile w) := by
  refine fails_orFail rfl rfl fun uiSize hfind => ?_
  refine fails_orFail rfl rfl fun pvTmp hmalloc => ?_
  refine fails_orFail rfl rfl fun _ hopen => ?_
  have hopened : (machine ans memory (.openToRead szFile) w).2.blocks = w.blocks :=
    machine_blocks rfl
  refine fails_orFail rfl hopened fun bytes hread => ?_
  refine fails_orFail rfl ((machine_blocks rfl).trans hopened) fun _ hclose => ?_
  obtain ⟨hfound, block, hblock, -⟩ := nvOSCfgFind_inv hfind
  obtain ⟨hopens, content, hcontent⟩ := openToRead_inv (done_inv hopen)
  obtain ⟨limit, hlimit⟩ := read_inv hread
  exact absurd ⟨hfound, malloc_inv hmalloc, hopens, hlimit, done_inv hclose, hblock, hcontent⟩
    (h block content limit)

variable (memory szFile) in
/-- Storing that does not fail writes the block over what the file held. -/
theorem save_stored {block : Bytes} (h : Stored ans w eOS block) :
    (save ans memory eOS szFile w).outcome = .ret () ∧
      (save ans memory eOS szFile w).state.files szFile =
        some (overlay ((w.files szFile).getD []) 0 block) := by
  obtain ⟨limit, hlimit, hle⟩ := h.limit
  obtain ⟨iFd, count, hwrite, hcount⟩ := machine_write ans memory
    { w with
      files := setFile w.files szFile (some ((w.files szFile).getD []))
      iFd := some (szFile, 0) } hlimit hle rfl
  have hrun : save ans memory eOS szFile w = exec (machine ans memory) setsBlock
      (orFail .close done (.systemError (text "close"))) { w with
        files := setFile (setFile w.files szFile (some ((w.files szFile).getD []))) szFile
          (some (overlay ((setFile w.files szFile (some ((w.files szFile).getD [])) szFile).getD [])
            0 block))
        iFd } := by
    unfold save osSaveToFile
    rw [orFail_step id rfl (machine_nvOSCfgFind h.nvOSCfgFind h.block) rfl,
      orFail_step id rfl (machine_malloc _ h.malloc) rfl,
      orFail_step id rfl (machine_nvOSCfgGet h.nvOSCfgGet h.block) rfl,
      orFail_step done rfl (machine_openToWrite h.opens) rfl,
      orFail_step complete rfl hwrite hcount]
  rw [hrun]
  unfold orFail
  rw [exec_monadBind, exec_perform, Run.andThen_ret, machine_close h.close]
  refine ⟨rfl, ?_⟩
  show setFile _ _ _ _ = _
  unfold setFile
  rw [if_pos rfl, if_pos rfl, Option.getD_some]

/-- Saving fails unless the block can be had. -/
theorem save_fails (h : ∀ block, ¬ Stored ans w eOS block) :
    Fails w (save ans memory eOS szFile w) := by
  refine fails_orFail rfl rfl fun uiSize hfind => ?_
  refine fails_orFail rfl rfl fun _ hmalloc => ?_
  refine fails_orFail rfl rfl fun pvTmp hget => ?_
  refine fails_orFail rfl rfl fun _ hopen => ?_
  have hopened : (machine ans memory (.openToWrite szFile) w).2.blocks = w.blocks :=
    machine_blocks rfl
  refine fails_orFail rfl hopened fun _ hwrite => ?_
  refine fails_last rfl ((machine_blocks rfl).trans hopened) fun hclose => ?_
  obtain ⟨hgot, hblock⟩ := nvOSCfgGet_inv hget
  exact h pvTmp.1 ⟨(nvOSCfgFind_inv hfind).1, malloc_inv hmalloc, hgot,
    openToWrite_inv (done_inv hopen), write_inv hwrite, done_inv hclose, hblock⟩

/-- Memory that holds the same byte everywhere. -/
def constant (c : UInt8) : Memory := fun size => ⟨List.replicate size c, List.length_replicate⟩

/-- The buffer keeps its size. -/
theorem length_filled {size limit : ℕ} {content : Bytes} :
    (filled memory size content limit).length = size := by
  have hsize := (memory size).2
  rw [filled, fillBuffer, List.length_append, List.length_drop, List.length_take]
  omega

/-- All of a file has been read, and it fills the memory. -/
theorem filled_all {size limit : ℕ} {content : Bytes} (hlength : content.length = size)
    (hle : size ≤ limit) : filled memory size content limit = content := by
  have hsize := (memory size).2
  have hall : content.take (min size limit) = content := List.take_of_length_le (by omega)
  rw [filled, hall, fillBuffer, List.drop_eq_nil_of_le (by omega), List.append_nil]

/-- The content of a file comes out whatever the memory held, just when there
is as much of it as is asked for and all of it is read. -/
theorem filled_eq_iff {size limit : ℕ} {content : Bytes} :
    (∀ memory, filled memory size content limit = content) ↔
      content.length = size ∧ size ≤ limit := by
  refine ⟨fun hall => ?_, fun ⟨hlength, hle⟩ memory => filled_all hlength hle⟩
  have hlength : content.length = size := by
    rw [← hall (constant 0), length_filled]
  refine ⟨hlength, ?_⟩
  by_contra hshort
  have hbehind : ∀ c, content[limit]? = some c := fun c => by
    rw [← hall (constant c), filled, fillBuffer, constant,
      List.getElem?_append_right (by rw [List.length_take]; omega), List.length_take,
      List.getElem?_drop, List.getElem?_replicate, if_pos (by omega)]
  have hsame : (0 : UInt8) = 1 := Option.some.inj ((hbehind 0).symm.trans (hbehind 1))
  exact absurd hsame (by decide)

/-- A file that is written over from its beginning is what has been written,
just when it was not longer. -/
theorem overlay_eq_iff {old block : Bytes} :
    overlay old 0 block = block ↔ old.length ≤ block.length := by
  rw [overlay, List.take_zero, List.nil_append, Nat.zero_add, List.append_right_eq_self,
    List.drop_eq_nil_iff]

variable (ans eOS szFile w) in
/-- Loading is exact, whatever the memory holds, just when a file that gets so
far has the size of the block and is read as a whole. -/
theorem load_exact_iff :
    (∀ memory, LoadsExactly eOS szFile w (load ans memory eOS szFile w)) ↔
      ∀ block content limit, Handed ans w eOS szFile block content limit →
        content.length = block.length ∧ block.length ≤ limit := by
  constructor
  · intro hall block content limit h
    refine filled_eq_iff.mp fun memory => ?_
    obtain ⟨hcalls, -⟩ := load_handed memory h
    rcases hall memory with ⟨b, c, -, hc, -, hset, -⟩ | ⟨-, hnone, -⟩
    · rw [hcalls, ← Option.some.inj (h.content.symm.trans hc)] at hset
      injection hset with hset
      injection hset
    · rw [hcalls] at hnone
      cases hnone
  · intro hfits memory
    by_cases h : ∃ block content limit, Handed ans w eOS szFile block content limit
    · obtain ⟨block, content, limit, h⟩ := h
      obtain ⟨hlength, hle⟩ := hfits block content limit h
      have hrun := load_handed memory h
      rw [filled_all hlength hle] at hrun
      exact .inl ⟨block, content, h.block, h.content, hlength, hrun⟩
    · exact .inr (load_fails fun block content limit hh => h ⟨block, content, limit, hh⟩)

variable (ans memory eOS szFile w) in
/-- Storing is exact just when a file that is written was not longer. -/
theorem save_exact_iff :
    SavesExactly eOS szFile w (save ans memory eOS szFile w) ↔
      ∀ block, Stored ans w eOS block → ((w.files szFile).getD []).length ≤ block.length := by
  constructor
  · intro hexact block h
    obtain ⟨hret, hfile⟩ := save_stored memory szFile h
    obtain ⟨b, hb, hsaved⟩ := hexact hret
    rw [← Option.some.inj (h.block.symm.trans hb)] at hsaved
    exact overlay_eq_iff.mp (Option.some.inj (hfile.symm.trans hsaved))
  · intro hfits hret
    by_cases h : ∃ block, Stored ans w eOS block
    · obtain ⟨block, h⟩ := h
      refine ⟨block, h.block, ?_⟩
      rw [(save_stored memory szFile h).2, overlay_eq_iff.mpr (hfits block h)]
    · obtain ⟨⟨e, he⟩, -⟩ : Fails w (save ans memory eOS szFile w) :=
        save_fails fun block hh => h ⟨block, hh⟩
      rw [he] at hret
      cases hret

end Runs

/-- Export and import are exact just when a block is not written over a longer
file, and a file that is loaded has the size of the block and is read as a
whole. -/
theorem files_exact_iff (ans : Answers) (eOS : ℕ) (szFile : Path) (w : World) :
    ((∀ memory, SavesExactly eOS szFile w (save ans memory eOS szFile w)) ↔
      ∀ block, Stored ans w eOS block → ((w.files szFile).getD []).length ≤ block.length) ∧
    ((∀ memory, LoadsExactly eOS szFile w (load ans memory eOS szFile w)) ↔
      ∀ block content limit, Handed ans w eOS szFile block content limit →
        content.length = block.length ∧ block.length ≤ limit) :=
  ⟨⟨fun hall => (save_exact_iff ans (constant 0) eOS szFile w).mp (hall (constant 0)),
    fun hfits memory => (save_exact_iff ans memory eOS szFile w).mpr hfits⟩,
    load_exact_iff ans eOS szFile w⟩

/-- A block of two bytes, and a file. -/
def twoBytes (content : Bytes) : World where
  blocks eOS := if eOS = 1 then some (text "AB") else none
  files path := if path = text "cfg" then some content else none
  iFd := none

/-- A longer file keeps its last byte, and of a shorter one the block gets a
byte that was in the memory. -/
theorem files_inexact :
    ¬ SavesExactly 1 (text "cfg") (twoBytes (text "xyz"))
      (save (allWell 2) (constant 7) 1 (text "cfg") (twoBytes (text "xyz"))) ∧
    ¬ LoadsExactly 1 (text "cfg") (twoBytes (text "x"))
      (load (allWell 2) (constant 7) 1 (text "cfg") (twoBytes (text "x"))) := by
  constructor
  · intro hexact
    obtain ⟨block, hblock, hfile⟩ := hexact rfl
    rw [← Option.some.inj hblock] at hfile
    exact absurd (Option.some.inj hfile) (by decide)
  · rintro (⟨block, content, hblock, hcontent, hlength, -⟩ | ⟨-, hnone, -⟩)
    · rw [← Option.some.inj hblock, ← Option.some.inj hcontent] at hlength
      exact absurd hlength (by decide)
    · exact absurd hnone (by decide)

end MetaDigi.NvramFiles
