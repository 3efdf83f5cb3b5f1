import MetaDigi.NvramFiles
import MetaDigi.SystemReturns

/-!
# The settings over many runs of the NVRAM tool

The library works on a copy of the settings, and only saving stores it. The
tool saves last, when everything before has succeeded, and only after a command
that may have changed something. So a run that fails before leaves what is
stored, and what has been stored from a file is there for every later run.
-/

namespace MetaDigi.NvramTool

open CStrings SystemProgram SystemRuns SystemReturns FlashTypes FlashWorld FlashTransfer NvramFiles
open Prog

/-- The options of the tool for the settings, and the words behind them. -/
structure Settings where
  /-- `l_bManufMode`. -/
  manufMode : Bool
  /-- `szOS`. -/
  os : Option Bytes
  /-- `szOSInFile`. -/
  osInFile : Option Path
  /-- `szOSOutFile`. -/
  osOutFile : Option Path
  /-- The words from `argv[iExtendedArgs]` on. -/
  extended : List Bytes

/-- The calls of the tool. -/
inductive ToolOp where
  /-- `NvInit`, with `NVR_MANUAL` or `NVR_AUTO`. -/
  | nvInit (manual : Bool)
  /-- `NvToOS`, answered by the system that is meant. -/
  | nvToOS (szOS : Bytes)
  /-- A call of the functions for the files. -/
  | file (o : FileOp)
  /-- `NvCmdLine`. -/
  | nvCmdLine (args : List Bytes)
  /-- `NvSave`. -/
  | nvSave
  /-- `NvFinish`. -/
  | nvFinish

/-- What they are answered with. -/
abbrev ToolResp : ToolOp → Type
  | .nvInit _ => Bool
  | .nvToOS _ => Option ℕ
  | .file o => FileResp o
  | .nvCmdLine _ => Bool
  | .nvSave => Bool
  | .nvFinish => Unit

/-- How the tool is left. -/
inductive ToolError where
  /-- `ExitError` with the call that has failed. -/
  | exitError (cmd : Bytes)
  /-- `error` with the name of a system that is not known. -/
  | osNotKnown (szOS : Bytes)
  /-- An error of the functions for the files. -/
  | file (e : FileError)
  deriving DecidableEq

/-- A part of the tool. -/
abbrev Nvram := Prog ToolOp ToolResp ToolError

/-- Issue a call. -/
abbrev nvram (o : ToolOp) : Nvram (ToolResp o) := Prog.perform o

/-- `CA`. -/
def ca (o : ToolOp) (ok : ToolResp o → Bool) (cmd : Bytes) : Nvram Unit := do
  let r ← nvram o
  if ok r then return () else .exit (.exitError cmd)

/-- The function for the files, as a part of the tool. -/
def fileFunction (p : Tool Unit) : Nvram Unit :=
  embedOr ToolOp.file (fun _ r => r) (fun e => .exit (.file e)) p

section Main

variable (opts : Settings)

/-- Without the settings only a reset can be done. -/
def libraryInit : Nvram Unit := do
  if ← nvram (.nvInit opts.manufMode) then return ()
  else if opts.extended.head? = some (text "reset") then return ()
  else .exit (.exitError (text "NvInit"))

/-- `eOS`. -/
def chosenOS : Nvram ℕ :=
  match opts.os with
  | none => return 0
  | some szOS => do
    match ← nvram (.nvToOS szOS) with
    | some eOS => return eOS
    | none => .exit (.osNotKnown szOS)

/-- A function for the files, where a file is given. -/
def withFile (szFile : Option Path) (f : Path → Tool Unit) : Nvram Unit :=
  match szFile with
  | none => return ()
  | some szFile => fileFunction (f szFile)

/-- The command of the words, or `printall` where there is nothing to do. -/
def command : Nvram Unit :=
  match opts.extended with
  | [] =>
    if opts.osInFile = none ∧ opts.osOutFile = none then
      ca (.nvCmdLine [text "printall"]) id (text "NvCmdLine(ARRAY_SIZE(xPrintAll), xPrintAll)")
    else return ()
  | args => ca (.nvCmdLine args) id
      (text "NvCmdLine(argc - iExtendedArgs, (const char **)&argv[iExtendedArgs])")

/-- `bSave`. -/
def Settings.bSave : Bool :=
  opts.osInFile.isSome ||
    [some (text "set"), some (text "reset"), some (text "init")].contains opts.extended.head?

/-- The text of the call that saves. -/
def nvSaveText : Bytes := text "NvSave()"

/-- `main` behind the options, before `OnExit`. -/
def body : Nvram Unit := do
  libraryInit opts
  let eOS ← chosenOS opts
  withFile opts.osInFile (osLoadFromFile eOS)
  withFile opts.osOutFile (osSaveToFile eOS)
  command opts
  if opts.bSave then ca .nvSave id nvSaveText else return ()

/-- `main` behind the options. `OnExit` runs however the tool is left. -/
def main : Nvram Unit := do
  embedOr id (fun _ r => r) (fun e => do nvram .nvFinish; .exit e) (body opts)
  nvram .nvFinish

end Main

section Laws

/-- The settings that are stored, those that the library works on, and the
files. The settings are the configuration blocks. -/
structure View where
  /-- The blocks that are stored. -/
  stored : ℕ → Option Bytes
  /-- The blocks that the library works on. -/
  blocks : ℕ → Option Bytes
  /-- The files. -/
  files : Files
  /-- The file that is open, and the offset in it. -/
  opened : Option (Path × ℕ)

/-- What a call of the functions for the files may do. -/
def FileAllowed (v : View) : (o : FileOp) → FileResp o → View → Prop
  | .nvOSCfgFind eOS, uiSize, v' => v' = v ∧
      ∀ n, uiSize = some n → ∃ block, v.blocks eOS = some block ∧ block.length = n
  | .nvOSCfgGet eOS uiSize, cells, v' => v' = v ∧
      ∀ pvTmp : Cells uiSize, cells = some pvTmp → v.blocks eOS = some pvTmp.1
  | .nvOSCfgSet eOS pvTmp, ok, v' => ∃ blocks, v' = { v with blocks := blocks } ∧
      (ok = true → blocks = Function.update v.blocks eOS (some pvTmp))
  | .malloc _, _, v' => v' = v
  | .openToRead szFile, ok, v' => v' = if ok then { v with opened := some (szFile, 0) } else v
  | .read size, chunk, v' => (∃ opened, v' = { v with opened := opened }) ∧
      ∀ szFile pos, v.opened = some (szFile, pos) → ∀ bytes : Chunk size, chunk = some bytes →
        bytes.1 = (((v.files szFile).getD []).drop pos).take size
  | .openToWrite szFile, ok, v' =>
    v' = if ok then { v with
        files := setFile v.files szFile (some ((v.files szFile).getD []))
        opened := some (szFile, 0) }
      else v
  | .write pvTmp, count, v' => ∃ files opened, v' = { v with files := files, opened := opened } ∧
      ∀ szFile pos, v.opened = some (szFile, pos) → ∀ n : Fin (pvTmp.length + 1), count = some n →
        files = setFile v.files szFile
          (some (overlay ((v.files szFile).getD []) pos (pvTmp.take n)))
  | .close, _, v' => v' = { v with opened := none }

/-- What a call may do. `osOf` is what the library knows of the systems. A
command may do anything to the blocks that the library works on. -/
def Allowed (osOf : Bytes → Option ℕ) (v : View) : (o : ToolOp) → ToolResp o → View → Prop
  | .nvInit _, ok, v' => ∃ blocks, v' = { v with blocks := blocks } ∧
      (ok = true → blocks = v.stored)
  | .nvToOS szOS, eOS, v' => v' = v ∧ eOS = osOf szOS
  | .file o, r, v' => FileAllowed v o r v'
  | .nvCmdLine _, _, v' => ∃ blocks, v' = { v with blocks := blocks }
  | .nvSave, ok, v' => ∃ stored, v' = { v with stored := stored } ∧ (ok = true → stored = v.blocks)
  | .nvFinish, _, v' => v' = v

/-- A library and a system whose calls do what they may. -/
def Behaves {σ : Type} (osOf : Bytes → Option ℕ) (h : Handler ToolOp ToolResp σ)
    (view : σ → View) : Prop :=
  ∀ o s, Allowed osOf (view s) o (h o s).1 (view (h o s).2)

end Laws

section Functions

variable {σ : Type} {osOf : Bytes → Option ℕ} {h : Handler ToolOp ToolResp σ} {view : σ → View}
  {s : σ}

/-- A call of the tool. -/
theorem leaves_nvram {α : Type} {o : ToolOp} {f : ToolResp o → Nvram α}
    {Q : Outcome ToolError α → σ → Prop} (hsys : Behaves osOf h view)
    (hf : ∀ r s₁, Allowed osOf (view s) o r (view s₁) → Leaves h (f r) s₁ Q) :
    Leaves h (nvram o >>= f) s Q :=
  leaves_call (hf _ _ (hsys o s))

/-- A call of the functions for the files, as their last one. -/
theorem orFail_leaves {α : Type} {o : FileOp} {answer : FileResp o → Option α} {e : FileError}
    {Q : Outcome FileError α → σ → Prop} (hsys : Behaves osOf h view)
    (hfail : ∀ r s₁, FileAllowed (view s) o r (view s₁) → Q (.exit e) s₁)
    (hf : ∀ r a s₁, FileAllowed (view s) o r (view s₁) → answer r = some a → Q (.ret a) s₁) :
    Leaves (narrow ToolOp.file (fun _ r => r) h) (orFail o answer e) s Q := by
  have hallowed : FileAllowed (view s) o (h (.file o) s).1 (view (h (.file o) s).2) :=
    hsys (.file o) s
  refine leaves_call ?_
  rw [show narrow ToolOp.file (fun _ r => r) h o s = h (.file o) s from rfl]
  cases hanswer : answer (h (.file o) s).1 with
  | none => exact leaves_exit (hfail _ _ hallowed)
  | some a => exact leaves_pure (hf _ a _ hallowed hanswer)

/-- A call of the functions for the files. -/
theorem leaves_orFail {α β : Type} {o : FileOp} {answer : FileResp o → Option α} {e : FileError}
    {f : α → Tool β} {Q : Outcome FileError β → σ → Prop} (hsys : Behaves osOf h view)
    (hfail : ∀ r s₁, FileAllowed (view s) o r (view s₁) → Q (.exit e) s₁)
    (hf : ∀ r a s₁, FileAllowed (view s) o r (view s₁) → answer r = some a →
      Leaves (narrow ToolOp.file (fun _ r => r) h) (f a) s₁ Q) :
    Leaves (narrow ToolOp.file (fun _ r => r) h) (orFail o answer e >>= f) s Q :=
  Leaves.andThen (orFail_leaves hsys hfail hf)

/-- A block into which the front of a file has been read, over whatever the
memory held. -/
def Loaded (content old block : Bytes) : Prop :=
  ∃ memory : Bytes, memory.length = old.length ∧ block = fillBuffer memory (content.take old.length)

/-- The whole file is in the block when it has its size. -/
theorem Loaded.whole {content old block : Bytes} (h : Loaded content old block)
    (hsize : content.length = old.length) : block = content := by
  obtain ⟨memory, hmemory, hblock⟩ := h
  have hnone : memory.drop content.length = [] := List.drop_eq_nil_of_le (by omega)
  rw [hblock, ← hsize, List.take_length, fillBuffer, hnone, List.append_nil]

/-- Calls about files leave what is stored. -/
theorem FileAllowed.stored {v v' : View} {o : FileOp} {r : FileResp o}
    (hallowed : FileAllowed v o r v') : v'.stored = v.stored := by
  cases o with
  | nvOSCfgFind eOS => rw [hallowed.1]
  | nvOSCfgGet eOS uiSize => rw [hallowed.1]
  | nvOSCfgSet eOS pvTmp =>
    obtain ⟨blocks, hview, -⟩ := hallowed
    rw [hview]
  | malloc size => exact congrArg View.stored hallowed
  | openToRead szFile =>
    rw [show v' = _ from hallowed]
    split <;> rfl
  | read size =>
    obtain ⟨⟨opened, hview⟩, -⟩ := hallowed
    rw [hview]
  | openToWrite szFile =>
    rw [show v' = _ from hallowed]
    split <;> rfl
  | write pvTmp =>
    obtain ⟨files, opened, hview, -⟩ := hallowed
    rw [hview]
  | close => rw [show v' = _ from hallowed]

/-- The functions for the files leave what is stored. -/
theorem fileFunction_stored (hsys : Behaves osOf h view) (p : Tool Unit) :
    Leaves h (fileFunction p) s fun _ s' => (view s').stored = (view s).stored := by
  have hkept : Leaves (narrow ToolOp.file (fun _ r => r) h) p s fun _ s' =>
      (view s').stored = (view s).stored :=
    leaves_keeps (I := fun s' => (view s').stored = (view s).stored) (sat_any p)
      (fun o t _ ht => (FileAllowed.stored (hsys (.file o) t)).trans ht) rfl
  refine leaves_embedOr (hkept.mono fun out s' hout => ?_)
  cases out with
  | ret u => exact hout
  | exit e => exact hout
  | hang => exact hout

/-- A block is set to what is in a file. -/
structure Loads (eOS : ℕ) (szFile : Path) (v v' : View) : Prop where
  /-- The block has been there, and is set. -/
  blocks : ∃ old block, v.blocks eOS = some old ∧ Loaded ((v.files szFile).getD []) old block ∧
    v'.blocks = Function.update v.blocks eOS (some block)
  /-- The files stay. -/
  files : v'.files = v.files

/-- A block is written over the front of a file. -/
structure Saves (eOS : ℕ) (szFile : Path) (v v' : View) : Prop where
  /-- The block is there, and is written. -/
  files : ∃ block, v.blocks eOS = some block ∧ v'.files =
    setFile v.files szFile (some (overlay ((v.files szFile).getD []) 0 block))
  /-- The blocks stay. -/
  blocks : v'.blocks = v.blocks

/-- Loading sets the block to what is in the file, or fails. -/
theorem osLoadFromFile_leaves (hsys : Behaves osOf h view) (eOS : ℕ) (szFile : Path) :
    Leaves (narrow ToolOp.file (fun _ r => r) h) (osLoadFromFile eOS szFile) s fun out s' =>
      out = .ret () → Loads eOS szFile (view s) (view s') := by
  refine leaves_orFail hsys (fun _ _ _ => nofun) fun r uiSize s₁ hfind huiSize => ?_
  obtain ⟨hsame, hblock⟩ := hfind
  obtain ⟨old, hold, rfl⟩ := hblock uiSize huiSize
  refine leaves_orFail hsys (fun _ _ _ => nofun) fun r pvTmp s₂ hmalloc _ => ?_
  have hsame₂ : view s₂ = view s := hmalloc.trans hsame
  refine leaves_orFail hsys (fun _ _ _ => nofun) fun ok _ s₃ hopen hok => ?_
  have hview₃ : view s₃ = { view s with opened := some (szFile, 0) } := by
    rw [FileAllowed, done_inv hok, if_pos rfl, hsame₂] at hopen
    exact hopen
  refine leaves_orFail hsys (fun _ _ _ => nofun) fun r bytes s₄ hread hr => ?_
  obtain ⟨⟨opened, hview₄⟩, hbytes⟩ := hread
  rw [hview₃] at hview₄ hbytes
  have hcontent := hbytes szFile 0 rfl bytes hr
  refine leaves_orFail hsys (fun _ _ _ => nofun) fun _ _ s₅ hclose _ => ?_
  refine orFail_leaves hsys (fun _ _ _ => nofun) fun ok _ s₆ hset hok _ => ?_
  obtain ⟨blocks, hview₆, hblocks⟩ := hset
  have hblocks₅ : (view s₅).blocks = (view s).blocks := by
    rw [show view s₅ = _ from hclose, hview₄]
  refine ⟨⟨old, _, hold, ⟨pvTmp.1, pvTmp.2, rfl⟩, ?_⟩, ?_⟩
  · rw [hview₆, hblocks (done_inv hok), hblocks₅, hcontent]
    rfl
  · rw [hview₆, show view s₅ = _ from hclose, hview₄]

/-- The file has the new content. -/
theorem setFile_same (files : Files) (path : Path) (content : Option Bytes) :
    setFile files path content path = content := if_pos rfl

/-- Only the last content counts. -/
theorem setFile_again (files : Files) (path : Path) (content content' : Option Bytes) :
    setFile (setFile files path content) path content' = setFile files path content' := by
  funext q
  unfold setFile
  split <;> rfl

/-- Storing writes the block over the front of the file, or fails. -/
theorem osSaveToFile_leaves (hsys : Behaves osOf h view) (eOS : ℕ) (szFile : Path) :
    Leaves (narrow ToolOp.file (fun _ r => r) h) (osSaveToFile eOS szFile) s fun out s' =>
      out = .ret () → Saves eOS szFile (view s) (view s') := by
  refine leaves_orFail hsys (fun _ _ _ => nofun) fun r uiSize s₁ hfind huiSize => ?_
  refine leaves_orFail hsys (fun _ _ _ => nofun) fun r _ s₂ hmalloc _ => ?_
  have hsame₂ : view s₂ = view s := (show view s₂ = view s₁ from hmalloc).trans hfind.1
  refine leaves_orFail hsys (fun _ _ _ => nofun) fun r pvTmp s₃ hget hr => ?_
  obtain ⟨hsame₃, hblock⟩ := hget
  rw [hsame₂] at hsame₃ hblock
  refine leaves_orFail hsys (fun _ _ _ => nofun) fun ok _ s₄ hopen hok => ?_
  have hview₄ : view s₄ = { view s with
      files := setFile (view s).files szFile (some (((view s).files szFile).getD []))
      opened := some (szFile, 0) } := by
    rw [FileAllowed, done_inv hok, if_pos rfl, hsame₃] at hopen
    exact hopen
  refine leaves_orFail hsys (fun _ _ _ => nofun) fun count _ s₅ hwrite hcount => ?_
  obtain ⟨files, opened, hview₅, hfiles⟩ := hwrite
  obtain ⟨n, hn, hall⟩ := Option.map_eq_some_iff.mp (Option.ite_none_right_eq_some.mp hcount).1
  rw [hview₄] at hview₅ hfiles
  dsimp only at hfiles
  refine orFail_leaves hsys (fun _ _ _ => nofun) fun _ _ s₆ hclose _ _ => ?_
  rw [show view s₆ = _ from hclose, hview₅]
  refine ⟨⟨pvTmp.1, hblock pvTmp hr, ?_⟩, rfl⟩
  dsimp only
  rw [hfiles szFile 0 rfl n hn, hall, List.take_length, setFile_again, setFile_same]
  rfl

end Functions

section Parts

variable {σ : Type} {osOf : Bytes → Option ℕ} {h : Handler ToolOp ToolResp σ} {view : σ → View}
  {s : σ} {opts : Settings}

/-- The system that the options choose. -/
def chosen (osOf : Bytes → Option ℕ) (opts : Settings) : Option ℕ :=
  match opts.os with
  | none => some 0
  | some szOS => osOf szOS

/-- A call that leaves the tool on failure. -/
theorem ca_leaves (hsys : Behaves osOf h view) (o : ToolOp) (ok : ToolResp o → Bool) (cmd : Bytes) :
    Leaves h (ca o ok cmd) s fun out s' => ∃ r, Allowed osOf (view s) o r (view s') ∧
      (out = .ret () → ok r = true) ∧ (out = .ret () ∨ out = .exit (.exitError cmd)) := by
  refine leaves_nvram hsys fun r s₁ hallowed => ?_
  cases hok : ok r with
  | true => exact ⟨r, hallowed, fun _ => hok, .inl rfl⟩
  | false => exact ⟨r, hallowed, nofun, .inr rfl⟩

/-- The library works on what is stored, unless the tool goes on to a reset. -/
theorem libraryInit_leaves (hsys : Behaves osOf h view) :
    Leaves h (libraryInit opts) s fun out s' => ∃ blocks,
      view s' = { view s with blocks := blocks } ∧
      (out = .ret () → opts.extended.head? ≠ some (text "reset") → blocks = (view s).stored) := by
  refine leaves_nvram hsys fun ok s₁ hinit => ?_
  obtain ⟨blocks, hview, hstored⟩ := hinit
  cases ok with
  | true => exact leaves_pure ⟨blocks, hview, fun _ _ => hstored rfl⟩
  | false =>
    rw [if_neg Bool.false_ne_true]
    split
    · rename_i hreset
      exact leaves_pure ⟨blocks, hview, fun _ hne => absurd hreset hne⟩
    · exact leaves_exit ⟨blocks, hview, nofun⟩

/-- Choosing the OS. -/
theorem chosenOS_leaves (hsys : Behaves osOf h view) :
    Leaves h (chosenOS opts) s fun out s' => view s' = view s ∧
      ∀ eOS, out = .ret eOS → chosen osOf opts = some eOS := by
  unfold chosenOS chosen
  split
  · exact leaves_pure ⟨rfl, fun eOS heOS => by cases heOS; rfl⟩
  · refine leaves_nvram hsys fun r s₁ hos => ?_
    obtain ⟨hsame, hr⟩ := hos
    cases r with
    | none => exact leaves_exit ⟨hsame, nofun⟩
    | some eOS => exact leaves_pure ⟨hsame, fun eOS' heOS => by cases heOS; exact hr.symm⟩

/-- A command changes nothing but the blocks that the library works on. -/
theorem command_leaves (hsys : Behaves osOf h view) :
    Leaves h (command opts) s fun _ s' => ∃ blocks, view s' = { view s with blocks := blocks } := by
  unfold command
  split
  · split
    · refine (ca_leaves hsys _ _ _).mono fun out s' hout => ?_
      obtain ⟨r, hallowed, -⟩ := hout
      exact hallowed
    · exact leaves_pure ⟨_, rfl⟩
  · refine (ca_leaves hsys _ _ _).mono fun out s' hout => ?_
    obtain ⟨r, hallowed, -⟩ := hout
    exact hallowed

/-- A file that may be named leaves what is stored. -/
theorem withFile_stored (hsys : Behaves osOf h view) (szFile : Option Path) (f : Path → Tool Unit) :
    Leaves h (withFile szFile f) s fun _ s' => (view s').stored = (view s).stored := by
  cases szFile with
  | none => exact leaves_pure rfl
  | some szFile => exact fileFunction_stored hsys _

/-- What a function for the files has done when the tool goes on. -/
theorem fileFunction_leaves {p : Tool Unit} {Q : View → Prop}
    (hp : Leaves (narrow ToolOp.file (fun _ r => r) h) p s fun out s' =>
      out = .ret () → Q (view s')) :
    Leaves h (fileFunction p) s fun out s' => out = .ret () → Q (view s') := by
  refine leaves_embedOr (hp.mono fun out s' hout => ?_)
  cases out with
  | ret u =>
    rw [rescues_ret]
    exact fun _ => hout rfl
  | exit e =>
    rw [rescues_exit]
    exact leaves_exit nofun
  | hang => exact fun hret => nomatch hret

/-- What holds before `OnExit` holds behind it. -/
theorem main_leaves (hsys : Behaves osOf h view) {Q : Outcome ToolError Unit → View → Prop}
    (hbody : Leaves h (body opts) s fun out s' => Q out (view s')) :
    Leaves h (main opts) s fun out s' => Q out (view s') := by
  refine Leaves.andThen (leaves_embedOr (hbody.mono fun out s₁ hout => ?_))
  have hfinish : view (h .nvFinish s₁).2 = view s₁ := hsys .nvFinish s₁
  cases out with
  | ret u =>
    rw [← hfinish] at hout
    exact hout
  | exit e =>
    rw [← hfinish] at hout
    exact hout
  | hang => exact hout

end Parts

section Runs

variable {σ : Type} {osOf : Bytes → Option ℕ} {h : Handler ToolOp ToolResp σ} {view : σ → View}
  {s s₁ s₂ s₃ : σ} {opts : Settings}

/-- A run that has not saved: it has failed before, or there was nothing to save. -/
def SavesNothing (opts : Settings) (out : Outcome ToolError Unit) : Prop :=
  out ≠ .exit (.exitError nvSaveText) ∧ (out = .ret () → opts.bSave = false)

/-- A part of the tool leaves what is stored. -/
def Keeps {α : Type} (h : Handler ToolOp ToolResp σ) (view : σ → View) (p : Nvram α) : Prop :=
  ∀ s, Leaves h p s fun _ s' => (view s').stored = (view s).stored

/-- The rest of a run leaves what is stored, when the run has not saved. -/
def KeepsUnsaved (opts : Settings) (h : Handler ToolOp ToolResp σ) (view : σ → View)
    (p : Nvram Unit) : Prop :=
  ∀ s, Leaves h p s fun out s' => SavesNothing opts out → (view s').stored = (view s).stored

/-- A part that stores nothing, before the rest. -/
theorem Keeps.andThen {α : Type} {p : Nvram α} {f : α → Nvram Unit} (hp : Keeps h view p)
    (hf : ∀ a, KeepsUnsaved opts h view (f a)) : KeepsUnsaved opts h view (p >>= f) := by
  intro s
  refine Leaves.andThen ((hp s).mono fun out s₁ hstored => ?_)
  cases out with
  | ret a =>
    rw [resumes_ret]
    exact (hf a s₁).mono fun out s₂ hrest hnothing => (hrest hnothing).trans hstored
  | exit e => exact fun _ => hstored
  | hang => exact fun _ => hstored

/-- The body stores nothing unless it saves. -/
theorem body_unsaved (hsys : Behaves osOf h view) : KeepsUnsaved opts h view (body opts) := by
  refine Keeps.andThen (fun s => (libraryInit_leaves hsys).mono fun out s' hout => ?_) fun _ => ?_
  · obtain ⟨blocks, hview, -⟩ := hout
    rw [hview]
  refine Keeps.andThen (fun s => (chosenOS_leaves hsys).mono fun out s' hout => ?_) fun eOS => ?_
  · rw [hout.1]
  refine Keeps.andThen (fun s => withFile_stored hsys _ _) fun _ => ?_
  refine Keeps.andThen (fun s => withFile_stored hsys _ _) fun _ => ?_
  refine Keeps.andThen (fun s => (command_leaves hsys).mono fun out s' hout => ?_) fun _ s => ?_
  · obtain ⟨blocks, hview⟩ := hout
    rw [hview]
  split
  · rename_i hsave
    refine (ca_leaves hsys _ _ _).mono fun out s' hout hnothing => ?_
    obtain ⟨r, -, -, rfl | rfl⟩ := hout
    · exact absurd ((hnothing.2 rfl).symm.trans hsave) Bool.false_ne_true
    · exact absurd rfl hnothing.1
  · exact leaves_pure fun _ => rfl

/-- A run that has not saved leaves what is stored. -/
theorem main_stored (hsys : Behaves osOf h view) {out : Outcome ToolError Unit}
    (hrun : Ends h (main opts) s out s₁) (hnothing : SavesNothing opts out) :
    (view s₁).stored = (view s).stored := by
  obtain ⟨rfl, rfl⟩ := hrun
  exact main_leaves hsys (Q := fun out v => SavesNothing opts out → v.stored = (view s).stored)
    (body_unsaved hsys s) hnothing

/-- What may happen between two runs. -/
inductive Between (h : Handler ToolOp ToolResp σ) (view : σ → View) : σ → σ → Prop where
  /-- Nothing. -/
  | refl (s : σ) : Between h view s s
  /-- Something that leaves what is stored. -/
  | other {s₁ s₂ s₃ : σ} : Between h view s₁ s₂ → (view s₃).stored = (view s₂).stored →
      Between h view s₁ s₃
  /-- A run of the tool that does not save. -/
  | run {s₁ s₂ s₃ : σ} {opts : Settings} {out : Outcome ToolError Unit} :
      Between h view s₁ s₂ → Ends h (main opts) s₂ out s₃ → SavesNothing opts out →
      Between h view s₁ s₃

/-- What is stored is the same afterwards. -/
theorem Between.stored (hsys : Behaves osOf h view) (hbetween : Between h view s₁ s₂) :
    (view s₂).stored = (view s₁).stored := by
  induction hbetween with
  | refl => rfl
  | other _ hsame ih => exact hsame.trans ih
  | run _ hrun hnothing ih => exact (main_stored hsys hrun hnothing).trans ih

/-- What a run that returns has stored from a file. -/
def StoresFile (osOf : Bytes → Option ℕ) (opts : Settings) (szFile : Path) (v v' : View) : Prop :=
  ∃ eOS old block, chosen osOf opts = some eOS ∧ v.stored eOS = some old ∧
    Loaded ((v.files szFile).getD []) old block ∧
    v'.stored = Function.update v.stored eOS (some block)

/-- The body with `-s` and without a command word. -/
theorem body_stores (hsys : Behaves osOf h view) {szFile : Path}
    (hin : opts.osInFile = some szFile) (hwords : opts.extended = [])
    (hrun : Ends h (body opts) s (.ret ()) s₁) :
    StoresFile osOf opts szFile (view s) (view s₁) := by
  obtain ⟨_, t₁, hinit, hrun⟩ := hrun.split
  obtain ⟨eOS, t₂, hos, hrun⟩ := hrun.split
  obtain ⟨_, t₃, hload, hrun⟩ := hrun.split
  obtain ⟨_, t₄, hsave, hrun⟩ := hrun.split
  obtain ⟨_, t₅, hcommand, hlast⟩ := hrun.split
  obtain ⟨blocks, hview₁, hblocks⟩ := hinit.meets (libraryInit_leaves hsys)
  obtain ⟨hview₂, hchosen⟩ := hos.meets (chosenOS_leaves hsys)
  have hworks : view t₂ = { view s with blocks := (view s).stored } := by
    rw [hview₂, hview₁, hblocks rfl (by rw [hwords]; nofun)]
  rw [hin] at hload
  have hloads : Loads eOS szFile (view t₂) (view t₃) :=
    hload.meets (fileFunction_leaves (osLoadFromFile_leaves hsys eOS szFile)) rfl
  have hkept : (view t₄).blocks = (view t₃).blocks := by
    cases hout : opts.osOutFile with
    | none =>
      rw [hout] at hsave
      rw [hsave.pure_inv.2]
    | some szOut =>
      rw [hout] at hsave
      exact (hsave.meets (fileFunction_leaves (osSaveToFile_leaves hsys eOS szOut)) rfl).blocks
  have hnothing : command opts = pure () := by
    rw [command, hwords]
    exact if_neg fun hnone => by rw [hin] at hnone; cases hnone.1
  have hsaves : opts.bSave = true := by
    rw [Settings.bSave, hin]
    rfl
  rw [hnothing] at hcommand
  rw [if_pos hsaves, hcommand.pure_inv.2] at hlast
  obtain ⟨ok, ⟨stored, hview₅, hstored⟩, hok, -⟩ := hlast.meets (ca_leaves hsys _ _ _)
  obtain ⟨old, block, hold, hloaded, hset⟩ := hloads.blocks
  rw [hworks] at hold hloaded hset
  refine ⟨eOS, old, block, hchosen eOS rfl, hold, hloaded, ?_⟩
  rw [hview₅, hstored (hok rfl), hkept, hset]

/-- What a run that returns has written to a file. -/
def FetchesFile (osOf : Bytes → Option ℕ) (opts : Settings) (szFile : Path) (v v' : View) : Prop :=
  ∃ eOS block, chosen osOf opts = some eOS ∧ v.stored eOS = some block ∧
    v'.files = setFile v.files szFile (some (overlay ((v.files szFile).getD []) 0 block))

/-- The body with `-g`. -/
theorem body_fetches (hsys : Behaves osOf h view) {szFile : Path}
    (hout : opts.osOutFile = some szFile) (hin : opts.osInFile = none)
    (hreset : opts.extended.head? ≠ some (text "reset"))
    (hrun : Ends h (body opts) s (.ret ()) s₁) :
    FetchesFile osOf opts szFile (view s) (view s₁) := by
  obtain ⟨_, t₁, hinit, hrun⟩ := hrun.split
  obtain ⟨eOS, t₂, hos, hrun⟩ := hrun.split
  obtain ⟨_, t₃, hload, hrun⟩ := hrun.split
  obtain ⟨_, t₄, hsave, hrun⟩ := hrun.split
  obtain ⟨_, t₅, hcommand, hlast⟩ := hrun.split
  obtain ⟨blocks, hview₁, hblocks⟩ := hinit.meets (libraryInit_leaves hsys)
  obtain ⟨hview₂, hchosen⟩ := hos.meets (chosenOS_leaves hsys)
  rw [hin] at hload
  have hworks : view t₃ = { view s with blocks := (view s).stored } := by
    rw [hload.pure_inv.2, hview₂, hview₁, hblocks rfl hreset]
  rw [hout] at hsave
  have hsaves : Saves eOS szFile (view t₃) (view t₄) :=
    hsave.meets (fileFunction_leaves (osSaveToFile_leaves hsys eOS szFile)) rfl
  obtain ⟨blocks₅, hview₅⟩ := hcommand.meets (command_leaves hsys)
  have hfiles : (view s₁).files = (view t₅).files := by
    split at hlast
    · obtain ⟨ok, ⟨stored, hview, -⟩, -⟩ := hlast.meets (ca_leaves hsys _ _ _)
      rw [hview]
    · rw [hlast.pure_inv.2]
  obtain ⟨block, hblock, hwritten⟩ := hsaves.files
  rw [hworks] at hblock hwritten
  refine ⟨eOS, block, hchosen eOS rfl, hblock, ?_⟩
  rw [hfiles, hview₅, hwritten]

/-- What has been stored from a file is what is written to a file later,
whatever runs of the tool in between have failed or had nothing to save. -/
theorem stored_then_fetched (hsys : Behaves osOf h view) {a b : Settings} {szIn szOut : Path}
    (hin : a.osInFile = some szIn) (hwords : a.extended = [])
    (hout : b.osOutFile = some szOut) (hnone : b.osInFile = none)
    (hreset : b.extended.head? ≠ some (text "reset")) (hos : chosen osOf b = chosen osOf a)
    (hstore : Ends h (main a) s (.ret ()) s₁) (hbetween : Between h view s₁ s₂)
    (hfetch : Ends h (main b) s₂ (.ret ()) s₃) :
    ∃ eOS old block, chosen osOf a = some eOS ∧ (view s).stored eOS = some old ∧
      Loaded (((view s).files szIn).getD []) old block ∧
      (view s₁).stored = Function.update (view s).stored eOS (some block) ∧
      (view s₃).files = setFile (view s₂).files szOut
        (some (overlay (((view s₂).files szOut).getD []) 0 block)) := by
  obtain ⟨eOS, old, block, hchosen, hold, hloaded, hset⟩ :=
    hstore.meets (main_leaves hsys
      (Q := fun out v => out = .ret () → StoresFile osOf a szIn (view s) v)
      fun hret => body_stores hsys hin hwords ⟨hret, rfl⟩) rfl
  obtain ⟨eOS', block', hchosen', hblock', hfiles⟩ :=
    hfetch.meets (main_leaves hsys
      (Q := fun out v => out = .ret () → FetchesFile osOf b szOut (view s₂) v)
      fun hret => body_fetches hsys hout hnone hreset ⟨hret, rfl⟩) rfl
  have hsame : eOS' = eOS := Option.some.inj (hchosen'.symm.trans (hos.trans hchosen))
  rw [hsame, hbetween.stored hsys, hset, Function.update_self] at hblock'
  rw [← Option.some.inj hblock'] at hfiles
  exact ⟨eOS, old, block, hchosen, hold, hloaded, hset, hfiles⟩

end Runs

section Example

/-- A library that knows one system and all commands but one. -/
def willing : Handler ToolOp ToolResp View
  | .nvInit _, v => (true, { v with blocks := v.stored })
  | .nvToOS szOS, v => (if szOS = text "linux" then some 1 else none, v)
  | .file (.nvOSCfgFind eOS), v => ((v.blocks eOS).map List.length, v)
  | .file (.nvOSCfgGet eOS uiSize), v =>
    (match v.blocks eOS with
      | some block => if hsize : block.length = uiSize then some ⟨block, hsize⟩ else none
      | none => none, v)
  | .file (.nvOSCfgSet eOS pvTmp), v =>
    (true, { v with blocks := Function.update v.blocks eOS (some pvTmp) })
  | .file (.malloc size), v => (some ⟨List.replicate size 0, length_zeros size⟩, v)
  | .file (.openToRead szFile), v => (true, { v with opened := some (szFile, 0) })
  | .file (.read size), v =>
    match v.opened with
    | some (szFile, pos) =>
      (some ⟨(((v.files szFile).getD []).drop pos).take size, List.length_take_le ..⟩,
        { v with opened := some (szFile, pos + size) })
    | none => (none, v)
  | .file (.openToWrite szFile), v => (true, { v with
      files := setFile v.files szFile (some ((v.files szFile).getD []))
      opened := some (szFile, 0) })
  | .file (.write pvTmp), v =>
    match v.opened with
    | some (szFile, pos) => (some (Fin.last _), { v with
        files := setFile v.files szFile (some (overlay ((v.files szFile).getD []) pos pvTmp))
        opened := some (szFile, pos + pvTmp.length) })
    | none => (none, v)
  | .file .close, v => (true, { v with opened := none })
  | .nvCmdLine args, v => (args.head? ≠ some (text "bogus"), v)
  | .nvSave, v => (true, { v with stored := v.blocks })
  | .nvFinish, v => ((), v)

/-- The small system behaves. -/
theorem willing_behaves : Behaves (fun szOS => if szOS = text "linux" then some 1 else none)
    willing id := by
  intro o v
  cases o with
  | nvInit manual => exact ⟨_, rfl, fun _ => rfl⟩
  | nvToOS szOS => exact ⟨rfl, rfl⟩
  | file o =>
    cases o with
    | nvOSCfgFind eOS => exact ⟨rfl, fun n hn => Option.map_eq_some_iff.mp hn⟩
    | nvOSCfgGet eOS uiSize =>
      refine ⟨rfl, fun pvTmp hget => ?_⟩
      rw [willing] at hget
      dsimp only at hget
      split at hget
      · rename_i block hblock
        split at hget
        · rw [← Option.some.inj hget]
          exact hblock
        · cases hget
      · cases hget
    | nvOSCfgSet eOS pvTmp => exact ⟨_, rfl, fun _ => rfl⟩
    | malloc size => rfl
    | openToRead szFile => rfl
    | read size =>
      cases hopened : v.opened with
      | none =>
        rw [willing, hopened]
        exact ⟨⟨v.opened, rfl⟩, fun szFile pos hfile => nomatch hopened.symm.trans hfile⟩
      | some f =>
        rw [willing, hopened]
        refine ⟨⟨_, rfl⟩, fun szFile pos hfile bytes hbytes => ?_⟩
        rw [← Option.some.inj hbytes, Option.some.inj (hopened.symm.trans hfile)]
        rfl
    | openToWrite szFile => rfl
    | write pvTmp =>
      cases hopened : v.opened with
      | none =>
        rw [willing, hopened]
        exact ⟨v.files, v.opened, rfl, fun szFile pos hfile => nomatch hopened.symm.trans hfile⟩
      | some f =>
        rw [willing, hopened]
        refine ⟨_, _, rfl, fun szFile pos hfile n hn => ?_⟩
        rw [← Option.some.inj hn, Option.some.inj (hopened.symm.trans hfile), Fin.val_last,
          List.take_length]
        rfl
    | close => rfl
  | nvCmdLine args => exact ⟨_, rfl⟩
  | nvSave => exact ⟨_, rfl, fun _ => rfl⟩
  | nvFinish => rfl

/-- A stored block of two bytes, and a file of two bytes. -/
def twoFiles : View where
  stored eOS := if eOS = 1 then some (text "AB") else none
  blocks _ := none
  files path := if path = text "in" then some (text "CD") else none
  opened := none

/-- The options of a run for the one system. -/
def runOptions (osInFile osOutFile : Option Path) (extended : List Bytes) : Settings where
  manufMode := false
  os := some (text "linux")
  osInFile := osInFile
  osOutFile := osOutFile
  extended := extended

/-- What a run of this library leaves. -/
def leftBy (opts : Settings) (v : View) : View := (exec willing everyCall (main opts) v).state

set_option maxRecDepth 16000 in
/-- A file is stored, a run fails, and the block is written to another file. -/
theorem stored_then_fetched_example :
    (leftBy (runOptions none (some (text "out")) []) (leftBy (runOptions none none [text "bogus"])
      (leftBy (runOptions (some (text "in")) none []) twoFiles))).files (text "out") =
        some (text "CD") := by
  have hfailed : Ends willing (main (runOptions none none [text "bogus"]))
      (leftBy (runOptions (some (text "in")) none []) twoFiles) (.exit (.exitError _)) _ := ⟨rfl, rfl⟩
  obtain ⟨eOS, old, block, hchosen, hold, hloaded, -, hfiles⟩ := stored_then_fetched willing_behaves
    (a := runOptions (some (text "in")) none []) (b := runOptions none (some (text "out")) [])
    (s := twoFiles) rfl rfl rfl rfl nofun rfl ⟨rfl, rfl⟩
    (.run (.refl _) hfailed ⟨by decide, nofun⟩) ⟨rfl, rfl⟩
  have heOS : eOS = 1 := (Option.some.inj hchosen).symm
  have hsize : old = text "AB" := by
    rw [heOS] at hold
    exact (Option.some.inj hold).symm
  have hblock : block = text "CD" := hloaded.whole (by rw [hsize]; rfl)
  rw [hblock] at hfiles
  exact congrFun hfiles (text "out")

end Example

end MetaDigi.NvramTool
