import Mathlib.Logic.Function.Basic
import MetaDigi.FlashStaging
import MetaDigi.KnownCells
import MetaDigi.LittleEndian
import MetaDigi.MemwatchTransfer
import MetaDigi.SystemReturns

/-!
# Copies of the memory

`memwatch` reads a range of the memory into a file, or writes a file over a
range. The file is not cut off where it is opened, and it is written over as a
whole, whatever length is asked for. A run that fails has still copied the
front of the range or of the file, and nothing else.
-/

namespace MetaDigi.MemwatchCopies

open CStrings SystemProgram SystemRuns SystemReturns KnownCells LittleEndian MemwatchTransfer Prog
open FlashTypes (Path)
open FlashWorld (overlay)
open FlashStaging (copied overlay_copied copied_length)

/-- A number of bytes as an `int` holds it. -/
abbrev Count := Fin (0x80000000)

/-- What `getopt_long` answers, with the value of the argument. -/
inductive Reply where
  /-- 0, and the flag of `--version` is set. -/
  | version
  /-- 0, and the flag of `--help` is set. -/
  | help
  /-- `r`. -/
  | read
  /-- `x`. -/
  | write
  /-- `b`. -/
  | byte
  /-- `h`. -/
  | halfw
  /-- `w`. -/
  | word
  /-- `l`, where nothing stands for -1. -/
  | len (len : Option Count)
  /-- `a`. -/
  | address (address : ℕ)
  /-- `d`. -/
  | data (wr_val : ℕ)
  /-- `f`. -/
  | file (filename : Path)
  /-- `v`. -/
  | verbose
  /-- `?`. -/
  | unknown

/-- The variables that the options set. -/
structure Settings where
  /-- `read_write`. -/
  readWrite : Bool
  /-- `access`. -/
  access : Access
  /-- `len`, where nothing stands for -1. -/
  len : Option Count
  /-- `address`. -/
  address : ℕ
  /-- `wr_val`. -/
  wrVal : ℕ
  /-- `filename`. -/
  filename : Option Path
  /-- `optcount`. -/
  optcount : ℕ

/-- Why the tool is left. -/
inductive Leave where
  /-- The version has been printed. -/
  | version
  /-- The usage has been printed on request. -/
  | help
  /-- The usage has been printed instead of an error. -/
  | usage
  /-- "Error opening mem file". -/
  | openingMem
  /-- "Error opening file". -/
  | openingFile
  /-- "fstat error on" the file. -/
  | fstat
  /-- An error of the transfer. -/
  | transfer (e : Failure)
  deriving DecidableEq

/-- The calls of the tool. -/
inductive WatchOp where
  /-- `open` of `/dev/mem`. -/
  | openMem
  /-- `open` of the file with `O_RDWR | O_CREAT`. -/
  | openFile (filename : Path)
  /-- `fstat` of the file. -/
  | fstat
  /-- A call or an access of the transfer. -/
  | io (o : MemOp)
  /-- `close` of `/dev/mem`. -/
  | closeMem
  /-- `close` of the file. -/
  | closeFile

/-- What they are answered with. A file is not larger than an `int` can tell. -/
abbrev WatchResp : WatchOp → Type
  | .openMem => Bool
  | .openFile _ => Bool
  | .fstat => Option Count
  | .io o => MemResp o
  | .closeMem => Unit
  | .closeFile => Unit

/-- A part of the tool. -/
abbrev Watch := Prog WatchOp WatchResp Leave

/-- Issue a call. -/
abbrev watch (o : WatchOp) : Watch (WatchResp o) := Prog.perform o

/-- The variables at first. `wr_val` is what happens to be there. -/
def defaults (wr_val : ℕ) : Settings :=
  { readWrite := true, access := .dword, len := none, address := 0, wrVal := wr_val,
    filename := none, optcount := 0 }

/-- The loop over the options. -/
def optionLoop : List Reply → Settings → Except Leave Settings
  | [], st => .ok st
  | opt :: rest, st =>
    let st' := { st with optcount := st.optcount + 1 }
    match opt with
    | .version => .error .version
    | .help => .error .help
    | .read => optionLoop rest { st' with readWrite := true }
    | .write => optionLoop rest { st' with readWrite := false }
    | .byte => optionLoop rest { st' with access := .byte }
    | .halfw => optionLoop rest { st' with access := .word }
    | .word => optionLoop rest { st' with access := .dword }
    | .len len => optionLoop rest { st' with len := len }
    | .address address => optionLoop rest { st' with address := address }
    | .data wr_val => optionLoop rest { st' with wrVal := wr_val }
    | .file filename => optionLoop rest { st' with filename := some filename }
    | .verbose => optionLoop rest st'
    | .unknown => .error .usage

/-- `release_resources`, where the file is open or not. -/
def releaseResources (fd_file : Bool) : Watch Unit := do
  watch .closeMem
  if fd_file then watch .closeFile

/-- `release_resources_and_exit`. -/
def releaseResourcesAndExit {α : Type} (fd_file : Bool) (exitval : Leave) : Watch α := do
  releaseResources fd_file
  .exit exitval

/-- The file is opened, and gives the length of what is written. -/
def openFile (st : Settings) (len : ℕ) : Watch ℕ :=
  match st.filename with
  | none => return len
  | some filename => do
    if ← watch (.openFile filename) then
      if st.readWrite then return len
      else
        match ← watch .fstat with
        | some st_size => return st_size
        | none => releaseResourcesAndExit true .fstat
    else releaseResourcesAndExit false .openingFile

/-- The options of the transfer. -/
def Settings.options (st : Settings) : Options := ⟨st.readWrite, st.filename.isSome, st.access⟩

/-- `len` behind the options. -/
def Settings.asked (st : Settings) : ℕ := (st.len.map Fin.val).getD st.access.size

/-- `main` behind the options. -/
def perform (st : Settings) : Watch Unit := do
  if st.optcount = 0 then .exit .usage
  else if ← watch .openMem then
    let len ← openFile st st.asked
    embedOr WatchOp.io (fun _ r => r)
      (fun e => releaseResourcesAndExit st.filename.isSome (.transfer e))
      (transfer st.options len st.address st.wrVal)
    releaseResources st.filename.isSome
  else .exit .openingMem

/-- `main`. -/
def main (replies : List Reply) (wr_val : ℕ) : Watch Unit :=
  match optionLoop replies (defaults wr_val) with
  | .error e => .exit e
  | .ok st => perform st

section Laws

/-- What the calls work on. -/
structure View where
  /-- The memory. -/
  memory : ℤ → UInt8
  /-- The page that is mapped. -/
  mapped : Option ℕ
  /-- The files. One that is not there has no content. -/
  content : Path → Bytes
  /-- The file that is open, and the offset in it. -/
  opened : Option (Path × ℕ)

/-- What a call may do. Behind the page that is mapped an access may do
anything. -/
def Allowed (v : View) : (o : WatchOp) → WatchResp o → View → Prop
  | .openMem, _, v' => v' = v
  | .openFile filename, ok, v' =>
    v' = if ok then { v with opened := some (filename, 0) } else v
  | .fstat, st_size, v' => v' = v ∧ ∀ n, st_size = some n → ∀ filename pos,
      v.opened = some (filename, pos) → n.val = (v.content filename).length
  | .io (.mmap offset), ok, v' => v' = if ok then { v with mapped := some offset } else v
  | .io (.load virt_addr access), rd_val, v' => v' = v ∧ ∀ page, v.mapped = some page →
      virt_addr + access.size ≤ mapSize →
      lowBytes access.size rd_val = readCells v.memory (page + virt_addr : ℕ) access.size
  | .io (.store virt_addr access wr_val), _, v' => ∀ page, v.mapped = some page →
      virt_addr + access.size ≤ mapSize → v' =
        { v with memory := place v.memory (page + virt_addr : ℕ) (lowBytes access.size wr_val) }
  | .io (.writeFile rd_val access), ok, v' => ∀ filename pos, v.opened = some (filename, pos) →
      ∃ bytes, bytes <+: lowBytes access.size rd_val ∧
        (ok = true → bytes = lowBytes access.size rd_val) ∧ v' =
          { v with
            content := Function.update v.content filename (overlay (v.content filename) pos bytes)
            opened := some (filename, pos + bytes.length) }
  | .io (.readFile access), got, v' => ∀ filename pos, v.opened = some (filename, pos) →
      (∃ pos', v' = { v with opened := some (filename, pos') }) ∧ ∀ wr_val, got = some wr_val →
        pos + access.size ≤ (v.content filename).length ∧
        lowBytes access.size wr_val = ((v.content filename).drop pos).take access.size ∧
        v'.opened = some (filename, pos + access.size)
  | .io .munmap, ok, v' => v' = if ok then { v with mapped := none } else v
  | .closeMem, _, v' => v' = v
  | .closeFile, _, v' => v' = v

/-- A call does not fail without need. -/
def Granted (v : View) : (o : WatchOp) → WatchResp o → Prop
  | .openMem, ok => ok = true
  | .openFile _, ok => ok = true
  | .fstat, st_size => ∀ filename pos, v.opened = some (filename, pos) →
      (v.content filename).length < 0x80000000 → st_size ≠ none
  | .io (.mmap _), ok => ok = true
  | .io (.writeFile _ _), ok => v.opened ≠ none → ok = true
  | .io (.readFile access), got => ∀ filename pos, v.opened = some (filename, pos) →
      pos + access.size ≤ (v.content filename).length → got ≠ none
  | .io .munmap, ok => ok = true
  | _, _ => True

/-- A system in which the calls do what they may. -/
def Behaves {σ : Type} (h : Handler WatchOp WatchResp σ) (view : σ → View) : Prop :=
  ∀ o s, Allowed (view s) o (h o s).1 (view (h o s).2)

/-- A system in which no call fails without need. -/
def Willing {σ : Type} (h : Handler WatchOp WatchResp σ) (view : σ → View) : Prop :=
  ∀ o s, Granted (view s) o (h o s).1

end Laws

section Chunks

/-- A chunk of a range: it consists of whole accesses in one page, and what is
left fits again. -/
structure Chunk (access : Access) (pending address chunck : ℕ) : Prop where
  /-- It is not empty. -/
  pos : 0 < chunck
  /-- It is a part of the range. -/
  le : chunck ≤ pending
  /-- It lies in one page. -/
  page : address % mapSize + chunck ≤ mapSize
  /-- It consists of whole accesses. -/
  whole : access.size ∣ chunck
  /-- What is left fits. -/
  rest : Fits access (pending - chunck) (address + chunck)

/-- A range that fits is cut into chunks that fit. -/
theorem chunk_of_fits {access : Access} {pending address chunck : ℕ}
    (hfits : Fits access pending address) (hpending : pending ≠ 0)
    (hchunck : chunck = if pending > mapSize then mapSize else pending) :
    Chunk access pending address chunck := by
  have hpage : 0 < mapSize := by decide
  have hmod := Nat.mod_lt address hpage
  by_cases hlarge : pending > mapSize
  · have hstart : address % mapSize = 0 := hfits.page.resolve_right (by omega)
    rw [if_pos hlarge] at hchunck
    subst hchunck
    refine ⟨hpage, by omega, by omega, size_dvd_mapSize access,
      Nat.dvd_sub hfits.whole (size_dvd_mapSize access), .inl ?_⟩
    rw [Nat.add_mod_right, hstart]
  · rw [if_neg hlarge] at hchunck
    subst hchunck
    have hnone : chunck - chunck = 0 := Nat.sub_self chunck
    have hlast := Nat.mod_lt (address + chunck) hpage
    refine ⟨by omega, Nat.le_refl _, ?_, hfits.whole, hnone ▸ Nat.dvd_zero _, .inr (by omega)⟩
    rcases hfits.page with hstart | hends
    · omega
    · exact hends

end Chunks

section Transfers

variable {σ : Type} {h : Handler WatchOp WatchResp σ} {view : σ → View} {opts : Options}
  {start len : ℕ} {I J : ℕ → View → Prop}

/-- A call of the tool. -/
theorem leaves_watch {α : Type} {o : WatchOp} {f : WatchResp o → Watch α} {s : σ}
    {Q : Outcome Leave α → σ → Prop} (hsys : Behaves h view)
    (hf : ∀ r s₁, Allowed (view s) o r (view s₁) → (Willing h view → Granted (view s) o r) →
      Leaves h (f r) s₁ Q) : Leaves h (watch o >>= f) s Q :=
  leaves_call (hf _ _ (hsys o s) fun hwilling => hwilling o s)

/-- A call or an access of the transfer. -/
theorem leaves_mem {α : Type} {o : MemOp} {f : MemResp o → Mem α} {s : σ}
    {Q : Outcome Failure α → σ → Prop} (hsys : Behaves h view)
    (hf : ∀ r s₁, Allowed (view s) (.io o) r (view s₁) →
      (Willing h view → Granted (view s) (.io o) r) →
      Leaves (narrow WatchOp.io (fun _ r => r) h) (f r) s₁ Q) :
    Leaves (narrow WatchOp.io (fun _ r => r) h) (mem o >>= f) s Q :=
  leaves_call (hf _ _ (hsys (.io o) s) fun hwilling => hwilling (.io o) s)

/-- How a part of the transfer ends: so many bytes have been copied, or a call
has failed and the front ones of all have. -/
def Copied {α : Type} (h : Handler WatchOp WatchResp σ) (view : σ → View) (len : ℕ)
    (J : ℕ → View → Prop) (Q : View → Prop) (out : Outcome Failure α) (s : σ) : Prop :=
  match out with
  | .ret _ => Q (view s)
  | .exit _ => ¬Willing h view ∧ ∃ done ≤ len, J done (view s)
  | .hang => False

/-- An access goes on with the copy. -/
structure Proceeds (h : Handler WatchOp WatchResp σ) (view : σ → View) (opts : Options)
    (start len : ℕ) (I J : ℕ → View → Prop) : Prop where
  /-- An access to the page that is mapped. -/
  access : ∀ {done page virt_addr : ℕ} (wr_val : ℕ) {s : σ}, I done (view s) →
    (view s).mapped = some page → page + virt_addr = start + done →
    virt_addr + opts.access.size ≤ mapSize → done + opts.access.size ≤ len →
    Leaves (narrow WatchOp.io (fun _ r => r) h) (accessOnce opts virt_addr wr_val) s
      (Copied h view len J fun v => I (done + opts.access.size) v ∧ v.mapped = some page)
  /-- The page that is mapped does not matter. -/
  mapping : ∀ {done : ℕ} {v : View} (page : Option ℕ), I done v → I done { v with mapped := page }
  /-- What has been copied is the front. -/
  front : ∀ {done : ℕ} {v : View}, I done v → J done v

/-- The accesses of a chunk one after the other. -/
theorem Proceeds.accessLoop (hp : Proceeds h view opts start len I J) {page chunck : ℕ}
    (j : ℕ) {virt_addr done : ℕ} (wr_val : ℕ) {s : σ} (hs : I done (view s))
    (hmapped : (view s).mapped = some page) (haddress : page + virt_addr = start + done)
    (hpage : virt_addr + (chunck - j) ≤ mapSize) (hwhole : opts.access.size ∣ chunck - j)
    (hlen : done + (chunck - j) ≤ len) :
    Leaves (narrow WatchOp.io (fun _ r => r) h) (accessLoop opts chunck j virt_addr wr_val) s
      (Copied h view len J fun v => I (done + (chunck - j)) v) := by
  induction hleft : chunck - j using Nat.strong_induction_on
    generalizing j virt_addr done wr_val s with
  | _ left ih =>
    have hsize := size_pos opts.access
    rw [MemwatchTransfer.accessLoop]
    by_cases hmore : j < chunck
    · have hfirst : opts.access.size ≤ chunck - j := Nat.le_of_dvd (by omega) hwhole
      have hrest : chunck - (j + opts.access.size) = chunck - j - opts.access.size := by omega
      have hnext : page + (virt_addr + opts.access.size) =
          start + (done + opts.access.size) := by omega
      have hdone : done + opts.access.size + (chunck - (j + opts.access.size)) = done + left := by
        omega
      rw [if_pos hmore]
      refine Leaves.andThen ((hp.access wr_val hs hmapped haddress (by omega) (by omega)).mono
        fun out s' hout => ?_)
      cases out with
      | ret wr_val =>
        have hloop := ih _ (by omega) (j + opts.access.size) wr_val hout.1 hout.2 hnext
          (by omega) (hrest ▸ Nat.dvd_sub hwhole (Nat.dvd_refl _)) (by omega) rfl
        rw [hdone] at hloop
        exact hloop
      | exit e => exact hout
      | hang => exact hout
    · have hzero : left = 0 := by omega
      rw [if_neg hmore, hzero]
      exact leaves_pure hs

/-- The transfer copies all bytes, or a call fails and the front ones have been
copied. -/
theorem Proceeds.transfer (hsys : Behaves h view) (hp : Proceeds h view opts start len I J)
    {pending address done : ℕ} (wr_val : ℕ) {s : σ} (hs : I done (view s))
    (haddress : address = start + done) (hlen : done + pending = len)
    (hfits : Fits opts.access pending address) :
    Leaves (narrow WatchOp.io (fun _ r => r) h) (transfer opts pending address wr_val) s
      (Copied h view len J fun v => I len v) := by
  induction pending using Nat.strong_induction_on generalizing address done wr_val s with
  | _ pending ih =>
    rw [MemwatchTransfer.transfer]
    by_cases hzero : pending = 0
    · rw [if_pos hzero]
      have hdone : done = len := by omega
      rw [hdone] at hs
      exact leaves_pure hs
    · obtain ⟨chunck, hchunck⟩ : ∃ n, n = if pending > mapSize then mapSize else pending := ⟨_, rfl⟩
      have hchunk := chunk_of_fits hfits hzero hchunck
      have hwhere := Nat.div_add_mod' address mapSize
      have hle := hchunk.le
      rw [if_neg hzero, ← hchunck]
      dsimp only
      refine leaves_mem hsys fun ok s₁ hmap hgranted => ?_
      cases ok with
      | false =>
        have hsame : view s₁ = view s := hmap
        have hdone : J done (view s₁) := hsame ▸ hp.front hs
        exact leaves_exit ⟨fun hwilling => absurd (hgranted hwilling) Bool.false_ne_true, done,
          by omega, hdone⟩
      | true =>
        have hview : view s₁ = { view s with mapped := some (address / mapSize * mapSize) } := hmap
        have hs₁ : I done (view s₁) := hview ▸ hp.mapping _ hs
        refine Leaves.andThen ((hp.accessLoop 0 wr_val hs₁ (congrArg View.mapped hview) (by omega)
          hchunk.page hchunk.whole (by omega)).mono fun out s₂ hout => ?_)
        cases out with
        | ret wr_val =>
          have hpos := hchunk.pos
          rw [resumes_ret]
          refine leaves_mem hsys fun ok s₃ hunmap hgranted => ?_
          cases ok with
          | false =>
            have hsame : view s₃ = view s₂ := hunmap
            have hdone : J (done + (chunck - 0)) (view s₃) := hsame ▸ hp.front hout
            exact leaves_exit ⟨fun hwilling => absurd (hgranted hwilling) Bool.false_ne_true, _,
              by omega, hdone⟩
          | true =>
            have hview' : view s₃ = { view s₂ with mapped := none } := hunmap
            have hs₃ : I (done + (chunck - 0)) (view s₃) := hview' ▸ hp.mapping _ hout
            exact ih _ (by omega) wr_val hs₃ (by omega) (by omega) hchunk.rest
        | exit e => exact hout
        | hang => exact hout

end Transfers

section Dumps

variable {σ : Type} {h : Handler WatchOp WatchResp σ} {view : σ → View} {opts : Options}

/-- So many bytes of a range have been copied over the front of a file. -/
structure Dumped (v₀ : View) (filename : Path) (start len done : ℕ) (v : View) : Prop where
  /-- The memory is as before. -/
  memory : v.memory = v₀.memory
  /-- The file has the bytes in front of what is left of it, the other files are
  as before. -/
  content : v.content = Function.update v₀.content filename
    (copied (v₀.content filename) (readCells v₀.memory start len) done)

variable {v₀ : View} {filename : Path} {start len : ℕ}

/-- More bytes are written to the file. -/
theorem Dumped.write {done : ℕ} {v : View} (hv : Dumped v₀ filename start len done v)
    (hdone : done ≤ len) {bytes : Bytes}
    (hnext : bytes <+: (readCells v₀.memory start len).drop done) (pos : ℕ) :
    Dumped v₀ filename start len (done + bytes.length) { v with
      content := Function.update v.content filename (overlay (v.content filename) done bytes)
      opened := some (filename, pos) } where
  memory := hv.memory
  content := by
    have hlength : done ≤ (readCells v₀.memory start len).length := by
      rw [length_readCells]
      exact hdone
    dsimp only
    rw [hv.content, Function.update_self, Function.update_idem, overlay_copied _ _ hlength hnext]

/-- An access of a run that reads. -/
theorem dump_proceeds (v₀ : View) (filename : Path) (start len : ℕ) (hsys : Behaves h view)
    (hread : opts.readWrite = true) (hfile : opts.filename = true) :
    Proceeds h view opts start len
      (fun done v => Dumped v₀ filename start len done v ∧ v.opened = some (filename, done))
      (Dumped v₀ filename start len) where
  access := by
    intro done page virt_addr wr_val s hs hmapped haddress hpage hlen
    obtain ⟨hdumped, hopened⟩ := hs
    rw [accessOnce, if_pos hread]
    refine leaves_mem hsys fun rd_val s₁ hload _ => ?_
    obtain ⟨hsame, hvalue⟩ := hload
    have hvalue : lowBytes opts.access.size rd_val =
        ((readCells v₀.memory start len).drop done).take opts.access.size := by
      rw [hvalue page hmapped hpage, readCells_slice hlen, hdumped.memory, haddress, Nat.cast_add]
    rw [if_pos hfile]
    refine leaves_mem hsys fun ok s₂ hwrite hgranted => ?_
    rw [hsame] at hwrite
    obtain ⟨bytes, hfront, hall, hview⟩ := hwrite filename done hopened
    have hnext := hvalue ▸ hfront
    have hdone := hdumped.write (by omega) (hnext.trans (List.take_prefix ..))
      (done + bytes.length)
    rw [← hview] at hdone
    cases ok with
    | true =>
      have hsize : bytes.length = opts.access.size := by rw [hall rfl, length_lowBytes]
      rw [hsize] at hdone hview
      exact leaves_pure ⟨⟨hdone, by rw [hview]⟩, by rw [hview]; exact hmapped⟩
    | false =>
      have hle := hfront.length_le
      rw [length_lowBytes] at hle
      have hfailed : ¬Willing h view := fun hwilling => by
        have hopen : (view s₁).opened ≠ none := by
          rw [hsame, hopened]
          exact Option.some_ne_none _
        exact absurd (hgranted hwilling hopen) Bool.false_ne_true
      exact leaves_exit ⟨hfailed, _, by omega, hdone⟩
  mapping _ hs := ⟨⟨hs.1.memory, hs.1.content⟩, hs.2⟩
  front hs := hs.1

end Dumps

section Restores

variable {σ : Type} {h : Handler WatchOp WatchResp σ} {view : σ → View} {opts : Options}

/-- So many bytes of a file have been copied to the memory. -/
structure Restored (v₀ : View) (filename : Path) (start done : ℕ) (v : View) : Prop where
  /-- The bytes are there, the rest of the memory is as before. -/
  memory : v.memory = place v₀.memory start ((v₀.content filename).take done)
  /-- The files are as before. -/
  content : v.content = v₀.content

variable {v₀ : View} {filename : Path} {start : ℕ}

/-- More bytes are written to the memory. -/
theorem Restored.store {done count : ℕ} {v : View} (hv : Restored v₀ filename start done v)
    (hlen : done + count ≤ (v₀.content filename).length) :
    Restored v₀ filename start (done + count) { v with
      memory := place v.memory (start + done : ℕ)
        (((v₀.content filename).drop done).take count) } where
  memory := by
    have hfront : ((v₀.content filename).take done).length = done :=
      List.length_take_of_le (by omega)
    have hoffset : ((start + done : ℕ) : ℤ) =
        (start : ℤ) + ((v₀.content filename).take done).length := by
      rw [hfront, Nat.cast_add]
    dsimp only
    rw [hv.memory, hoffset, place_append, List.take_add]
  content := hv.content

/-- An access of a run that writes. -/
theorem restore_proceeds (v₀ : View) (filename : Path) (start : ℕ) (hsys : Behaves h view)
    (hwrite : opts.readWrite = false) (hfile : opts.filename = true) :
    Proceeds h view opts start (v₀.content filename).length
      (fun done v => Restored v₀ filename start done v ∧ v.opened = some (filename, done))
      (Restored v₀ filename start) where
  access := by
    intro done page virt_addr wr_val s hs hmapped haddress hpage hlen
    obtain ⟨hrestored, hopened⟩ := hs
    rw [accessOnce, if_neg (hwrite ▸ Bool.false_ne_true), if_pos hfile]
    refine leaves_mem hsys fun got s₁ hread hgranted => ?_
    obtain ⟨⟨pos', hview⟩, hgot⟩ := hread filename done hopened
    cases got with
    | none =>
      have hshort : done + opts.access.size ≤ ((view s).content filename).length := by
        rw [hrestored.content]
        exact hlen
      refine leaves_exit ⟨fun hwilling => hgranted hwilling filename done hopened hshort rfl, done,
        by omega, ?_⟩
      rw [hview]
      exact ⟨hrestored.memory, hrestored.content⟩
    | some wr_val =>
      obtain ⟨-, hvalue, hopened'⟩ := hgot wr_val rfl
      refine leaves_mem hsys fun _ s₂ hstore _ => ?_
      have hrestored₁ : Restored v₀ filename start done (view s₁) := by
        rw [hview]
        exact ⟨hrestored.memory, hrestored.content⟩
      have hmapped₁ : (view s₁).mapped = some page := by
        rw [hview]
        exact hmapped
      have hview₂ := hstore page hmapped₁ hpage
      rw [hvalue, hrestored.content, haddress] at hview₂
      refine leaves_pure ⟨⟨hview₂ ▸ hrestored₁.store hlen, ?_⟩, ?_⟩
      · rw [hview₂]
        exact hopened'
      · rw [hview₂]
        exact hmapped₁
  mapping _ hs := ⟨⟨hs.1.memory, hs.1.content⟩, hs.2⟩
  front hs := hs.1

end Restores

section Runs

variable {σ : Type} {h : Handler WatchOp WatchResp σ} {view : σ → View} {st : Settings}
  {filename : Path} {len : ℕ} {I J : ℕ → View → Prop} {s : σ}

/-- How a run ends: all bytes have been copied, or a call has failed and the
front ones have. -/
def Finished (h : Handler WatchOp WatchResp σ) (view : σ → View) (len : ℕ) (J : ℕ → View → Prop)
    (out : Outcome Leave Unit) (s : σ) : Prop :=
  match out with
  | .ret _ => J len (view s)
  | .exit _ => ¬Willing h view ∧ ∃ done ≤ len, J done (view s)
  | .hang => False

/-- When no call fails the run returns, and all bytes have been copied. -/
theorem Finished.returned {out : Outcome Leave Unit} (hout : Finished h view len J out s)
    (hwilling : Willing h view) : out = .ret () ∧ J len (view s) := by
  cases out with
  | ret u => exact ⟨rfl, hout⟩
  | exit e => exact absurd hwilling hout.1
  | hang => exact hout.elim

/-- The number of bytes of a transfer between the memory and a file. -/
def Settings.total (st : Settings) (content : Bytes) : ℕ :=
  if st.readWrite then st.asked else content.length

/-- `release_resources`. -/
theorem releaseResources_leaves (hsys : Behaves h view) (fd_file : Bool) :
    Leaves h (releaseResources fd_file) s fun out s' => out = .ret () ∧ view s' = view s := by
  refine leaves_watch hsys fun _ s₁ hclose _ => ?_
  cases fd_file with
  | false => exact leaves_pure ⟨rfl, hclose⟩
  | true => exact ⟨rfl, (hsys .closeFile s₁).trans hclose⟩

/-- `release_resources_and_exit`. -/
theorem releaseResourcesAndExit_leaves {α : Type} (hsys : Behaves h view) (fd_file : Bool)
    (exitval : Leave) :
    Leaves h (releaseResourcesAndExit fd_file exitval : Watch α) s fun out s' =>
      out = .exit exitval ∧ view s' = view s := by
  refine Leaves.andThen ((releaseResources_leaves hsys fd_file).mono fun out s' hout => ?_)
  obtain ⟨rfl, hview⟩ := hout
  exact ⟨rfl, hview⟩

/-- The file is opened at its beginning, and tells how much is written. -/
theorem openFile_leaves (hsys : Behaves h view) (hfile : st.filename = some filename)
    (hsmall : ((view s).content filename).length < 0x80000000) :
    Leaves h (openFile st st.asked) s fun out s' =>
      match out with
      | .ret total => total = st.total ((view s).content filename) ∧
          view s' = { view s with opened := some (filename, 0) }
      | .exit _ => ¬Willing h view ∧
          (view s' = view s ∨ view s' = { view s with opened := some (filename, 0) })
      | .hang => False := by
  rw [openFile, hfile]
  refine leaves_watch hsys fun ok s₁ hopen hgranted => ?_
  cases ok with
  | false =>
    have hfailed : ¬Willing h view := fun hwilling =>
      absurd (hgranted hwilling) Bool.false_ne_true
    refine (releaseResourcesAndExit_leaves hsys false .openingFile).mono fun out s₂ hout => ?_
    obtain ⟨rfl, hsame⟩ := hout
    exact ⟨hfailed, .inl (hsame.trans hopen)⟩
  | true =>
    have hview : view s₁ = { view s with opened := some (filename, 0) } := hopen
    unfold Settings.total
    by_cases hread : st.readWrite = true
    · rw [if_pos hread, if_pos rfl, if_pos hread]
      exact leaves_pure ⟨rfl, hview⟩
    · rw [if_neg hread, if_pos rfl, if_neg hread]
      refine leaves_watch hsys fun st_size s₂ hstat hgranted => ?_
      obtain ⟨hsame, hsize⟩ := hstat
      rw [hview] at hsame hsize hgranted
      cases st_size with
      | none =>
        have hfailed : ¬Willing h view := fun hwilling =>
          hgranted hwilling filename 0 rfl hsmall rfl
        refine (releaseResourcesAndExit_leaves hsys true .fstat).mono fun out s₃ hout => ?_
        obtain ⟨rfl, hsame'⟩ := hout
        exact ⟨hfailed, .inr (hsame'.trans hsame)⟩
      | some st_size => exact leaves_pure ⟨hsize st_size rfl filename 0 rfl, hsame⟩

/-- A run of the tool copies all bytes, or a call fails and the front ones have
been copied. -/
theorem perform_finishes (hsys : Behaves h view) (hcount : st.optcount ≠ 0)
    (hfile : st.filename = some filename)
    (hsmall : ((view s).content filename).length < 0x80000000)
    (hlen : st.total ((view s).content filename) = len)
    (hp : Proceeds h view st.options st.address len I J)
    (hI : I 0 { view s with opened := some (filename, 0) }) (hJ : J 0 (view s))
    (hfits : Fits st.access len st.address) :
    Leaves h (perform st) s (Finished h view len J) := by
  rw [perform, if_neg hcount]
  refine leaves_watch hsys fun ok s₁ hopen hgranted => ?_
  have hsame : view s₁ = view s := hopen
  cases ok with
  | false => exact leaves_exit ⟨fun hwilling => absurd (hgranted hwilling) Bool.false_ne_true, 0,
      Nat.zero_le _, hsame ▸ hJ⟩
  | true =>
    refine Leaves.andThen ((openFile_leaves hsys hfile (hsame ▸ hsmall)).mono
      fun out s₂ hout => ?_)
    rw [hsame] at hout
    cases out with
    | ret total =>
      obtain ⟨htotal, hview⟩ := hout
      rw [hlen] at htotal
      subst htotal
      have htransfer : Leaves _ (transfer st.options _ st.address st.wrVal) s₂ _ :=
        hp.transfer hsys st.wrVal (hview ▸ hI) rfl (Nat.zero_add _) hfits
      rw [resumes_ret]
      refine Leaves.andThen (leaves_embedOr (htransfer.mono fun out s₃ hout => ?_))
      cases out with
      | ret u =>
        have hclose : Leaves h (releaseResources st.filename.isSome) s₃ (Finished h view total J) :=
          (releaseResources_leaves hsys _).mono fun out s₄ hclosed => by
            obtain ⟨rfl, hsame'⟩ := hclosed
            have hdone := hp.front hout
            rw [← hsame'] at hdone
            exact hdone
        exact hclose
      | exit e =>
        have hclose : Leaves h
            (releaseResourcesAndExit st.filename.isSome (.transfer e) : Watch Unit) s₃ (Resumes h
              (fun _ => releaseResources st.filename.isSome)
              (Finished h view total J)) :=
          (releaseResourcesAndExit_leaves hsys _ _).mono fun out s₄ hclosed => by
            obtain ⟨rfl, hsame'⟩ := hclosed
            obtain ⟨hfailed, done, hle, hdone⟩ := hout
            rw [← hsame'] at hdone
            exact ⟨hfailed, done, hle, hdone⟩
        exact hclose
      | hang => exact hout
    | exit e =>
      obtain ⟨hfailed, hview | hview⟩ := hout
      · exact ⟨hfailed, 0, Nat.zero_le _, hview ▸ hJ⟩
      · exact ⟨hfailed, 0, Nat.zero_le _, hview ▸ hp.front hI⟩
    | hang => exact hout

/-- Each option is counted. -/
theorem optionLoop_count {replies : List Reply} {st st' : Settings}
    (h : optionLoop replies st = .ok st') : st'.optcount = st.optcount + replies.length := by
  induction replies generalizing st with
  | nil =>
    cases h
    rfl
  | cons opt rest ih =>
    rw [List.length_cons, Nat.add_comm rest.length, ← Nat.add_assoc]
    cases opt with
    | version => cases h
    | help => cases h
    | unknown => cases h
    | _ => exact ih h

/-- Where there is a file there has been an option. -/
theorem optcount_ne_zero {replies : List Reply} {wr_val : ℕ}
    (h : optionLoop replies (defaults wr_val) = .ok st) (hfile : st.filename = some filename) :
    st.optcount ≠ 0 := by
  rw [optionLoop_count h]
  cases replies with
  | nil =>
    cases h
    cases hfile
  | cons opt rest =>
    rw [List.length_cons]
    omega

variable {replies replies' : List Reply} {wr_val wr_val' : ℕ} {st' : Settings}

/-- What becomes of a range that is read into a file. -/
theorem dump_finishes (hsys : Behaves h view)
    (hloop : optionLoop replies (defaults wr_val) = .ok st) (hread : st.readWrite = true)
    (hfile : st.filename = some filename) (hsmall : ((view s).content filename).length < 0x80000000)
    (hfits : Fits st.access st.asked st.address) :
    Leaves h (main replies wr_val) s
      (Finished h view st.asked (Dumped (view s) filename st.address st.asked)) := by
  have hname : st.options.filename = true := by
    rw [Settings.options, hfile]
    rfl
  have htotal : st.total ((view s).content filename) = st.asked := by
    rw [Settings.total, hread]
    rfl
  have hnothing : Dumped (view s) filename st.address st.asked 0 (view s) := {
    memory := rfl
    content := (Function.update_eq_self filename _).symm }
  rw [main, hloop]
  exact perform_finishes hsys (optcount_ne_zero hloop hfile) hfile hsmall htotal
    (dump_proceeds (view s) filename _ _ hsys hread hname)
    ⟨⟨hnothing.memory, hnothing.content⟩, rfl⟩ hnothing hfits

/-- What becomes of a range over which a file is written. -/
theorem restore_finishes (hsys : Behaves h view)
    (hloop : optionLoop replies (defaults wr_val) = .ok st) (hwrite : st.readWrite = false)
    (hfile : st.filename = some filename) (hsmall : ((view s).content filename).length < 0x80000000)
    (hfits : Fits st.access ((view s).content filename).length st.address) :
    Leaves h (main replies wr_val) s (Finished h view ((view s).content filename).length
      (Restored (view s) filename st.address)) := by
  have hname : st.options.filename = true := by
    rw [Settings.options, hfile]
    rfl
  have htotal : st.total ((view s).content filename) = ((view s).content filename).length := by
    rw [Settings.total, hwrite]
    rfl
  have hnothing : Restored (view s) filename st.address 0 (view s) := {
    memory := by rw [List.take_zero, place_nil]
    content := rfl }
  rw [main, hloop]
  exact perform_finishes hsys (optcount_ne_zero hloop hfile) hfile hsmall htotal
    (restore_proceeds (view s) filename _ hsys hwrite hname)
    ⟨⟨hnothing.memory, hnothing.content⟩, rfl⟩ hnothing hfits

/-- A range is read into a file, and later the file is written to the memory,
with accesses of any widths. Each run copies everything, or a call fails and it
has copied the front. When both return, the bytes of the range are at the new
place, and behind them what the file had beyond them before. -/
theorem copied_and_restored (hsys : Behaves h view)
    (hloop : optionLoop replies (defaults wr_val) = .ok st) (hread : st.readWrite = true)
    (hfile : st.filename = some filename) (hsmall : ((view s).content filename).length < 0x80000000)
    (hfits : Fits st.access st.asked st.address)
    (hloop' : optionLoop replies' (defaults wr_val') = .ok st') (hwrite : st'.readWrite = false)
    (hfile' : st'.filename = some filename) :
    Leaves h (main replies wr_val) s fun out s₁ =>
      Finished h view st.asked (Dumped (view s) filename st.address st.asked) out s₁ ∧
      ∀ s₂, (view s₂).content filename = (view s₁).content filename →
        ((view s₂).content filename).length < 0x80000000 →
        Fits st'.access ((view s₂).content filename).length st'.address →
        Leaves h (main replies' wr_val') s₂ fun out' s₃ =>
          Finished h view ((view s₂).content filename).length
            (Restored (view s₂) filename st'.address) out' s₃ ∧
          (out = .ret () → out' = .ret () → (view s₃).memory = place (view s₂).memory st'.address
            (readCells (view s).memory st.address st.asked ++
              ((view s).content filename).drop st.asked)) := by
  refine (dump_finishes hsys hloop hread hfile hsmall hfits).mono fun out s₁ hdump => ⟨hdump, ?_⟩
  intro s₂ hsame hsmall₂ hfits₂
  refine (restore_finishes hsys hloop' hwrite hfile' hsmall₂ hfits₂).mono fun out' s₃ hrestore =>
    ⟨hrestore, fun hout hout' => ?_⟩
  subst hout hout'
  have hcontent : (view s₂).content filename = readCells (view s).memory st.address st.asked ++
      ((view s).content filename).drop st.asked := by
    have hall := copied_length ((view s).content filename)
      (readCells (view s).memory st.address st.asked)
    rw [length_readCells] at hall
    rw [hsame, hdump.content, Function.update_self, hall]
  rw [hrestore.memory, List.take_length, hcontent]

end Runs

section Example

/-- The length of the open file. -/
def openedSize (v : View) : Option Count :=
  match v.opened with
  | none => none
  | some (filename, _) =>
    if hlt : (v.content filename).length < 0x80000000 then some ⟨_, hlt⟩ else none

/-- A system in which a call fails only when it has to. -/
def plain : Handler WatchOp WatchResp View
  | .openMem, v => (true, v)
  | .openFile filename, v => (true, { v with opened := some (filename, 0) })
  | .fstat, v => (openedSize v, v)
  | .io (.mmap offset), v => (true, { v with mapped := some offset })
  | .io (.load virt_addr access), v =>
    (valueOf (readCells v.memory (v.mapped.getD 0 + virt_addr : ℕ) access.size), v)
  | .io (.store virt_addr access wr_val), v => ((), { v with
      memory := place v.memory (v.mapped.getD 0 + virt_addr : ℕ) (lowBytes access.size wr_val) })
  | .io (.writeFile rd_val access), v =>
    match v.opened with
    | none => (false, v)
    | some (filename, pos) => (true, { v with
        content := Function.update v.content filename
          (overlay (v.content filename) pos (lowBytes access.size rd_val))
        opened := some (filename, pos + access.size) })
  | .io (.readFile access), v =>
    match v.opened with
    | none => (none, v)
    | some (filename, pos) =>
      if pos + access.size ≤ (v.content filename).length then
        (some (valueOf (((v.content filename).drop pos).take access.size)),
          { v with opened := some (filename, pos + access.size) })
      else (none, v)
  | .io .munmap, v => (true, { v with mapped := none })
  | .closeMem, v => ((), v)
  | .closeFile, v => ((), v)

/-- The size of the file that is open. -/
theorem openedSize_eq {v : View} {filename : Path} {pos : ℕ} (h : v.opened = some (filename, pos))
    (n : Count) (hn : openedSize v = some n) : n.val = (v.content filename).length := by
  rw [openedSize, h] at hn
  dsimp only at hn
  split at hn
  · rw [← Option.some.inj hn]
  · cases hn

/-- The small system behaves. -/
theorem plain_behaves : Behaves plain id := by
  intro o v
  cases o with
  | openMem => rfl
  | openFile filename => rfl
  | fstat => exact ⟨rfl, fun n hn filename pos hopened => openedSize_eq hopened n hn⟩
  | io o =>
    cases o with
    | mmap offset => rfl
    | load virt_addr access =>
      refine ⟨rfl, fun page hmapped _ => ?_⟩
      have hvalue := lowBytes_valueOf (readCells v.memory (page + virt_addr : ℕ) access.size)
      rw [length_readCells] at hvalue
      rw [plain, show v.mapped = some page from hmapped]
      exact hvalue
    | store virt_addr access wr_val =>
      intro page hmapped _
      have hpage : v.mapped.getD 0 = page := by rw [show v.mapped = some page from hmapped]; rfl
      rw [plain, hpage]
      rfl
    | writeFile rd_val access =>
      intro filename pos hopened
      rw [plain, show v.opened = some (filename, pos) from hopened]
      refine ⟨_, List.prefix_refl _, fun _ => rfl, ?_⟩
      rw [length_lowBytes]
      rfl
    | readFile access =>
      intro filename pos hopened
      rw [plain, show v.opened = some (filename, pos) from hopened]
      dsimp only
      split
      · rename_i hle
        refine ⟨⟨_, rfl⟩, fun wr_val hwr_val => ⟨hle, ?_, rfl⟩⟩
        have hslice : (((v.content filename).drop pos).take access.size).length = access.size := by
          rw [List.length_take, List.length_drop]
          omega
        have hvalue := lowBytes_valueOf (((v.content filename).drop pos).take access.size)
        rw [hslice] at hvalue
        rw [← Option.some.inj hwr_val]
        exact hvalue
      · exact ⟨⟨pos, by rw [← hopened]⟩, nofun⟩
    | munmap => rfl
  | closeMem => rfl
  | closeFile => rfl

/-- No call fails there. -/
theorem plain_willing : Willing plain id := by
  intro o v
  cases o with
  | fstat =>
    intro filename pos hopened hsmall hnone
    rw [plain, openedSize, show v.opened = some (filename, pos) from hopened] at hnone
    dsimp only at hnone
    rw [dif_pos (show (v.content filename).length < 0x80000000 from hsmall)] at hnone
    cases hnone
  | io o =>
    cases o with
    | writeFile rd_val access =>
      intro hopen
      obtain ⟨f, hopened⟩ := Option.ne_none_iff_exists'.mp hopen
      rw [plain, show v.opened = some f from hopened]
    | readFile access =>
      intro filename pos hopened hle
      rw [plain, show v.opened = some (filename, pos) from hopened]
      dsimp only
      rw [if_pos (show pos + access.size ≤ (v.content filename).length from hle)]
      exact Option.some_ne_none _
    | mmap offset => rfl
    | munmap => rfl
    | _ => trivial
  | openMem => rfl
  | openFile filename => rfl
  | _ => trivial

/-- Memory in which each byte tells its address, and no files. -/
def counting : View where
  memory x := UInt8.ofNat x.toNat
  mapped := none
  content _ := []
  opened := none

/-- A copy of eight bytes to the next page, by half words and then by words. -/
theorem copied_and_restored_example :
    Leaves plain (main [.halfw, .len (some 8), .address 4096, .file (text "f")] 0) counting
      fun _ s₁ => Leaves plain (main [.write, .address 8192, .file (text "f")] 0) s₁
        fun _ s₃ => s₃.memory =
          place s₁.memory (8192 : ℕ) (readCells counting.memory (4096 : ℕ) 8) := by
  have hcopy := @copied_and_restored View plain id _ (text "f") counting
    [.halfw, .len (some 8), .address 4096, .file (text "f")]
    [.write, .address 8192, .file (text "f")] 0 0 _ plain_behaves rfl rfl rfl (by decide)
    ⟨by decide, by decide⟩ rfl rfl rfl
  refine hcopy.mono fun out s₁ hout => ?_
  obtain ⟨hdump, hrestore⟩ := hout
  obtain ⟨rfl, hdumped⟩ := hdump.returned plain_willing
  have hcontent : s₁.content (text "f") = readCells counting.memory (4096 : ℕ) 8 :=
    (congrFun hdumped.content (text "f")).trans (Function.update_self ..)
  have hlength : (s₁.content (text "f")).length = 8 := by rw [hcontent, length_readCells]
  refine (hrestore s₁ rfl ?_ ?_).mono fun out' s₃ hout' => ?_
  · exact lt_of_eq_of_lt hlength (by decide)
  · exact ⟨hlength.symm ▸ (by decide), .inl (by decide)⟩
  · obtain ⟨hrestored, hmemory⟩ := hout'
    obtain ⟨rfl, -⟩ := hrestored.returned plain_willing
    exact hmemory rfl rfl

end Example

end MetaDigi.MemwatchCopies
