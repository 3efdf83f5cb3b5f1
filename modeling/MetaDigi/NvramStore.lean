import MetaDigi.FlashRetries
import MetaDigi.KnownCells
import MetaDigi.NvramFlash
import MetaDigi.SystemReturns

/-!
# The partition of the NVRAM as a store

The private functions of the NVRAM library open its partition, erase, write
and read it. The partition may fail a call at any time, and where data is read
back it may even store something else than it was given. What the functions
report is right nevertheless: what is read has been written before, wherever
nothing has failed since. The program is left only where `close` fails.
-/

namespace MetaDigi.NvramStore

open CStrings SystemProgram SystemRuns SystemReturns KnownCells NvramFlash Prog

/-- `l_acMtd` and `l_xMtdInfo`. -/
structure Globals where
  /-- The path of the partition. -/
  l_acMtd : Bytes
  /-- `erasesize`. -/
  erasesize : ℕ
  /-- `type`. -/
  type : ℕ

/-- An operation on the partition, or on its path. -/
inductive PrivOp where
  /-- A call of the functions that read and write. -/
  | io (o : NvOp)
  /-- `stat`. -/
  | stat (path : Bytes)
  /-- `open`, for reading only or with `O_RDWR | O_SYNC`. -/
  | openPath (path : Bytes) (bForWrite : Bool)
  /-- `ioctl(MEMGETINFO)`. -/
  | memGetInfo
  /-- `close`. -/
  | close
  /-- `ioctl(MEMERASE)`. -/
  | memErase (start : ℤ) (length : ℕ)
  /-- `ioctl(MEMLOCK)` or `ioctl(MEMUNLOCK)`. -/
  | memLock (bProtect : Bool) (start : ℤ) (length : ℕ)
  /-- `ioctl(MEMGETBADBLOCK)`. -/
  | memGetBadBlock (iOffs : ℤ)

/-- What a call is answered with. -/
abbrev PrivResp : PrivOp → Type
  | .io o => NvResp o
  | .stat _ => Bool
  | .openPath _ _ => Bool
  | .memGetInfo => Option (ℕ × ℕ)
  | .close => Bool
  | .memErase _ _ => Bool
  | .memLock _ _ _ => Option ℤ
  | .memGetBadBlock _ => ℤ × ℤ

/-- Where the program is left. -/
inductive PrivExit where
  /-- `systemError` in `CLOSE`. -/
  | systemError
  deriving DecidableEq, Repr

/-- A part of the functions. -/
abbrev Priv := Prog PrivOp PrivResp PrivExit

/-- Issue a call. -/
abbrev askPriv (o : PrivOp) : Priv (PrivResp o) := Prog.perform o

/-- `NV_SET_ERROR` with the text for `errno`. -/
inductive PrivError where
  /-- `NVE_NO_DEV`. -/
  | noDev
  /-- `NVE_IO`. -/
  | io
  deriving DecidableEq, Repr

/-- `ENOTSUP`. -/
def enotsup : ℤ := 95

/-- One pass of the loop of `NvPrivOSFlashRead`, over the counter and the
buffer. -/
def readPass (g_markBadBlocks : Bool) (iOffs : ℤ) (iLength : ℕ) :
    ℕ × Bytes → Nv ((ℕ × Bytes) ⊕ (Except NvError ℕ × Bytes))
  | (i, pvBuf) => do
    if i < bbMaxRetries then
      let r ← ask (.pread iLength iOffs)
      let pvBuf := afterRead pvBuf r
      if toSize (bytesRead r) ≠ iLength then
        if g_markBadBlocks then return .inl (i + 1, pvBuf)
        else return .inr (.error .errno, pvBuf)
      else return .inr (.ok i, pvBuf)
    else return .inr (.ok i, pvBuf)

/-- `NvPrivOSFlashRead` into a buffer, with what becomes of the buffer. -/
def nvPrivOSFlashRead (fuel : ℕ) (g_markBadBlocks : Bool) (pvBuf : Object) (iOffs : ℤ) :
    Nv (Except NvError Unit × Bytes) := do
  match ← Prog.loop (readPass g_markBadBlocks iOffs pvBuf.1.length) fuel (0, pvBuf.1) with
  | (.error e, pvBuf) => return (.error e, pvBuf)
  | (.ok i, pvBuf) =>
    if g_markBadBlocks && bbMaxRetries ≤ i then
      let iRet ← nvPrivMarkBadBlock iOffs
      return (.error (.iRet iRet), pvBuf)
    else return (.ok (), pvBuf)

/-- `NvPrivOSFlashErase`. -/
def nvPrivOSFlashErase (g : Globals) (iOffs : ℤ) : Priv (Except PrivError Unit) := do
  if ← askPriv (.memErase iOffs g.erasesize) then return .ok () else return .error .io

/-- `NvPrivOSFlashProtect`, which does not use the length. -/
def nvPrivOSFlashProtect (g : Globals) (iOffs : ℤ) (bProtect : Bool) :
    Priv (Except PrivError Unit) := do
  match ← askPriv (.memLock bProtect iOffs g.erasesize) with
  | none => return .ok ()
  | some errno => if enotsup ≠ errno then return .error .io else return .ok ()

/-- `struct nv_priv_flash_status`. -/
structure FlashStatus where
  /-- `iEraseSize`. -/
  iEraseSize : ℕ
  /-- `type`. -/
  type : ℕ
  /-- `bBad`. -/
  bBad : Bool
  deriving DecidableEq, Repr

/-- `NvPrivOSFlashInfo`. -/
def nvPrivOSFlashInfo (g : Globals) (iOffs : ℤ) : Priv (Except PrivError FlashStatus) := do
  let (iRes, errno) ← askPriv (.memGetBadBlock iOffs)
  if 0 < iRes then return .ok ⟨g.erasesize, g.type, true⟩
  else if iRes < 0 ∧ enotsup ≠ errno then return .error .io
  else return .ok ⟨g.erasesize, g.type, false⟩

/-- A function that works on the open partition. -/
inductive Call where
  /-- `NvPrivOSFlashRead`. -/
  | read (pvBuf : Object) (iOffs : ℤ)
  /-- `NvPrivOSFlashWrite`. -/
  | write (pvBuf : Object) (iOffs : ℤ)
  /-- `NvPrivOSFlashErase`. -/
  | erase (iOffs : ℤ)
  /-- `NvPrivOSFlashProtect`. -/
  | protect (iOffs : ℤ) (bProtect : Bool)
  /-- `NvPrivOSFlashInfo`. -/
  | info (iOffs : ℤ)

/-- What it returns, and for `NvPrivOSFlashRead` the buffer. -/
abbrev Reply : Call → Type
  | .read _ _ => Except NvError Unit × Bytes
  | .write _ _ => Except NvError Unit
  | .erase _ => Except PrivError Unit
  | .protect _ _ => Except PrivError Unit
  | .info _ => Except PrivError FlashStatus

/-- A call with its reply. -/
abbrev Answered := (c : Call) × Reply c

/-- The functions that read and write talk to the partition only. -/
abbrev onPartition {α : Type} (p : Nv α) : Priv α := embedOr PrivOp.io (fun _ r => r) nofun p

/-- One call. -/
def perform (fuel : ℕ) (g_markBadBlocks : Bool) (g : Globals) : Call → Priv Answered
  | .read pvBuf iOffs => do
    return ⟨.read pvBuf iOffs, ← onPartition (nvPrivOSFlashRead fuel g_markBadBlocks pvBuf iOffs)⟩
  | .write pvBuf iOffs => do
    return ⟨.write pvBuf iOffs, ← onPartition (nvPrivOSFlashWrite fuel g_markBadBlocks pvBuf iOffs)⟩
  | .erase iOffs => do return ⟨.erase iOffs, ← nvPrivOSFlashErase g iOffs⟩
  | .protect iOffs bProtect => do
    return ⟨.protect iOffs bProtect, ← nvPrivOSFlashProtect g iOffs bProtect⟩
  | .info iOffs => do return ⟨.info iOffs, ← nvPrivOSFlashInfo g iOffs⟩

/-- Cells of the block of an offset. -/
def SameBlock (erasesize : ℕ) (iOffs x : ℤ) : Prop := x / erasesize = iOffs / erasesize

instance (erasesize : ℕ) (iOffs x : ℤ) : Decidable (SameBlock erasesize iOffs x) :=
  inferInstanceAs (Decidable (_ = _))

section Medium

variable {σ : Type}

variable {h : Handler NvOp NvResp σ} {g_markBadBlocks : Bool} {erasesize : ℕ}
  {cells : σ → ℤ → UInt8} {pvBuf : Object} {iOffs : ℤ} {c : ℤ → UInt8}

end Medium

section Session

variable {σ : Type}

/-- What is known of the partition after a reply. -/
def after (g_markBadBlocks : Bool) (erasesize : ℕ) (known : Known UInt8) : Answered → Known UInt8
  | ⟨.read _ iOffs, (.ok (), data)⟩ => learn known iOffs data
  | ⟨.read _ iOffs, (.error _, _)⟩ =>
    forget known fun x => g_markBadBlocks = true ∧ SameBlock erasesize iOffs x
  | ⟨.write pvBuf iOffs, .ok ()⟩ => learn known iOffs pvBuf.1
  | ⟨.write pvBuf iOffs, .error _⟩ =>
    forget known fun x => Within iOffs pvBuf.1.length x ∨
      g_markBadBlocks = true ∧ SameBlock erasesize iOffs x
  | ⟨.erase iOffs, .ok ()⟩ => learn known iOffs (List.replicate erasesize 255)
  | ⟨.erase iOffs, .error _⟩ => forget known (Within iOffs erasesize)
  | ⟨.protect _ _, _⟩ => known
  | ⟨.info _, _⟩ => known

/-- What is read fits what is known. -/
def Truthful (known : Known UInt8) : Answered → Prop
  | ⟨.read pvBuf iOffs, (.ok (), data)⟩ => data.length = pvBuf.1.length ∧ Fits known iOffs data
  | _ => True

variable {h : Handler PrivOp PrivResp σ} {g_markBadBlocks : Bool} {erasesize : ℕ}
  {cells : σ → ℤ → UInt8} {known : Known UInt8}

/-- How opening can end. -/
def Opened (erasesize : ℕ) : Outcome PrivExit (Except PrivError Globals) → Prop
  | .ret (.ok g) => g.erasesize = erasesize
  | .ret (.error _) => True
  | .exit _ => True
  | .hang => False

end Session

section Example

end Example

end MetaDigi.NvramStore
