import MetaDigi.FlashInit

/-!
# The system around the flash update tool

The tool runs on a state of files, flash cells and mounts. What the state
leaves open is chosen by the environment: which calls fail, what a call that
writes or erases does to the cells, what other processes do to the files, and
what uninitialised memory holds. Reading is faithful: a call that does not
fail answers what the file or the flash holds at that moment.
-/

namespace MetaDigi.FlashWorld

open CStrings SystemProgram FlashTypes FlashInit

/-- The files by their names. -/
abbrev Files := Path → Option Bytes

/-- The cells of all partitions. -/
abbrev FlashMem := ℕ → ℕ → UInt8

/-- What is done to a partition, with the contents of the image in place of
its name when another program does it. -/
inductive Effect where
  /-- A range is erased. -/
  | erase (part start length : ℕ)
  /-- Bytes are written. -/
  | write (part offset : ℕ) (data : Bytes)
  /-- Bytes are written to the out-of-band area. -/
  | writeOob (part start : ℕ) (data : Bytes)
  /-- A block is marked bad. -/
  | markBad (part offset : ℕ)
  /-- An external program is given an image, with what its command line holds
  in front of the name of the image and behind it. -/
  | flasher (part : ℕ) (front rest : Bytes) (image : Option Bytes)
  /-- The shell is given a command line that it does not take as it is. What
  comes of it is not known. -/
  | shell (line : Bytes)
  deriving DecidableEq, Repr

/-- What does not depend on the tool. A choice made anew for each call is
given the number of the call. -/
structure Env where
  /-- What the driver says about a partition. -/
  info : ℕ → MtdInfo
  /-- Whether an erase block of a NAND partition is bad. -/
  bad : ℕ → ℕ → Bool
  /-- The layout of the out-of-band area. -/
  oob : ℕ → OobInfo
  /-- The platform needs atomic access to the out-of-band area. -/
  oobAtomic : Bool
  /-- Whether a device node exists. -/
  nodeExists : Path → Bool
  /-- The contents of `/proc/mtd`. -/
  procMtd : Bytes
  /-- The contents of `/proc/cmdline`. -/
  cmdLine : Bytes
  /-- The mount table. -/
  mounts : List MntEnt
  /-- The type of the file system below a path. -/
  fsType : Path → ℕ
  /-- Whether a call fails. -/
  fails : ℕ → Op → Bool
  /-- The file that a name leads to over links, by one of its names. -/
  link : Path → Path
  /-- What other processes do to the files before a call. -/
  interfere : ℕ → Files → Files
  /-- What becomes of the cells when something is done to the flash. -/
  alter : ℕ → Effect → FlashMem → FlashMem
  /-- What fresh memory holds. -/
  memory : ℕ → (n : ℕ) → Cells n

/-- The state of the system. -/
structure World where
  /-- The number of calls so far. -/
  time : ℕ := 0
  /-- The flash. -/
  mem : FlashMem
  /-- The files. -/
  files : Files
  /-- The file being read, and how far. -/
  src : Option (Path × ℕ) := none
  /-- The bytes read since that file was opened. -/
  lastRead : Bytes := []
  /-- The copy being written, and how far. -/
  dst : Option (Path × ℕ) := none
  /-- The rest of the open file below `/proc`. -/
  proc : Bytes := []
  /-- The rest of the open mount table. -/
  mounts : List MntEnt := []
  /-- The calls to unmount and remount, with their success. -/
  released : List (Op × Bool) := []
  /-- What has been done to the flash. -/
  log : List Effect := []

namespace Env

variable (env : Env)

/-- Whether the erase block at an offset is bad; only NAND has bad blocks. -/
def badAt (part offset : ℕ) : Bool :=
  (env.info part).type = .nandFlash ∧ env.bad part (offset / (env.info part).erasesize)

/-- The answer to `MEMGETBADBLOCK`. -/
def badBlockReply (part offset : ℕ) : BadBlockReply :=
  if (env.info part).type ≠ .nandFlash then .notSupported
  else if (env.info part).size ≤ offset then .failed
  else if env.badAt part offset then .bad else .good

end Env

/-- The cells of a range, as far as the partition goes. -/
def readMem (mem : FlashMem) (size part offset n : ℕ) : Bytes :=
  (List.range (min n (size - offset))).map (fun i => mem part (offset + i))

theorem length_readMem_le (mem : FlashMem) (size part offset n : ℕ) :
    (readMem mem size part offset n).length ≤ n := by
  rw [readMem, List.length_map, List.length_range]
  exact Nat.min_le_left ..

/-- The cells after a range has been erased. -/
def eraseMem (mem : FlashMem) (part start length : ℕ) : FlashMem := fun q a =>
  if q = part ∧ start ≤ a ∧ a < start + length then flashErasedByte else mem q a

/-- The cells after bytes have been written, where `program` tells what an old
cell makes of a new byte. -/
def writeMem (program : UInt8 → UInt8 → UInt8) (mem : FlashMem) (part offset : ℕ)
    (data : Bytes) : FlashMem := fun q a =>
  if q = part ∧ offset ≤ a ∧ a < offset + data.length then
    program (mem q a) (data.getD (a - offset) 0)
  else mem q a

/-- A file after bytes have been written at a position. -/
def overlay (content : Bytes) (pos : ℕ) (data : Bytes) : Bytes :=
  content.take pos ++ data ++ content.drop (pos + data.length)

/-- The files after one of them has been given other contents, under all of its
names. -/
def setLinked (link : Path → Path) (files : Files) (path : Path) (content : Option Bytes) : Files :=
  fun q => if link q = link path then content else files q

/-- The files after one name has been given other contents. -/
def setFile (files : Files) (path : Path) (content : Option Bytes) : Files :=
  fun q => if q = path then content else files q

/-- What `fgets` takes from a text. -/
def firstLine (size : ℕ) (s : Bytes) : Bytes :=
  (s.takeWhile (· ≠ 10) ++ (s.dropWhile (· ≠ 10)).take 1).take (size - 1)

/-- What running an external program on a partition does: the program is given
what the file of that name holds when the shell takes the command line as it is. -/
def flashing (files : Files) (plain : Bool) (cmd : CommandLine) (part : ℕ) : Effect :=
  if plain then .flasher part cmd.front cmd.rest (files cmd.image) else .shell cmd.line

namespace World

variable (env : Env) (w : World)

/-- The state in which a call is answered: the call has been counted, and the
other processes have had their turn. -/
def enter : World := { w with time := w.time + 1, files := env.interfere w.time w.files }

/-- The state after something has been done to the flash: the cells have
changed in some way, and it is recorded. -/
def touch (effect : Effect) : World :=
  { w with mem := env.alter w.time effect w.mem, log := w.log ++ [effect] }

end World

/-- The system answers a call that is known to fail or not. -/
def respond (env : Env) (failed : Bool) : (o : Op) → World → Resp o × World
  | .malloc size, w => (if failed then none else some (env.memory w.time size), w)
  | .localArray size, w => (env.memory w.time size, w)
  | .statFile path, w => (if failed then none else (w.files path).map List.length, w)
  | .statNode path, w => (env.nodeExists path, w)
  | .openSrc path, w =>
    if failed ∨ w.files path = none then (false, w)
    else (true, { w with src := some (path, 0), lastRead := [] })
  | .readSrc size, w =>
    match failed, w.src with
    | false, some (path, pos) =>
      let bytes := (((w.files path).getD []).drop pos).take size
      (some ⟨bytes, List.length_take_le ..⟩,
        { w with src := some (path, pos + bytes.length), lastRead := w.lastRead ++ bytes })
    | _, _ => (none, w)
  | .closeSrc, w => (!failed, { w with src := none })
  | .openDst path, w =>
    if failed then (false, w)
    else (true, { w with
      files := setLinked env.link w.files path (some ((w.files path).getD []))
      dst := some (path, 0) })
  | .writeDst data, w =>
    match failed, w.dst with
    | false, some (path, pos) =>
      (data.length, { w with
        files := setLinked env.link w.files path
          (some (overlay ((w.files path).getD []) pos data))
        dst := some (path, pos + data.length) })
    | _, _ => (-1, w)
  | .closeDst, w => (!failed, { w with dst := none })
  | .statfs path, w => (if failed then none else some (env.fsType path), w)
  | .unlink path, w =>
    -- Other names of the file keep what it holds; nothing is read any more.
    if failed then (.failed, w)
    else if w.files path = none then (.noEntry, w)
    else (.ok, { w with files := setFile w.files path none })
  | .openMtd _ _, w => (!failed, w)
  | .closeMtd _, w => (!failed, w)
  | .lseekMtd _, w => (!failed, w)
  | .memGetInfo part, w => (if failed then none else some (env.info part), w)
  | .memGetBadBlock part offset, w =>
    (if failed then .failed else env.badBlockReply part offset, w)
  | .memGetOobSel part, w => (if failed then none else some (env.oob part), w)
  | .memErase part start length, w => (!failed, w.touch env (.erase part start length))
  | .memWriteOob part start data, w => (!failed, w.touch env (.writeOob part start data))
  | .memSetBadBlock part offset, w => (!failed, w.touch env (.markBad part offset))
  | .pwrite part data offset, w =>
    (if failed then -1 else data.length, w.touch env (.write part offset data))
  | .pread part size offset, w =>
    (if failed then none
      else some ⟨readMem w.mem (env.info part).size part offset size, length_readMem_le ..⟩, w)
  | .kobsNg cmd part, w =>
    (if failed then 1 else 0, w.touch env (flashing w.files cmd.operand cmd part))
  | .ubiformat cmd part, w =>
    (some (if failed then 256 else 0), w.touch env (flashing w.files cmd.plain cmd part))
  | .fopenProc _, w => (!failed, { w with proc := env.procMtd })
  | .fgetsProc size, w =>
    if failed ∨ w.proc = [] then (none, w)
    else (some ⟨firstLine size w.proc, List.length_take_le ..⟩,
      { w with proc := w.proc.drop (firstLine size w.proc).length })
  | .fcloseProc, w => (!failed, w)
  | .openProc _, w => (!failed, { w with proc := env.cmdLine })
  | .readProc size, w =>
    (if failed then none else some ⟨w.proc.take size, List.length_take_le ..⟩,
      { w with proc := w.proc.drop size })
  | .closeProc, w => (!failed, w)
  | .setmntent, w => (!failed, { w with mounts := env.mounts })
  | .getmntent, w => (w.mounts.head?, { w with mounts := w.mounts.tail })
  | .endmntent, w => ((), w)
  | .umount dir, w => (!failed, { w with released := w.released ++ [(.umount dir, !failed)] })
  | .remountReadOnly fsname dir, w =>
    (if failed then .failed else .ok,
      { w with released := w.released ++ [(.remountReadOnly fsname dir, !failed)] })
  | .isNandOobAtomic, w => (env.oobAtomic, w)
  | .memDump _ _ _, w => ((), w)
  | .verifyReturned _ _, w => ((), w)
  | .reboot, w => ((), w)

/-- The system as a handler of calls. -/
def system (env : Env) : Handler Op Resp World := fun o w =>
  respond env (env.fails w.time o) o (w.enter env)

/-- A NAND partition of four blocks with four pages of four bytes each. -/
def smallInfo : MtdInfo where
  type := .nandFlash
  size := 64
  erasesize := 16
  writesize := 4
  oobsize := 64
  size_lt := by decide

/-- A driver that writes and erases as it is told, in cells that can only be
cleared one by one. -/
def obey (_ : ℕ) (effect : Effect) (mem : FlashMem) : FlashMem :=
  match effect with
  | .erase part start length => eraseMem mem part start length
  | .write part offset data => writeMem (fun old new => old &&& new) mem part offset data
  | _ => mem

/-- A system with three small partitions, for a kernel, a root file system and
a boot stream, whose second block is bad. Every call succeeds. -/
def smallEnv : Env where
  info _ := smallInfo
  bad _ block := block = 1
  oob _ := { autoplace := false, freeOffset := 0, freeLength := 0 }
  oobAtomic := false
  nodeExists path := path ∈
    [text "/dev/mtd/", text "/dev/mtd/0", text "/dev/mtd/1", text "/dev/mtd/2"]
  procMtd := text ("dev:    size   erasesize  name\nmtd0: 00000040 00000010 \"Kernel\"\n" ++
    "mtd1: 00000040 00000010 \"RootFS\"\nmtd2: 00000040 00000010 \"Bstrm-U-Boot\"\n")
  cmdLine := text "console=ttyS0 root=/dev/mtdblock/1 rw\n"
  mounts := []
  fsType _ := 0
  fails _ _ := false
  link path := path
  interfere _ files := files
  alter := obey
  memory _ n := ⟨List.replicate n 0, List.length_replicate ..⟩

/-- A state with these files and with flash that has never been erased. -/
def smallWorld (files : List (Path × Bytes)) : World where
  mem _ _ := 0
  files path := (files.find? (fun entry => entry.1 = path)).map Prod.snd

/-- The record of the kernel partition of the small system with an image, as
`MtdPartInit` leaves it. -/
def smallKernel (iFileSize : ℕ) : MtdPartition :=
  { cleared with
    szImageFileName := text "uImage-x"
    szOrigImageFileName := text "uImage-x"
    acName := text "/dev/mtd/0"
    cIsNAND := true
    iSize := 48
    iFileSize := iFileSize
    iPageSize := 4
    xInfo := smallInfo
    uiBadBlocks := 1
    ePartType := .ptKernel
    eFileType := .ftKernel
    eFileTypeNeeded := .ftKernel
    uiClMLen := 8 }

/-- The record of the partition for the root file system. -/
def smallRoot (iFileSize : ℕ) : MtdPartition :=
  { smallKernel iFileSize with
    szImageFileName := text "rootfs.squashfs"
    szOrigImageFileName := text "rootfs.squashfs"
    uiPartition := 1
    acName := text "/dev/mtd/1"
    ePartType := .ptUnknown
    eFileType := .ftSQUASHFS
    eFileTypeNeeded := .ftUnknown }

end MetaDigi.FlashWorld
