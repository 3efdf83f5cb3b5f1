import MetaDigi.CStrings
import MetaDigi.SystemProgram
import Mathlib.Algebra.Group.Nat.Defs

/-!
# The data of the flash update tool

The record of a partition, the options of the command line, the calls to the
system and the reasons to stop. A call names the partition whose handle it
uses, the file it opens, or the bytes it transfers; its answer is whatever the
system returns, failures included. Only what is printed is left out.
-/

namespace MetaDigi.FlashTypes

open CStrings SystemProgram

/-- A path name. -/
abbrev Path := Bytes

/-- `crc32_t`, an unsigned integer of 32 bits. -/
abbrev Crc := BitVec 32

/-- `PartType_e`: the kind of a partition, by its name in `/proc/mtd`. -/
inductive PartType where
  | ptUBoot | ptKernel | ptEnvironment | ptFPGA | ptBootstream | ptUnknown
  deriving DecidableEq, Repr

/-- `FileType_e`: the kind of an image, by its file name. -/
inductive FileType where
  | ftUBoot | ftKernel | ftFPGA | ftNVRAM | ftJFFS2 | ftSQUASHFS | ftUBI | ftBootstream | ftUnknown
  deriving DecidableEq, Repr

/-- The kind of flash memory that the driver reports in `mtd_info_t`. -/
inductive MtdType where
  | nandFlash | norFlash | other
  deriving DecidableEq, Repr

/-- The fields of `mtd_info_t` that the tool reads. The driver stores the
size of a partition in 32 bits. -/
structure MtdInfo where
  /-- The kind of memory. -/
  type : MtdType
  /-- Bytes of the whole partition. -/
  size : ℕ
  /-- Bytes of an erase block. -/
  erasesize : ℕ
  /-- Bytes of a page. -/
  writesize : ℕ
  /-- Bytes of the out-of-band area of a page. -/
  oobsize : ℕ
  /-- The field for the size is a 32 bit integer. -/
  size_lt : size < 2 ^ 32

/-- The fields of `nand_oobinfo` that the tool reads. -/
structure OobInfo where
  /-- The driver places the data itself (`MTD_NANDECC_AUTOPLACE`). -/
  autoplace : Bool
  /-- Offset of the first free region. -/
  freeOffset : ℕ
  /-- Length of the first free region. -/
  freeLength : ℕ

/-- `mtdPartition_t`: one image and the partition it is written to. -/
structure MtdPartition where
  /-- The file named on the command line. -/
  szOrigImageFileName : Path
  /-- The file that is flashed, the same or its copy. -/
  szImageFileName : Path
  /-- The number of the partition. -/
  uiPartition : ℕ
  /-- `uiCRC32` holds a checksum. -/
  cChecksumSet : Bool
  /-- Erase every good block of the partition. -/
  cEraseAll : Bool
  /-- The checksum given by the user or calculated from the file. -/
  uiCRC32 : Crc
  /-- The checksum has been calculated from the file. -/
  cChecksumCalculated : Bool
  /-- The device node of the partition, once it has been opened. -/
  acName : Path
  /-- The memory is NAND. -/
  cIsNAND : Bool
  /-- Write a clean marker into every erased block. -/
  cWriteCleanMarker : Bool
  /-- The image is a JFFS2 file system. -/
  cIsJFFS2 : Bool
  /-- Bytes of the good blocks; may become negative for an odd geometry. -/
  iSize : ℤ
  /-- Bytes of the image when it was named. -/
  iFileSize : ℕ
  /-- Bytes written at once. -/
  iPageSize : ℕ
  /-- What the driver says about the partition. -/
  xInfo : MtdInfo
  /-- Number of bad blocks at initialisation. -/
  uiBadBlocks : ℕ
  /-- The kind of the partition. -/
  ePartType : PartType
  /-- The kind of the image. -/
  eFileType : FileType
  /-- The kind of image that the partition asks for. -/
  eFileTypeNeeded : FileType
  /-- A handle of the partition is open (`iFd` is not -1). -/
  isOpen : Bool
  /-- Clean markers in an image for NAND have been reported. -/
  cAlreadyPrintedVerifyWarning : Bool
  /-- The mounts of the partition have been dealt with. -/
  cAlreadyRemounted : Bool
  /-- Position of the clean marker in the out-of-band area. -/
  uiClMPos : ℕ
  /-- Length of the clean marker in the out-of-band area. -/
  uiClMLen : ℕ
  /-- The clean marker node in memory. -/
  xCleanMarker : Bytes

/-- The command line options that have an effect besides printing. -/
structure Options where
  /-- `-C`: only calculate checksums. -/
  cChecksumOnly : Bool := false
  /-- `-R`: reboot at the end. -/
  cDoReboot : Bool := false
  /-- `-V`: compare the flash with the images, do not update. -/
  cVerifyOnly : Bool := false
  /-- `-v`: compare after flashing. -/
  cVerify : Bool := false
  /-- `-c`: every image comes with a checksum. -/
  cHasChecksum : Bool := false
  /-- `--dry-run`: do not erase or write. -/
  cDryRun : Bool := false
  /-- `-i`: do not look at the type of an image. -/
  cNoImageTypeCheck : Bool := false
  /-- `-f`: erase the whole partition. -/
  cEraseAll : Bool := false
  /-- `--clean-marker`: write clean markers to every partition. -/
  cWriteCleanMarker : Bool := false
  /-- `-b`: mark a block bad after repeated errors. -/
  cMarkBadBlocks : Bool := false
  /-- `-t`: directory for copies of the images. -/
  szTmpDir : Option Path := none
  /-- `-k`: key for a boot stream. -/
  szKey : Option Bytes := none

/-- `cMaxRetries`: attempts to write a page and verify it. -/
def cMaxRetries : ℕ := 3

/-- `FLASH_ERASED_BYTE`: the contents of an erased cell. -/
def flashErasedByte : UInt8 := 0xff

/-- `sizeof(struct jffs2_unknown_node)`. -/
def nodeSize : ℕ := 12

/-- At most the requested number of bytes, as `read` and its kin return. -/
abbrev Chunk (n : ℕ) := {bs : Bytes // bs.length ≤ n}

/-- Memory of a given size, with whatever it happens to hold. -/
abbrev Cells (n : ℕ) := {bs : Bytes // bs.length = n}

/-- So many zeros fill so many cells. -/
theorem length_zeros (n : ℕ) : (List.replicate n (0 : UInt8)).length = n := List.length_replicate

/-- The answer to `MEMGETBADBLOCK`: zero, positive, or an error number. -/
inductive BadBlockReply where
  | good | bad | notSupported | failed
  deriving DecidableEq, Repr

/-- The answer to a remount: zero, `EBUSY` or another error. -/
inductive MountReply where
  | ok | busy | failed
  deriving DecidableEq, Repr

/-- The answer to `unlink`: zero, `ENOENT` or another error. -/
inductive UnlinkReply where
  | ok | noEntry | failed
  deriving DecidableEq, Repr

/-- One line of the mount table. -/
structure MntEnt where
  /-- The mounted device. -/
  mnt_fsname : Bytes
  /-- The directory it is mounted on. -/
  mnt_dir : Path
  deriving DecidableEq, Repr

/-- A command line for the shell, with the name of an image in it. -/
structure CommandLine where
  /-- What stands in front of the name, up to a blank. -/
  front : Bytes
  /-- The name. -/
  image : Path
  /-- What stands behind the name, from a blank on. -/
  rest : Bytes
  deriving DecidableEq

/-- The characters of a command line. -/
def CommandLine.line (cmd : CommandLine) : Bytes := cmd.front ++ cmd.image ++ cmd.rest

/-- The beginning of a command line. -/
def CommandLine.cut (n : ℕ) (cmd : CommandLine) : CommandLine where
  front := cmd.front.take n
  image := cmd.image.take (n - cmd.front.length)
  rest := cmd.rest.take (n - (cmd.front.length + cmd.image.length))

/-- The characters of the beginning are the first ones. -/
theorem CommandLine.line_cut (n : ℕ) (cmd : CommandLine) : (cmd.cut n).line = cmd.line.take n := by
  simp [line, cut, List.take_append, Nat.sub_sub]

/-- A character that the shell does not take for itself: a blank, a tab or the
end of a line, one of `|&;<>()$`, of the quotes and the backslash, or of those
that stand for other characters in a name. -/
def shellSpecial (c : UInt8) : Bool :=
  c ∈ ([32, 9, 10, 124, 38, 59, 60, 62, 40, 41, 36, 96, 34, 39, 92, 42, 63, 91] : Bytes)

/-- A word that the shell takes as it is: it is no comment and does not begin
with a home directory. -/
def plainWord (w : Bytes) : Bool :=
  w ≠ [] && w.head? ≠ some 35 && w.head? ≠ some 126 && w.all (fun c => !shellSpecial c)

/-- The shell takes the words of a command line up to the name of the image as
they are, and the name as one of them. -/
def CommandLine.plain (cmd : CommandLine) : Bool :=
  (cmd.front.splitOn 32).all (fun w => w = [] || plainWord w) && plainWord cmd.image

/-- The name is an operand too: an option would begin with a dash. -/
def CommandLine.operand (cmd : CommandLine) : Bool := cmd.plain && cmd.image.head? ≠ some 45

/-- Calls that leave the process. -/
inductive Op where
  /-- `malloc`, answered by the memory. -/
  | malloc (size : ℕ)
  /-- No call: the memory that a local array starts with. -/
  | localArray (size : ℕ)
  /-- `stat` on an image, answered by its size. -/
  | statFile (path : Path)
  /-- `stat` on a device node, answered by its existence. -/
  | statNode (path : Path)
  /-- `open` on a file to be read. -/
  | openSrc (path : Path)
  /-- `read` from that file. -/
  | readSrc (size : ℕ)
  /-- `close` of that file. -/
  | closeSrc
  /-- `open` on the copy of an image, created if it is missing, not emptied. -/
  | openDst (path : Path)
  /-- `write` to the copy. -/
  | writeDst (data : Bytes)
  /-- `close` of the copy. -/
  | closeDst
  /-- `statfs`, answered by the type of the file system. -/
  | statfs (path : Path)
  /-- `unlink`. -/
  | unlink (path : Path)
  /-- `open` on the device node of a partition. -/
  | openMtd (part : ℕ) (readOnly : Bool)
  /-- `close` of the partition. -/
  | closeMtd (part : ℕ)
  /-- `lseek` to the start of the partition. -/
  | lseekMtd (part : ℕ)
  /-- `ioctl(MEMGETINFO)`. -/
  | memGetInfo (part : ℕ)
  /-- `ioctl(MEMGETBADBLOCK)`. -/
  | memGetBadBlock (part : ℕ) (offset : ℕ)
  /-- `ioctl(MEMGETOOBSEL)`. -/
  | memGetOobSel (part : ℕ)
  /-- `ioctl(MEMERASE)`. -/
  | memErase (part : ℕ) (start length : ℕ)
  /-- `ioctl(MEMWRITEOOB)`. -/
  | memWriteOob (part : ℕ) (start : ℕ) (data : Bytes)
  /-- `ioctl(MEMSETBADBLOCK)`. -/
  | memSetBadBlock (part : ℕ) (offset : ℕ)
  /-- `pwrite` to the partition, answered by the return value. -/
  | pwrite (part : ℕ) (data : Bytes) (offset : ℕ)
  /-- `pread` from the partition. -/
  | pread (part : ℕ) (size offset : ℕ)
  /-- `system` with a `kobs-ng` command line for a partition. -/
  | kobsNg (cmd : CommandLine) (part : ℕ)
  /-- `popen` and `pclose` of a `ubiformat` command line for a partition,
  answered by the wait status, or nothing without a stream. -/
  | ubiformat (cmd : CommandLine) (part : ℕ)
  /-- `fopen` of a file below `/proc`. -/
  | fopenProc (path : Path)
  /-- `fgets` from that file. -/
  | fgetsProc (size : ℕ)
  /-- `fclose` of that file. -/
  | fcloseProc
  /-- `open` of a file below `/proc`. -/
  | openProc (path : Path)
  /-- `read` from that file. -/
  | readProc (size : ℕ)
  /-- `close` of that file. -/
  | closeProc
  /-- `setmntent` on the mount table. -/
  | setmntent
  /-- `getmntent`: the next line of the table. -/
  | getmntent
  /-- `endmntent`. -/
  | endmntent
  /-- `umount`. -/
  | umount (dir : Path)
  /-- `mount` with `MS_REMOUNT | MS_RDONLY`. -/
  | remountReadOnly (fsname : Bytes) (dir : Path)
  /-- `is_nand_oob_atomic`, which asks the platform. -/
  | isNandOobAtomic
  /-- No call: `MemDump` prints a piece of a buffer. -/
  | memDump (buffer : Bytes) (iOffset iLen : ℕ)
  /-- No call: the point at which `MtdPartVerify` returns, with its result. -/
  | verifyReturned (part : ℕ) (res : Bool)
  /-- `sync` and `reboot`. -/
  | reboot
  deriving DecidableEq

/-- What a call is answered with. -/
abbrev Resp : Op → Type
  | .malloc size => Option (Cells size)
  | .localArray size => Cells size
  | .statFile _ => Option ℕ
  | .statNode _ => Bool
  | .openSrc _ => Bool
  | .readSrc size => Option (Chunk size)
  | .closeSrc => Bool
  | .openDst _ => Bool
  | .writeDst _ => ℤ
  | .closeDst => Bool
  | .statfs _ => Option ℕ
  | .unlink _ => UnlinkReply
  | .openMtd _ _ => Bool
  | .closeMtd _ => Bool
  | .lseekMtd _ => Bool
  | .memGetInfo _ => Option MtdInfo
  | .memGetBadBlock _ _ => BadBlockReply
  | .memGetOobSel _ => Option OobInfo
  | .memErase _ _ _ => Bool
  | .memWriteOob _ _ _ => Bool
  | .memSetBadBlock _ _ => Bool
  | .pwrite _ _ _ => ℤ
  | .pread _ size _ => Option (Chunk size)
  | .kobsNg _ _ => ℤ
  | .ubiformat _ _ => Option ℤ
  | .fopenProc _ => Bool
  | .fgetsProc size => Option (Chunk (size - 1))
  | .fcloseProc => Bool
  | .openProc _ => Bool
  | .readProc size => Option (Chunk size)
  | .closeProc => Bool
  | .setmntent => Bool
  | .getmntent => Option MntEnt
  | .endmntent => Unit
  | .umount _ => Bool
  | .remountReadOnly _ _ => MountReply
  | .isNandOobAtomic => Bool
  | .memDump _ _ _ => Unit
  | .verifyReturned _ _ => Unit
  | .reboot => Unit

/-- What a call can do to the world outside, as far as it matters. -/
inductive CallKind where
  /-- None of the others. -/
  | harmless
  /-- It reads an image. -/
  | reads
  /-- It can change a file: the copies are written and deleted. -/
  | files
  /-- It asks the driver to change the contents of flash: erasing, writing
  pages or out-of-band data, and marking blocks. -/
  | flash
  /-- It runs an external flasher. -/
  | external
  /-- It tells the result of a comparison. -/
  | verdict
  /-- It reboots. -/
  | reboot
  deriving DecidableEq, Repr

/-- The kind of a call. -/
def callKind : Op → CallKind
  | .statFile _ => .reads
  | .openSrc _ => .reads
  | .readSrc _ => .reads
  | .closeSrc => .reads
  | .memErase _ _ _ => .flash
  | .memWriteOob _ _ _ => .flash
  | .memSetBadBlock _ _ => .flash
  | .pwrite _ _ _ => .flash
  | .kobsNg _ _ => .external
  | .ubiformat _ _ => .external
  | .openDst _ => .files
  | .writeDst _ => .files
  | .unlink _ => .files
  | .verifyReturned _ _ => .verdict
  | .reboot => .reboot
  | _ => .harmless

/-- The calls that can change the contents of flash. -/
def changesFlash (o : Op) : Bool := callKind o = .flash ∨ callKind o = .external

/-- The functions that reading a file, reading flash and calling the system
can end in; a reason to stop that several of them share names the one. -/
inductive Func where
  | main | doPrintChecksums | doMtdUpdate | mtdPartInit | mtdPartOpen | mtdPartClose
  | mtdPartIsBadBlock | mtdPartUseFile | mtdPartErase | mtdPartWrite | mtdPartVerify
  | mtdPartCheckCRC32 | mtdPartCopyFile | mtdPartInitCleanMarker | mtdPartRemountAllReadOnly
  | mtdPartDeterminePartType | mtdPartVerifyFile | verifyTmpDir | calcCRC32OfFile | getRootDevice
  deriving DecidableEq, Repr

/-- Why the tool stops: the calls of `error` and of `exit`, with the values
they report, and `systemError` with the call that failed. -/
inductive ExitReason where
  /-- "Too many partitions to update on command line" -/
  | tooManyPartitions
  /-- "Require filename and partition and checksum" -/
  | requireFilename (andPartition andChecksum : Bool)
  /-- "Wrong partition number" -/
  | wrongPartitionNumber
  /-- "Have only %u mtd partitions" -/
  | haveOnlyPartitions (count : ℕ)
  /-- "Invalid Checksum: %s" -/
  | invalidChecksum (szCRC32 : Bytes)
  /-- "No MTD devices available" -/
  | noMtdDevices
  /-- "No MTD partitions found" -/
  | noMtdPartitions
  /-- "Partition %u already open" -/
  | partitionAlreadyOpen (part : ℕ)
  /-- "File %s is %lu KiB, but partition %u has only %lu KiB good free" -/
  | fileTooBig (file : Path) (fileSize part : ℕ) (goodSize : ℤ)
  /-- "File %s (Type %s) doesn't match partition type %s" -/
  | fileTypeMismatch (file : Path) (fileType : FileType) (partType : PartType)
  /-- "Wrong /proc/mtd line: %s" -/
  | wrongProcMtdLine (line : Bytes)
  /-- "Wrong partition: %s" -/
  | wrongPartition (line : Bytes)
  /-- "Autoplacement selected and no empty space in oob" -/
  | noEmptyOob
  /-- "unsupported oobsize %i" -/
  | unsupportedOobsize (oobsize : ℕ)
  /-- "Filesize changed while updating: %s" -/
  | filesizeChanged (inside : Func) (file : Path)
  /-- "CRC32 mismatch on %s.\n    Expected 0x%08x, have 0x%08x" -/
  | crcMismatch (inside : Func) (file : Path) (expected have_ : Crc)
  /-- "No JFFS2 Header at erase block begin" -/
  | noJffs2Header
  /-- "No CleanMarkers present in image for NOR" -/
  | noCleanMarkers
  /-- "Clean Markers present in the block at offset 0x%08x" -/
  | cleanMarkerAtOffset (offset : ℕ)
  /-- "Makes no sense to store flash image temporarily on JFFS2" -/
  | tmpOnJffs2
  /-- "Makes no sense to store flash image temporarily on NFS" -/
  | tmpOnNfs
  /-- "Partition in use, can't update it" -/
  | partitionInUse
  /-- `exit(EXIT_FAILURE)` after `kobs-ng` failed. -/
  | kobsNgFailed
  /-- `exit(EXIT_FAILURE)` after `ubiformat` failed. -/
  | ubiformatFailed
  /-- `exit(EXIT_FAILURE)` after the verification failed. -/
  | verifyFailed
  /-- `systemError`: the call that failed. -/
  | systemError (inside : Func) (failed : Op)
  /-- The command line of `kobs-ng` does not fit its array. -/
  | overflow (cmd : Bytes)
  /-- `popen` gave no stream to read from. -/
  | nullStream
  deriving DecidableEq

/-- A part of the tool. -/
abbrev Flash := Prog Op Resp ExitReason

/-- Issue a call. -/
abbrev sys (o : Op) : Flash (Resp o) := Prog.perform o

/-- Leave the tool. -/
abbrev fail {α : Type} (e : ExitReason) : Flash α := Prog.exit e

/-- Issue a call from inside a function and leave with `systemError` when it
fails; `answer` tells what a successful answer brings. -/
def sysOrFail {α : Type} (inside : Func) (o : Op) (answer : Resp o → Option α) : Flash α := do
  let r ← sys o
  match answer r with
  | some a => return a
  | none => fail (.systemError inside o)

/-- The success of a call that brings nothing else. -/
def succeeded (r : Bool) : Option Unit := if r then some () else none

/-- A call has succeeded when its answer is true. -/
theorem succeeded_iff {r : Bool} {u : Unit} : succeeded r = some u ↔ r = true := by
  simp [succeeded]

end MetaDigi.FlashTypes
