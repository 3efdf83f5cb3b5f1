import MetaDigi.FlashTypes
import MetaDigi.TextScan
import MetaDigi.Crc32

/-!
# Opening partitions and naming images

What the flash update tool does with each pair of the command line before it
looks into any image: find the device nodes, open the partition, count its bad
blocks, find its kind in `/proc/mtd`, prepare the clean marker, and hold the
size and the name of the image against the partition.
-/

namespace MetaDigi.FlashInit

open CStrings TextScan SystemProgram FlashTypes Crc32

/-- The variables of the file that keep their value once the partitions have
been counted: the options, the names of the device nodes and their number,
and the passes allowed to a loop. -/
structure Globals extends Options where
  /-- What a character device node is called in front of its number. -/
  szMtdPrefix : Bytes := text "/dev/mtd/"
  /-- What a block device node is called in front of its number. -/
  szMtdBlockPrefix : Bytes := text "/dev/mtdblock/"
  /-- How many partitions there are. -/
  uiMtdPartsCount : ℕ := 0
  /-- The passes allowed to a loop. -/
  fuel : ℕ

/-- The size of `axMtdParts`. -/
def maxMtdParts : ℕ := 64

/-- `%u`. -/
def decimal (n : ℕ) : Bytes := text (toString n)

/-- An information record before it has been read. -/
def clearedInfo : MtdInfo where
  type := .other
  size := 0
  erasesize := 0
  writesize := 0
  oobsize := 0
  size_lt := by decide

/-- A record of `axMtdParts` after `CLEAR`, with no handle open. -/
def cleared : MtdPartition where
  szOrigImageFileName := []
  szImageFileName := []
  uiPartition := 0
  cChecksumSet := false
  cEraseAll := false
  uiCRC32 := 0
  cChecksumCalculated := false
  acName := []
  cIsNAND := false
  cWriteCleanMarker := false
  cIsJFFS2 := false
  iSize := 0
  iFileSize := 0
  iPageSize := 0
  xInfo := clearedInfo
  uiBadBlocks := 0
  ePartType := .ptUBoot
  eFileType := .ftUBoot
  eFileTypeNeeded := .ftUBoot
  isOpen := false
  cAlreadyPrintedVerifyWarning := false
  cAlreadyRemounted := false
  uiClMPos := 0
  uiClMLen := 0
  xCleanMarker := List.replicate nodeSize 0

/-- The second loop of `MtdInit`: count the nodes that exist. -/
def countMtdParts (szMtdPrefix : Bytes) : ℕ → ℕ → Flash ℕ
  | 0, uiMtdPartsCount => return uiMtdPartsCount
  | left + 1, uiMtdPartsCount => do
    if ← sys (.statNode (szMtdPrefix ++ decimal uiMtdPartsCount)) then
      countMtdParts szMtdPrefix left (uiMtdPartsCount + 1)
    else return uiMtdPartsCount

/-- `MtdInit`: find out what the nodes are called and how many there are. -/
def mtdInit (opts : Options) (fuel : ℕ) : Flash Globals := do
  let g : Globals := { opts with fuel := fuel }
  let g ← (do
    if ← sys (.statNode g.szMtdPrefix) then return g
    else if ← sys (.statNode (text "/dev/mtd0")) then
      return { g with szMtdPrefix := text "/dev/mtd", szMtdBlockPrefix := text "/dev/mtdblock" }
    else fail .noMtdDevices)
  let uiMtdPartsCount ← countMtdParts g.szMtdPrefix maxMtdParts 0
  if uiMtdPartsCount = 0 then fail .noMtdPartitions
  else return { g with uiMtdPartsCount }

/-- `MtdPartOpen`. A dry run opens read-only as well. -/
def mtdPartOpen (g : Globals) (pMtd : MtdPartition) (cReadOnly : Bool) : Flash MtdPartition := do
  if pMtd.isOpen then fail (.partitionAlreadyOpen pMtd.uiPartition)
  else
    let cReallyReadOnly := cReadOnly || g.cVerifyOnly
    let pMtd := { pMtd with acName := g.szMtdPrefix ++ decimal pMtd.uiPartition }
    sysOrFail .mtdPartOpen (.openMtd pMtd.uiPartition (cReallyReadOnly || g.cDryRun)) succeeded
    return { pMtd with isOpen := true }

/-- `MtdPartClose`. -/
def mtdPartClose (pMtd : MtdPartition) : Flash MtdPartition := do
  sysOrFail .mtdPartClose (.closeMtd pMtd.uiPartition) succeeded
  return { pMtd with isOpen := false }

/-- What `MtdPartIsBadBlock` makes of an answer: a driver that knows no bad
blocks has none. -/
def isBadBlockReply : BadBlockReply → Option Bool
  | .good => some false
  | .bad => some true
  | .notSupported => some false
  | .failed => none

/-- `MtdPartIsBadBlock`: whether the block at an offset mustn't be used. -/
def mtdPartIsBadBlock (pMtd : MtdPartition) (iOffset : ℕ) : Flash Bool :=
  sysOrFail .mtdPartIsBadBlock (.memGetBadBlock pMtd.uiPartition iOffset) isBadBlockReply

/-- `MtdMarkBadBlock`. -/
def mtdMarkBadBlock (pMtd : MtdPartition) (iOffset : ℕ) : Flash Bool :=
  sys (.memSetBadBlock pMtd.uiPartition iOffset)

/-- One pass of the loop of `MtdPartInit` that counts the bad blocks, at an
offset and with the count so far. -/
def countBadBlocksPass (pMtd : MtdPartition) : ℕ × ℕ → Flash ((ℕ × ℕ) ⊕ ℕ)
  | (iOffset, uiBadBlocks) => do
    if iOffset < pMtd.xInfo.size then
      let bad ← mtdPartIsBadBlock pMtd iOffset
      return .inl (iOffset + pMtd.xInfo.erasesize, if bad then uiBadBlocks + 1 else uiBadBlocks)
    else return .inr uiBadBlocks

/-- The number of bad blocks, which only NAND has. -/
def countBadBlocks (g : Globals) (pMtd : MtdPartition) : Flash ℕ :=
  if pMtd.cIsNAND then Prog.loop (countBadBlocksPass pMtd) g.fuel (0, 0) else return 0

/-- An integer of 16 bits in memory, in the byte order of the processor. -/
def je16 (n : BitVec 16) : Bytes := [⟨n.setWidth 8⟩, ⟨(n >>> 8).setWidth 8⟩]

/-- An integer of 32 bits in memory, in the byte order of the processor. -/
def je32 (n : BitVec 32) : Bytes := je16 (n.setWidth 16) ++ je16 ((n >>> 16).setWidth 16)

/-- `JFFS2_MAGIC_BITMASK`. -/
def jffs2MagicBitmask : BitVec 16 := 0x1985

/-- `JFFS2_NODETYPE_CLEANMARKER`. -/
def jffs2NodetypeCleanmarker : BitVec 16 := 0x2003

/-- `JFFS2_NODETYPE_PADDING`. -/
def jffs2NodetypePadding : BitVec 16 := 0x2004

/-- `MtdPartInitJFFS2Node`: the bytes of a node header. -/
def mtdPartInitJFFS2Node (uhNodeType : BitVec 16) (iLen : ℕ) : Bytes :=
  let uiStart : Crc := 0xffffffff
  let node := je16 jffs2MagicBitmask ++ je16 uhNodeType ++ je32 (BitVec.ofNat 32 iLen)
  node ++ je32 (crc32 uiStart node ^^^ uiStart)

/-- `MtdPartInitCleanMarker`: where the clean marker goes in the out-of-band
area, how long it is there, and what it looks like in memory. -/
def mtdPartInitCleanMarker (pMtd : MtdPartition) : Flash MtdPartition := do
  let pMtd := { pMtd with uiClMPos := 0, uiClMLen := 8 }
  if pMtd.cIsNAND then
    let xoobInfo ← sysOrFail .mtdPartInitCleanMarker (.memGetOobSel pMtd.uiPartition) id
    if xoobInfo.autoplace then
      if xoobInfo.freeLength = 0 then fail .noEmptyOob
      else if xoobInfo.freeLength > 8 then
        return { pMtd with uiClMPos := xoobInfo.freeOffset, uiClMLen := 8 }
      else match pMtd.xInfo.oobsize with
        | 8 => return { pMtd with uiClMPos := 6, uiClMLen := 2 }
        | 16 => return { pMtd with uiClMPos := 8, uiClMLen := 8 }
        | 64 => return { pMtd with uiClMPos := 16, uiClMLen := 8 }
        | oobsize => fail (.unsupportedOobsize oobsize)
    else return pMtd
  else return { pMtd with xCleanMarker := mtdPartInitJFFS2Node jffs2NodetypeCleanmarker nodeSize }

/-- `axTypes`: the kinds of partitions with the image they ask for, by the
start of the name in `/proc/mtd`, which is in quotes there. -/
def axTypes : List (PartType × FileType × Bytes) := [
  (.ptUBoot, .ftUBoot, text "\"U-Boot"),
  (.ptKernel, .ftKernel, text "\"Kernel"),
  (.ptEnvironment, .ftNVRAM, text "\"NVRAM"),
  (.ptFPGA, .ftFPGA, text "\"FPGA"),
  (.ptBootstream, .ftBootstream, text "\"Bstrm-U-Boot")]

/-- The kind of a partition and the image it asks for, by its name. -/
def partTypeOfName (acName : Bytes) : PartType × FileType :=
  match axTypes.find? (fun entry => entry.2.2.isPrefixOf acName) with
  | some (ePartType, eFileTypeNeeded, _) => (ePartType, eFileTypeNeeded)
  | none => (.ptUnknown, .ftUnknown)

/-- `sscanf` on a line of `/proc/mtd`: the number and the name. -/
def scanProcMtdLine (acBuffer : Bytes) : Option (ℕ × Bytes) := do
  let s ← scanLiteral (text "mtd") acBuffer
  let (uiPart, s) ← scanUnsigned 32 s
  let s ← scanLiteral (text ":") s
  let (_, s) ← scanHex 64 s
  let (_, s) ← scanHex 64 s
  let (acName, _) ← scanWord 199 s
  return (uiPart, acName)

/-- The loop of `MtdPartDeterminePartType` that reads the given number of
lines and keeps the last one. -/
def seekProcMtdLine : ℕ → Bytes → Flash Bytes
  | 0, acBuffer => return acBuffer
  | left + 1, _ => do
    let line ← sysOrFail .mtdPartDeterminePartType (.fgetsProc 199) id
    seekProcMtdLine left (line.1.takeWhile (· ≠ 0))

/-- `MtdPartDeterminePartType`: the kind of the partition, by its name. -/
def mtdPartDeterminePartType (pMtd : MtdPartition) : Flash MtdPartition := do
  sysOrFail .mtdPartDeterminePartType (.fopenProc (text "/proc/mtd")) succeeded
  let _ ← sys (.fgetsProc 200)
  let acBuffer ← seekProcMtdLine (pMtd.uiPartition + 1) []
  match scanProcMtdLine acBuffer with
  | none => fail (.wrongProcMtdLine acBuffer)
  | some (uiPart, acName) =>
    if uiPart ≠ pMtd.uiPartition then fail (.wrongPartition acBuffer)
    else
      let types := partTypeOfName acName
      sysOrFail .mtdPartDeterminePartType .fcloseProc succeeded
      return { pMtd with ePartType := types.1, eFileTypeNeeded := types.2 }

/-- `axFileType`: the kinds of images in the order of their numbers, with the
expression that the file name is searched for. -/
def axFileType : List (FileType × Bytes) := [
  (.ftUBoot, text "u-boot-.*\\.bin"),
  (.ftKernel, text "uImage-.*"),
  (.ftFPGA, text ".*\\.biu"),
  (.ftNVRAM, text "nvram-.*"),
  (.ftJFFS2, text ".*\\.jffs2"),
  (.ftSQUASHFS, text ".*\\.squashfs"),
  (.ftUBI, text ".*\\.ubi"),
  (.ftBootstream, text ".*\\.sb"),
  (.ftUnknown, text ".*")]

/-- The first kind of image whose expression is found in a file name. -/
def fileTypeOfName (szImageFileName : Path) : Option FileType :=
  (axFileType.find? (fun entry => regexec (regcomp entry.2) szImageFileName)).map Prod.fst

/-- `MtdPartDetermineAndCheckFileType`: the kind of the image, which must be
the one that the partition asks for, if it asks for any. -/
def mtdPartDetermineAndCheckFileType (pMtd : MtdPartition) : Flash MtdPartition :=
  match fileTypeOfName pMtd.szImageFileName with
  | none => return pMtd
  | some eType => do
    let pMtd := { pMtd with eFileType := eType }
    if pMtd.eFileTypeNeeded ≠ pMtd.eFileType ∧ pMtd.eFileTypeNeeded ≠ .ftUnknown then
      fail (.fileTypeMismatch pMtd.szImageFileName pMtd.eFileType pMtd.ePartType)
    else if pMtd.eFileType = .ftJFFS2 then return { pMtd with cIsJFFS2 := true }
    else return pMtd

/-- `MtdPartUseFile`: take the size of an image, and hold it and the name
against the partition when that is open. -/
def mtdPartUseFile (g : Globals) (pMtd : MtdPartition) (szImageFileName : Path) :
    Flash MtdPartition := do
  let st_size ← sysOrFail .mtdPartUseFile (.statFile szImageFileName) id
  let pMtd := { pMtd with
    szOrigImageFileName := szImageFileName
    szImageFileName := szImageFileName
    iFileSize := st_size
    eFileType := .ftUnknown }
  if pMtd.isOpen then
    if st_size > pMtd.iSize then
      fail (.fileTooBig pMtd.szImageFileName st_size pMtd.uiPartition pMtd.iSize)
    else if g.cNoImageTypeCheck then return pMtd
    else mtdPartDetermineAndCheckFileType pMtd
  else return pMtd

/-- The first part of `MtdPartInit`: what the driver says about an open
partition, and its bad blocks. -/
def mtdPartReadInfo (g : Globals) (pMtd : MtdPartition) : Flash MtdPartition := do
  let xInfo ← sysOrFail .mtdPartInit (.memGetInfo pMtd.uiPartition) id
  let pMtd := { pMtd with
    xInfo := xInfo
    iSize := xInfo.size
    cIsNAND := xInfo.type = .nandFlash
    uiBadBlocks := 0
    cEraseAll := g.cEraseAll
    cWriteCleanMarker := g.cWriteCleanMarker }
  let uiBadBlocks ← countBadBlocks g pMtd
  let pMtd := { pMtd with
    uiBadBlocks
    iPageSize := if pMtd.cIsNAND then xInfo.writesize else xInfo.erasesize }
  let pMtd ← mtdPartDeterminePartType pMtd
  -- the product is taken in 32 bits before it is subtracted from `loff_t`
  return { pMtd with iSize := pMtd.iSize - (xInfo.erasesize * uiBadBlocks % 2 ^ 32 : ℕ) }

/-- `MtdPartInit`: open a partition, read its sizes and bad blocks, and use a
file for it. -/
def mtdPartInit (g : Globals) (uiPartition : ℕ) (szImageFileName : Path) : Flash MtdPartition := do
  let pMtd ← mtdPartOpen g { cleared with uiPartition } false
  let pMtd ← mtdPartReadInfo g pMtd
  let pMtd ← (do
    if ← sys .isNandOobAtomic then return pMtd else mtdPartInitCleanMarker pMtd)
  let pMtd ← mtdPartUseFile g pMtd szImageFileName
  let pMtd ← mtdPartClose pMtd
  if !g.cVerifyOnly && pMtd.cIsJFFS2 then
    let pMtd := { pMtd with cEraseAll := true }
    if ← sys .isNandOobAtomic then return pMtd
    else return { pMtd with cWriteCleanMarker := true }
  else return pMtd

end MetaDigi.FlashInit
