import MetaDigi.FlashInit

/-!
# Moving bytes between images and flash

The loops of the flash update tool: erasing, writing, comparing and summing a
partition, and copying and summing an image. Every loop is given by one pass
over its variables. A pass of the writing and comparing loops handles one page
and skips it when its block is bad; the erasing and summing loops go by erase
blocks.
-/

namespace MetaDigi.FlashTransfer

open CStrings TextScan SystemProgram FlashTypes FlashInit Crc32

/-- `MemCmp`: the offset of the first difference. -/
def memCmp (pvS1 pvS2 : Bytes) (iSize : ℕ) : Option ℕ :=
  (List.range iSize).find? (fun iOffset => pvS2[iOffset]? != pvS1[iOffset]?)

/-- A buffer after `read` has put bytes to its front. -/
def fillBuffer (buffer bytes : Bytes) : Bytes := bytes ++ buffer.drop bytes.length

/-- A `pwrite` that must write everything. -/
def pwriteOrFail (inside : Func) (pMtd : MtdPartition) (data : Bytes) (offset : ℕ) : Flash Unit :=
  sysOrFail inside (.pwrite pMtd.uiPartition data offset)
    (fun written => if written = data.length then some () else none)

/-- Erase a block and write its clean marker, unless nothing may change. -/
def eraseBlock (g : Globals) (pMtd : MtdPartition) (start : ℕ) : Flash Unit := do
  if g.cDryRun then return ()
  else
    sysOrFail .mtdPartErase (.memErase pMtd.uiPartition start pMtd.xInfo.erasesize) succeeded
    if pMtd.cWriteCleanMarker then
      if pMtd.cIsNAND then
        sysOrFail .mtdPartErase (.memWriteOob pMtd.uiPartition ((start + pMtd.uiClMPos) % 2 ^ 32)
          (pMtd.xCleanMarker.take pMtd.uiClMLen)) succeeded
      else pwriteOrFail .mtdPartErase pMtd pMtd.xCleanMarker start
    else return ()

/-- One pass of the loop of `MtdPartErase`, at `xErase.start` and with the
bytes erased so far. The offset is an integer of 32 bits. -/
def erasePass (g : Globals) (pMtd : MtdPartition) (iEraseSize : ℤ) :
    ℕ × ℕ → Flash ((ℕ × ℕ) ⊕ Unit)
  | (start, iBytesErasedTotal) => do
    if (iBytesErasedTotal : ℤ) < iEraseSize then
      let next := (start + pMtd.xInfo.erasesize) % 2 ^ 32
      if ← mtdPartIsBadBlock pMtd start then return .inl (next, iBytesErasedTotal)
      else
        eraseBlock g pMtd start
        return .inl (next, iBytesErasedTotal + pMtd.xInfo.erasesize)
    else return .inr ()

/-- The number of bytes that `MtdPartErase` erases at least. -/
def eraseSize (pMtd : MtdPartition) : ℤ := if pMtd.cEraseAll then pMtd.iSize else pMtd.iFileSize

/-- `MtdPartErase`. -/
def mtdPartErase (g : Globals) (pMtd : MtdPartition) : Flash Unit :=
  Prog.loop (erasePass g pMtd (eraseSize pMtd)) g.fuel (0, 0)

/-- The command line for `ubiformat`. -/
def ubiCommand (pMtd : MtdPartition) : CommandLine where
  front := text "ubiformat " ++ pMtd.acName ++ text " -f "
  image := pMtd.szImageFileName
  rest := text " -y -q 2>&1 >/dev/null"

/-- `mtd_part_write_ubi`: flash an image with `ubiformat`. The command line
is cut to its array. -/
def mtdPartWriteUbi (pMtd : MtdPartition) : Flash Unit := do
  match ← sys (.ubiformat ((ubiCommand pMtd).cut 255) pMtd.uiPartition) with
  | none => fail .nullStream
  | some ret => if ret / 256 % 256 = 0 then return () else fail .ubiformatFailed

/-- The page that is written for the bytes read from the image: a short last
page is filled with erased cells, or for JFFS2 with a padding node and zeros
when there is room for it. -/
def fillPage (cIsJFFS2 : Bool) (iBlockSize : ℕ) (bytes : Bytes) : Bytes :=
  if bytes.length < iBlockSize then
    if cIsJFFS2 && bytes.length + nodeSize < iBlockSize then
      bytes ++ mtdPartInitJFFS2Node jffs2NodetypePadding (iBlockSize - bytes.length) ++
        List.replicate (iBlockSize - bytes.length - nodeSize) 0
    else bytes ++ List.replicate (iBlockSize - bytes.length) flashErasedByte
  else bytes

/-- The `pwrite` of `MtdPartWrite`, which a dry run takes for done. -/
def pwriteUnlessDry (g : Globals) (pMtd : MtdPartition) (pucBuffer : Bytes) (iCurrentOffs : ℕ) :
    Flash ℤ :=
  if g.cDryRun then return pucBuffer.length
  else sys (.pwrite pMtd.uiPartition pucBuffer iCurrentOffs)

/-- The loop of `MtdPartWrite` over the attempts to write a page, with the
attempts left and the contents of the buffer for reading back. Answers whether
an attempt was good. -/
def writeAttempts (g : Globals) (pMtd : MtdPartition) (pucBuffer : Bytes) (iCurrentOffs : ℕ) :
    ℕ → Bytes → Flash Bool
  | 0, _ => return false
  | left + 1, pucBufferMtd => do
    let iBytesWritten ← pwriteUnlessDry g pMtd pucBuffer iCurrentOffs
    if iBytesWritten ≠ pucBuffer.length then
      if !g.cDryRun && g.cMarkBadBlocks then
        writeAttempts g pMtd pucBuffer iCurrentOffs left pucBufferMtd
      else
        fail (.systemError .mtdPartWrite (.pwrite pMtd.uiPartition pucBuffer iCurrentOffs))
    else if !g.cDryRun && g.cMarkBadBlocks then
      match ← sys (.pread pMtd.uiPartition pMtd.iPageSize iCurrentOffs) with
      | none => writeAttempts g pMtd pucBuffer iCurrentOffs left pucBufferMtd
      | some bytes =>
        let pucBufferMtd := fillBuffer pucBufferMtd bytes.1
        if crc32 0 pucBufferMtd ≠ crc32 0 pucBuffer then
          writeAttempts g pMtd pucBuffer iCurrentOffs left pucBufferMtd
        else return true
    else return true

/-- The memory for reading a page back, when that is asked for. -/
def readBackBuffer (g : Globals) (pMtd : MtdPartition) : Flash Bytes :=
  if !g.cDryRun && g.cMarkBadBlocks then
    sysOrFail .mtdPartWrite (.malloc pMtd.iPageSize) (fun r => r.map Subtype.val)
  else return []

/-- Write one page, and mark its block bad and leave when every attempt has
failed. -/
def writePage (g : Globals) (pMtd : MtdPartition) (pucBuffer : Bytes) (iCurrentOffs : ℕ) :
    Flash Unit := do
  let pucBufferMtd ← readBackBuffer g pMtd
  let done ← writeAttempts g pMtd pucBuffer iCurrentOffs cMaxRetries pucBufferMtd
  if done then return ()
  else
    let _ ← mtdMarkBadBlock pMtd iCurrentOffs
    fail (.systemError .mtdPartWrite (.memSetBadBlock pMtd.uiPartition iCurrentOffs))

/-- The variables of the loop of `MtdPartWrite`. -/
structure WriteState where
  /-- Where in the partition the next page goes. -/
  iCurrentOffs : ℕ := 0
  /-- Bytes read from the image. -/
  iBytesReadTotal : ℕ := 0
  /-- Checksum of these bytes. -/
  uiCRC32 : Crc := 0

/-- The end of a pass of `MtdPartWrite`: step by one page, and go on inside
the partition. -/
def WriteState.step (pMtd : MtdPartition) (st : WriteState) : WriteState ⊕ WriteState :=
  let st := { st with iCurrentOffs := st.iCurrentOffs + pMtd.iPageSize }
  if st.iCurrentOffs < pMtd.xInfo.size then .inl st else .inr st

/-- The loop variables after the bytes of one page. -/
def WriteState.add (pMtd : MtdPartition) (st : WriteState) (bytes : Bytes) : WriteState :=
  { st with
    iBytesReadTotal := st.iBytesReadTotal + bytes.length
    uiCRC32 := if pMtd.cChecksumCalculated then st.uiCRC32 else crc32 st.uiCRC32 bytes }

/-- One pass of the loop of `MtdPartWrite`. -/
def writePass (g : Globals) (pMtd : MtdPartition) (st : WriteState) :
    Flash (WriteState ⊕ WriteState) := do
  if ← mtdPartIsBadBlock pMtd st.iCurrentOffs then return st.step pMtd
  else
    let bytes ← sysOrFail .mtdPartWrite (.readSrc pMtd.iPageSize) id
    if bytes.1 = [] then return .inr st
    else
      writePage g pMtd (fillPage pMtd.cIsJFFS2 pMtd.iPageSize bytes.1) st.iCurrentOffs
      return (st.add pMtd bytes.1).step pMtd

/-- The record after `MtdPartWrite`, which keeps the checksum of what it has
read unless one was calculated before. -/
def recordWritten (pMtd : MtdPartition) (uiCRC32 : Crc) : MtdPartition :=
  if pMtd.cChecksumCalculated then pMtd
  else { pMtd with uiCRC32, cChecksumSet := true, cChecksumCalculated := true }

/-- `MtdPartWrite`: write the image to the partition. -/
def mtdPartWrite (g : Globals) (pMtd : MtdPartition) : Flash MtdPartition := do
  let _ ← sysOrFail .mtdPartWrite (.malloc pMtd.iPageSize) id
  sysOrFail .mtdPartWrite (.openSrc pMtd.szImageFileName) succeeded
  sysOrFail .mtdPartWrite (.lseekMtd pMtd.uiPartition) succeeded
  let st ← Prog.loop (writePass g pMtd) g.fuel {}
  sysOrFail .mtdPartWrite .closeSrc succeeded
  if pMtd.iFileSize ≠ st.iBytesReadTotal then
    fail (.filesizeChanged .mtdPartWrite pMtd.szImageFileName)
  else return recordWritten pMtd st.uiCRC32

/-- The loop of `MtdPartVerify` over the attempts to read a page. -/
def readAttempts (g : Globals) (pMtd : MtdPartition) (iOffsMtd : ℕ) : ℕ → Flash (Option Bytes)
  | 0 => return none
  | left + 1 => do
    match ← sys (.pread pMtd.uiPartition pMtd.iPageSize iOffsMtd) with
    | some bytes => return some bytes.1
    | none =>
      if !g.cDryRun && g.cMarkBadBlocks then readAttempts g pMtd iOffsMtd left
      else
        fail (.systemError .mtdPartVerify (.pread pMtd.uiPartition pMtd.iPageSize iOffsMtd))

/-- Read one page, and mark its block bad and leave when every attempt has
failed. -/
def readPage (g : Globals) (pMtd : MtdPartition) (iOffsMtd : ℕ) : Flash Bytes := do
  match ← readAttempts g pMtd iOffsMtd cMaxRetries with
  | some bytes => return bytes
  | none =>
    let _ ← mtdMarkBadBlock pMtd iOffsMtd
    fail (.systemError .mtdPartVerify (.memSetBadBlock pMtd.uiPartition iOffsMtd))

/-- The variables of the loop of `MtdPartVerify`. -/
structure VerifyState where
  /-- Where in the partition the next page is. -/
  iOffsMtd : ℕ := 0
  /-- Bytes compared so far. -/
  iBytesReadTotal : ℕ := 0
  /-- The buffer for the image. -/
  pucBufferSrc : Bytes
  /-- The buffer for the flash. -/
  pucBufferMtd : Bytes

/-- The end of a pass of `MtdPartVerify`. -/
def VerifyState.step (pMtd : MtdPartition) (st : VerifyState) : VerifyState ⊕ Option ℕ :=
  let st := { st with iOffsMtd := st.iOffsMtd + pMtd.iPageSize }
  if st.iOffsMtd < pMtd.xInfo.size then .inl st else .inr (some st.iBytesReadTotal)

/-- Whether the flash behind the bytes of the image is erased, as far as
`MtdPartVerify` looks. -/
def restIsEmpty (pMtd : MtdPartition) (bytesSrc bytesMtd : Bytes) : Bool :=
  pMtd.cIsJFFS2 || (bytesMtd.drop bytesSrc.length).all (· = flashErasedByte)

/-- One pass of the loop of `MtdPartVerify`. The loop ends with the number of
bytes compared, or with nothing at a difference. -/
def verifyPass (g : Globals) (pMtd : MtdPartition) (st : VerifyState) :
    Flash (VerifyState ⊕ Option ℕ) := do
  if ← mtdPartIsBadBlock pMtd st.iOffsMtd then return st.step pMtd
  else
    let bytesSrc ← sysOrFail .mtdPartVerify (.readSrc pMtd.iPageSize) id
    if bytesSrc.1 = [] then return .inr (some st.iBytesReadTotal)
    else
      let bytesMtd ← readPage g pMtd st.iOffsMtd
      let st := { st with
        pucBufferSrc := fillBuffer st.pucBufferSrc bytesSrc.1
        pucBufferMtd := fillBuffer st.pucBufferMtd bytesMtd }
      if bytesSrc.1.length > bytesMtd.length then return .inr none
      else match memCmp st.pucBufferSrc st.pucBufferMtd bytesSrc.1.length with
        | some iOffs =>
          sys (.memDump st.pucBufferSrc (iOffs / 16 * 16) (min bytesSrc.1.length 0x20))
          sys (.memDump st.pucBufferMtd (iOffs / 16 * 16) (min bytesMtd.length 0x20))
          return .inr none
        | none =>
          if restIsEmpty pMtd bytesSrc.1 bytesMtd then
            return { st with
              iBytesReadTotal := st.iBytesReadTotal + bytesSrc.1.length }.step pMtd
          else return .inr none

/-- The body of `MtdPartVerify`: compare the partition with the file of the
command line. Answers whether they agree. -/
def comparePart (g : Globals) (pMtd : MtdPartition) : Flash (Bool × MtdPartition) := do
  let pucBufferSrc ← sysOrFail .mtdPartVerify (.malloc pMtd.iPageSize) id
  let pucBufferMtd ← sysOrFail .mtdPartVerify (.malloc pMtd.iPageSize) id
  let pMtd ← mtdPartClose pMtd
  let pMtd ← mtdPartOpen g pMtd true
  sysOrFail .mtdPartVerify (.openSrc pMtd.szOrigImageFileName) succeeded
  let compared ← Prog.loop (verifyPass g pMtd) g.fuel
    { pucBufferSrc := pucBufferSrc.1, pucBufferMtd := pucBufferMtd.1 }
  sysOrFail .mtdPartVerify .closeSrc succeeded
  return (compared == some pMtd.iFileSize, pMtd)

/-- `MtdPartVerify`, with the point at which it returns. -/
def mtdPartVerify (g : Globals) (pMtd : MtdPartition) : Flash (Bool × MtdPartition) := do
  let (cRes, pMtd) ← comparePart g pMtd
  sys (.verifyReturned pMtd.uiPartition cRes)
  return (cRes, pMtd)

/-- `MtdPartCompareCRC32`, called from one of several functions. -/
def mtdPartCompareCRC32 (inside : Func) (pMtd : MtdPartition) (uiCRC32 : Crc) : Flash Unit :=
  if uiCRC32 ≠ pMtd.uiCRC32 then
    fail (.crcMismatch inside pMtd.szImageFileName pMtd.uiCRC32 uiCRC32)
  else return ()

/-- The variables of the loop of `MtdPartCheckCRC32`. -/
structure CheckState where
  /-- Where in the partition the next block is. -/
  iOffsMtd : ℕ := 0
  /-- Bytes summed so far. -/
  iBytesReadTotal : ℕ := 0
  /-- Their checksum. -/
  uiCRC32 : Crc := 0

/-- The end of a pass of `MtdPartCheckCRC32`: step by one erase block, and go
on while bytes are missing. -/
def CheckState.step (pMtd : MtdPartition) (st : CheckState) : CheckState ⊕ Crc :=
  let st := { st with iOffsMtd := st.iOffsMtd + pMtd.xInfo.erasesize }
  if pMtd.iFileSize > st.iBytesReadTotal then .inl st else .inr st.uiCRC32

/-- The loop variables after the bytes of one block, of which only those that
belong to the image count. -/
def CheckState.add (pMtd : MtdPartition) (st : CheckState) (bytes : Bytes) : CheckState :=
  let iBytesReadMtd :=
    if st.iBytesReadTotal + bytes.length > pMtd.iFileSize then
      pMtd.iFileSize - st.iBytesReadTotal
    else bytes.length
  { st with
    iBytesReadTotal := st.iBytesReadTotal + iBytesReadMtd
    uiCRC32 := crc32 st.uiCRC32 (bytes.take iBytesReadMtd) }

/-- One pass of the loop of `MtdPartCheckCRC32`. -/
def checkPass (pMtd : MtdPartition) (st : CheckState) : Flash (CheckState ⊕ Crc) := do
  if ← mtdPartIsBadBlock pMtd st.iOffsMtd then return st.step pMtd
  else
    let bytes ← sysOrFail .mtdPartCheckCRC32
      (.pread pMtd.uiPartition pMtd.xInfo.erasesize st.iOffsMtd) id
    return (st.add pMtd bytes.1).step pMtd

/-- `MtdPartCheckCRC32`: sum the partition up to the size of the image. -/
def mtdPartCheckCRC32 (g : Globals) (pMtd : MtdPartition) : Flash MtdPartition := do
  let _ ← sysOrFail .mtdPartCheckCRC32 (.malloc pMtd.xInfo.erasesize) id
  let pMtd ← mtdPartClose pMtd
  let pMtd ← mtdPartOpen g pMtd true
  let uiCRC32 ← Prog.loop (checkPass pMtd) g.fuel {}
  mtdPartCompareCRC32 .mtdPartCheckCRC32 pMtd uiCRC32
  return pMtd

/-- The loop of `MtdPartVerifyJFFS2Block` over the offsets 16, 32, 64 and so
on: the first one with a clean marker. The first argument is the number of
offsets that an `int` can hold. -/
def findCleanMarker (pucData xCleanMarker : Bytes) (iSize : ℕ) : ℕ → ℕ → Option ℕ
  | 0, _ => none
  | left + 1, iOffs =>
    if iOffs < iSize - 4 then
      if memCmp (pucData.drop iOffs) xCleanMarker 4 = none then some iOffs
      else findCleanMarker pucData xCleanMarker iSize left (iOffs * 2)
    else none

/-- `MtdPartVerifyJFFS2Block`: a block of a JFFS2 image must start with a
node, and with a clean marker just when the memory is not NAND. -/
def mtdPartVerifyJFFS2Block (pMtd : MtdPartition) (pucData : Bytes) (iSize : ℕ) :
    Flash MtdPartition :=
  if pMtd.cAlreadyPrintedVerifyWarning then return pMtd
  else
    let cCleanMarkerPresent := iSize ≥ 4 && memCmp pucData pMtd.xCleanMarker 4 == none
    if pMtd.cIsNAND then
      let pMtd := { pMtd with cAlreadyPrintedVerifyWarning := cCleanMarkerPresent }
      if memCmp pucData (je16 jffs2MagicBitmask) 2 ≠ none then fail .noJffs2Header
      else return pMtd
    else if !cCleanMarkerPresent then fail .noCleanMarkers
    else match findCleanMarker pucData pMtd.xCleanMarker iSize 27 16 with
      | some iOffs => fail (.cleanMarkerAtOffset iOffs)
      | none => return pMtd

/-- Look into a block of an image when it is JFFS2. -/
def verifyIfJFFS2 (pMtd : MtdPartition) (pucData : Bytes) (iSize : ℕ) : Flash MtdPartition :=
  if pMtd.cIsJFFS2 then mtdPartVerifyJFFS2Block pMtd pucData iSize else return pMtd

/-- The variables of the loops that read a whole image. -/
structure FileState where
  /-- The record, which remembers a warning. -/
  pMtd : MtdPartition
  /-- The buffer. -/
  pucBuffer : Bytes
  /-- Bytes read so far. -/
  iBytesReadTotal : ℕ := 0
  /-- Their checksum. -/
  uiCRC32 : Crc := 0

/-- One pass over an erase block of an image, with what is done with the
bytes besides looking at them. -/
def filePass (inside : Func) (use : Bytes → Flash Unit) (st : FileState) :
    Flash (FileState ⊕ FileState) := do
  let bytes ← sysOrFail inside (.readSrc st.pMtd.xInfo.erasesize) id
  if bytes.1 = [] then return .inr st
  else
    let pucBuffer := fillBuffer st.pucBuffer bytes.1
    let pMtd ← verifyIfJFFS2 st.pMtd pucBuffer bytes.1.length
    use bytes.1
    return .inl {
      pMtd, pucBuffer
      iBytesReadTotal := st.iBytesReadTotal + bytes.1.length
      uiCRC32 := crc32 st.uiCRC32 bytes.1 }

/-- Keep the checksum of a file, or compare it with the one that is set. -/
def setOrCompareCRC32 (inside : Func) (pMtd : MtdPartition) (uiCRC32 : Crc) :
    Flash MtdPartition := do
  if pMtd.cChecksumSet then
    mtdPartCompareCRC32 inside pMtd uiCRC32
    return pMtd
  else return { pMtd with uiCRC32, cChecksumSet := true, cChecksumCalculated := true }

/-- A `write` to the copy that must write everything. -/
def writeDstOrFail (bytes : Bytes) : Flash Unit :=
  sysOrFail .mtdPartCopyFile (.writeDst bytes)
    (fun written => if written = bytes.length then some () else none)

/-- `MtdPartCopyFile`: copy the image and sum it. -/
def mtdPartCopyFile (g : Globals) (pMtd : MtdPartition) (szDstFileName : Path) :
    Flash MtdPartition := do
  let pucBuffer ← sysOrFail .mtdPartCopyFile (.malloc pMtd.xInfo.erasesize) id
  sysOrFail .mtdPartCopyFile (.openSrc pMtd.szImageFileName) succeeded
  sysOrFail .mtdPartCopyFile (.openDst szDstFileName) succeeded
  let st ← Prog.loop (filePass .mtdPartCopyFile writeDstOrFail) g.fuel
    { pMtd, pucBuffer := pucBuffer.1 }
  sysOrFail .mtdPartCopyFile .closeDst succeeded
  sysOrFail .mtdPartCopyFile .closeSrc succeeded
  if st.pMtd.iFileSize ≠ st.iBytesReadTotal then
    fail (.filesizeChanged .mtdPartCopyFile st.pMtd.szImageFileName)
  else setOrCompareCRC32 .mtdPartCopyFile st.pMtd st.uiCRC32

/-- `MtdPartVerifyFile`: sum the image. -/
def mtdPartVerifyFile (g : Globals) (pMtd : MtdPartition) : Flash MtdPartition := do
  let pucBuffer ← sysOrFail .mtdPartVerifyFile (.malloc pMtd.xInfo.erasesize) id
  sysOrFail .mtdPartVerifyFile (.openSrc pMtd.szImageFileName) succeeded
  let st ← Prog.loop (filePass .mtdPartVerifyFile (fun _ => return ())) g.fuel
    { pMtd, pucBuffer := pucBuffer.1 }
  sysOrFail .mtdPartVerifyFile .closeSrc succeeded
  setOrCompareCRC32 .mtdPartVerifyFile st.pMtd st.uiCRC32

/-- `IO_BLOCK_SIZE`. -/
def ioBlockSize : ℕ := 65536

/-- One pass of the loop of `CalcCRC32OfFile`. -/
def calcCRC32Pass (uiCRC32 : Crc) : Flash (Crc ⊕ Crc) := do
  let bytes ← sysOrFail .calcCRC32OfFile (.readSrc ioBlockSize) id
  if bytes.1 = [] then return .inr uiCRC32 else return .inl (crc32 uiCRC32 bytes.1)

/-- `CalcCRC32OfFile`. -/
def calcCRC32OfFile (g : Globals) (szFileName : Path) : Flash Crc := do
  sysOrFail .calcCRC32OfFile (.openSrc szFileName) succeeded
  let uiCRC32 ← Prog.loop calcCRC32Pass g.fuel 0
  sysOrFail .calcCRC32OfFile .closeSrc succeeded
  return uiCRC32

end MetaDigi.FlashTransfer
