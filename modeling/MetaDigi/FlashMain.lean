import Mathlib.Data.List.DropRight
import MetaDigi.FlashTransfer

/-!
# The flash update tool as a whole

The mounts of a partition are dealt with before it is flashed; the root file
system is found on the kernel command line. The three commands of the tool
walk the list of partitions, and the main program reads that list from the
arguments behind the options.
-/

namespace MetaDigi.FlashMain

open CStrings TextScan SystemProgram FlashTypes FlashInit FlashTransfer Crc32

/-- `szRootDev`, a static array that starts with zeros. -/
abbrev RootDev := Cells 32

/-- `szRootDev` before the first call of `GetRootDevice`. -/
def noRootDev : RootDev := ⟨List.replicate 32 0, rfl⟩

/-- `strncpy` of at most as many characters as the array has. -/
def strncpyRootDev (szRootDev : RootDev) (szDev : Bytes) (n : ℕ) : RootDev :=
  ⟨szDev.take (min 32 n) ++ szRootDev.1.drop (szDev.take (min 32 n)).length, by
    have hlen := szRootDev.2
    simp only [List.length_append, List.length_take, List.length_drop]
    omega⟩

/-- `strcmp` of a string with the array: equal when the array holds the
string and its terminator. -/
def storesString (cells szString : Bytes) : Bool := (szString ++ [0]).isPrefixOf cells

/-- The text of the kernel command line as a string, once it has been read to
the front of an array and terminated. -/
def terminateCmdLine (szCmdLine bytes : Bytes) : Bytes :=
  ((fillBuffer szCmdLine bytes).set (bytes.length + 1) 0).takeWhile (· ≠ 0)

/-- The second part of `GetRootDevice`: copy the text behind "root=". -/
def scanRootDevice (szCmdLine : Bytes) (szRootDev : RootDev) : RootDev :=
  match strstr (text "root=") szCmdLine with
  | none => szRootDev
  | some szRootStart =>
    let szDev := szCmdLine.drop (szRootStart + 5)
    let iLen := (strchr szDev 32).getD szDev.length
    strncpyRootDev szRootDev szDev iLen

/-- `GetRootDevice`. -/
def getRootDevice (szRootDev : RootDev) : Flash RootDev := do
  if szRootDev.1.head? ≠ some 0 then return szRootDev
  else
    let szCmdLine ← sys (.localArray 1024)
    sysOrFail .getRootDevice (.openProc (text "/proc/cmdline")) succeeded
    let bytes ← sysOrFail .getRootDevice (.readProc 1022) id
    sysOrFail .getRootDevice .closeProc succeeded
    return scanRootDevice (terminateCmdLine szCmdLine.1 bytes.1) szRootDev

/-- Remount a directory read-only. -/
def remountReadOnly (ent : MntEnt) : Flash Unit := do
  match ← sys (.remountReadOnly ent.mnt_fsname ent.mnt_dir) with
  | .ok => return ()
  | .busy => fail .partitionInUse
  | .failed =>
    fail (.systemError .mtdPartRemountAllReadOnly (.remountReadOnly ent.mnt_fsname ent.mnt_dir))

/-- What `MtdPartRemountAllReadOnly` does with one line of the mount table. -/
def releaseMount (szRootDev : RootDev) (acMtdBlock : Bytes) (ent : MntEnt) : Flash Unit := do
  let bIsRootDev := ent.mnt_fsname = text "/dev/root" ∧ storesString szRootDev.1 acMtdBlock
  if bIsRootDev then remountReadOnly ent
  else if ent.mnt_fsname = acMtdBlock then
    if ← sys (.umount ent.mnt_dir) then return () else remountReadOnly ent
  else return ()

/-- One pass of the loop of `MtdPartRemountAllReadOnly`. -/
def remountPass (szRootDev : RootDev) (acMtdBlock : Bytes) (_ : Unit) : Flash (Unit ⊕ Unit) := do
  match ← sys .getmntent with
  | none => return .inr ()
  | some ent =>
    releaseMount szRootDev acMtdBlock ent
    return .inl ()

/-- What the block device of a partition is called. -/
def mtdBlockName (g : Globals) (uiPartition : ℕ) : Bytes :=
  g.szMtdBlockPrefix ++ decimal uiPartition

/-- `MtdPartRemountAllReadOnly`. -/
def mtdPartRemountAllReadOnly (g : Globals) (szRootDev : RootDev) (pMtd : MtdPartition) :
    Flash (RootDev × MtdPartition) := do
  let szRootDev ← getRootDevice szRootDev
  if pMtd.cAlreadyRemounted then return (szRootDev, pMtd)
  else
    sysOrFail .mtdPartRemountAllReadOnly .setmntent succeeded
    Prog.loop (remountPass szRootDev (mtdBlockName g pMtd.uiPartition)) g.fuel ()
    sys .endmntent
    return (szRootDev, { pMtd with cAlreadyRemounted := true })

/-- The loop of `DoMtdUpdate` over `MtdPartRemountAllReadOnly`. -/
def remountAll (g : Globals) : RootDev → List MtdPartition → Flash (List MtdPartition)
  | _, [] => return []
  | szRootDev, pMtd :: parts => do
    let (szRootDev, pMtd) ← mtdPartRemountAllReadOnly g szRootDev pMtd
    let parts ← remountAll g szRootDev parts
    return pMtd :: parts

/-- `JFFS2_SUPER_MAGIC`. -/
def jffs2SuperMagic : ℕ := 0x72b6

/-- `NFS_SUPER_MAGIC`. -/
def nfsSuperMagic : ℕ := 0x6969

/-- `VerifyTmpDir`. -/
def verifyTmpDir (szTmpDir : Path) : Flash Unit := do
  let f_type ← sysOrFail .verifyTmpDir (.statfs szTmpDir) id
  if f_type = jffs2SuperMagic then fail .tmpOnJffs2
  else if f_type = nfsSuperMagic then fail .tmpOnNfs
  else return ()

/-- `basename`: the part behind the last slash, not counting slashes at the
end. A path of slashes only is a slash, an empty one is a dot. -/
def basename (path : Path) : Path :=
  let trimmed := path.rdropWhile (· = 47)
  if path = [] then text "."
  else if trimmed = [] then text "/"
  else trimmed.rtakeWhile (· ≠ 47)

/-- `acTmpFileName`: the name of the copy, cut to its array. -/
def tmpFileName (szTmpDir szImageFileName : Path) : Path :=
  (szTmpDir ++ text "/" ++ basename szImageFileName).take 254

/-- Copy one image to the temporary directory and use the copy from now on. -/
def stageFile (g : Globals) (szTmpDir : Path) (pMtd : MtdPartition) : Flash MtdPartition := do
  let acTmpFileName := tmpFileName szTmpDir pMtd.szImageFileName
  let pMtd ← mtdPartCopyFile g pMtd acTmpFileName
  return { pMtd with szImageFileName := acTmpFileName }

/-- The first part of `DoMtdUpdate`: copy the images, or sum them. -/
def checkFiles (g : Globals) (parts : List MtdPartition) : Flash (List MtdPartition) :=
  match g.szTmpDir with
  | some szTmpDir => do
    verifyTmpDir szTmpDir
    Prog.mapList (stageFile g szTmpDir) parts
  | none =>
    if g.cHasChecksum || !g.cNoImageTypeCheck then Prog.mapList (mtdPartVerifyFile g) parts
    else return parts

/-- The command line for `kobs-ng`. -/
def kobsCommand (g : Globals) (pMtd : MtdPartition) : CommandLine where
  front := text "kobs-ng init -w" ++ (if g.cVerify then text " -c" else []) ++
    (match g.szKey with
      | some szKey => text " -k" ++ szKey
      | none => []) ++
    text " --chip_0_device_path=" ++ pMtd.acName ++ text " "
  image := pMtd.szImageFileName
  rest := text " > /dev/null"

/-- Flash a boot stream with `kobs-ng`. -/
def runKobs (g : Globals) (pMtd : MtdPartition) : Flash Unit := do
  let cmd := kobsCommand g pMtd
  if cmd.line.length < 1024 then
    let status ← sys (.kobsNg cmd pMtd.uiPartition)
    if status = 0 then return () else fail .kobsNgFailed
  else fail (.overflow cmd.line)

/-- Write an image and compare it or its checksum with the flash. -/
def writeAndCheck (g : Globals) (pMtd : MtdPartition) : Flash MtdPartition := do
  let pMtd ← mtdPartWrite g pMtd
  let pMtd ← (do
    if g.cVerify then
      let (cRes, pMtd) ← mtdPartVerify g pMtd
      if cRes then return pMtd else fail .verifyFailed
    else if g.cHasChecksum then mtdPartCheckCRC32 g pMtd
    else return pMtd)
  mtdPartClose pMtd

/-- The body of the loop of `DoMtdUpdate` that flashes one partition. -/
def updatePart (g : Globals) (pMtd : MtdPartition) : Flash MtdPartition := do
  let pMtd ← mtdPartOpen g pMtd false
  (if pMtd.eFileType ≠ .ftUBI then mtdPartErase g pMtd else return ())
  if pMtd.ePartType = .ptBootstream then
    let pMtd ← mtdPartClose pMtd
    runKobs g pMtd
    return pMtd
  else if pMtd.eFileType = .ftUBI then
    let pMtd ← mtdPartClose pMtd
    mtdPartWriteUbi pMtd
    return pMtd
  else writeAndCheck g pMtd

/-- Delete one copy; it is fine when it is gone already. -/
def unlinkTmpFile (pMtd : MtdPartition) : Flash Unit := do
  match ← sys (.unlink pMtd.szImageFileName) with
  | .failed => fail (.systemError .doMtdUpdate (.unlink pMtd.szImageFileName))
  | _ => return ()

/-- The last part of `DoMtdUpdate`: delete the copies. -/
def unlinkTmpFiles (g : Globals) (parts : List MtdPartition) : Flash Unit := do
  if g.szTmpDir.isSome then
    let _ ← Prog.mapList unlinkTmpFile parts
  else return ()

/-- `DoMtdUpdate`. -/
def doMtdUpdate (g : Globals) (parts : List MtdPartition) : Flash Unit := do
  let parts ← checkFiles g parts
  let parts ← remountAll g noRootDev parts
  let parts ← Prog.mapList (updatePart g) parts
  unlinkTmpFiles g parts

/-- The body of the loop of `DoMtdVerify`. The result of `MtdPartVerify` is
not used. -/
def verifyPart (g : Globals) (pMtd : MtdPartition) : Flash MtdPartition := do
  let pMtd ← mtdPartOpen g pMtd true
  let (_, pMtd) ← mtdPartVerify g pMtd
  mtdPartClose pMtd

/-- `DoMtdVerify`. -/
def doMtdVerify (g : Globals) (parts : List MtdPartition) : Flash Unit := do
  let _ ← Prog.mapList (verifyPart g) parts

/-- The body of the loop of `DoPrintChecksums`. -/
def printChecksum (g : Globals) (pMtd : MtdPartition) : Flash Unit := do
  let uiCRC32 ← calcCRC32OfFile g pMtd.szImageFileName
  if pMtd.cChecksumSet then mtdPartCompareCRC32 .doPrintChecksums pMtd uiCRC32
  else return ()

/-- `DoPrintChecksums`. -/
def doPrintChecksums (g : Globals) (parts : List MtdPartition) : Flash Unit := do
  let _ ← Prog.mapList (printChecksum g) parts

/-- The record for a file and, unless only checksums are asked for, its
partition; answers the arguments behind them as well. -/
def namePart (g : Globals) (args : List Bytes) : Flash (MtdPartition × List Bytes) :=
  match args with
  | [] => fail (.requireFilename (!g.cChecksumOnly) g.cHasChecksum)
  | file :: rest =>
    if g.cChecksumOnly then do
      let pMtd ← mtdPartUseFile g cleared file
      return (pMtd, rest)
    else match rest with
      | [] => fail (.requireFilename true g.cHasChecksum)
      | number :: rest =>
        match scanUnsigned 32 number with
        | none => fail .wrongPartitionNumber
        | some (uiPartition, _) =>
          if uiPartition ≥ g.uiMtdPartsCount then fail (.haveOnlyPartitions g.uiMtdPartsCount)
          else do
            let pMtd ← mtdPartInit g uiPartition file
            return (pMtd, rest)

/-- The checksum behind a file and its partition, when there has to be one. -/
def nameChecksum (g : Globals) (pMtd : MtdPartition) (args : List Bytes) :
    Flash (MtdPartition × List Bytes) :=
  if g.cHasChecksum then
    match args with
    | [] => fail (.requireFilename (!g.cChecksumOnly) true)
    | szCRC32 :: rest =>
      match scanHex 32 szCRC32 with
      | none => fail (.invalidChecksum szCRC32)
      | some (uiCRC32, _) =>
        return ({ pMtd with uiCRC32 := BitVec.ofNat 32 uiCRC32, cChecksumSet := true }, rest)
  else return (pMtd, args)

/-- How many arguments one element of the list has. -/
def argsPerPart (g : Globals) : ℕ :=
  1 + (if g.cChecksumOnly then 0 else 1) + (if g.cHasChecksum then 1 else 0)

/-- The loop of `main` over the arguments behind the options. The first
argument is the number of records left in `axMtdParts`. -/
def nameParts (g : Globals) : ℕ → List Bytes → Flash (List MtdPartition)
  | _, [] => return []
  | 0, _ => fail .tooManyPartitions
  | left + 1, args => do
    if args.length < argsPerPart g then
      fail (.requireFilename (!g.cChecksumOnly) g.cHasChecksum)
    else
      let (pMtd, args) ← namePart g args
      let (pMtd, args) ← nameChecksum g pMtd args
      let parts ← nameParts g left args
      return pMtd :: parts

/-- The start of `main`: clean markers need a platform that can write them,
and they need a full erase; the partitions are counted unless only checksums
are asked for. -/
def prepare (opts : Options) (fuel : ℕ) : Flash Globals := do
  let opts ← (do
    if opts.cWriteCleanMarker then
      if ← sys .isNandOobAtomic then return { opts with cWriteCleanMarker := false }
      else return opts
    else return opts)
  let opts := { opts with cEraseAll := opts.cEraseAll || opts.cWriteCleanMarker }
  if opts.cChecksumOnly then return { opts with fuel := fuel } else mtdInit opts fuel

/-- The command that the options ask for. -/
def runCommand (g : Globals) (parts : List MtdPartition) : Flash Unit :=
  if g.cChecksumOnly then doPrintChecksums g parts
  else if g.cVerifyOnly then doMtdVerify g parts
  else doMtdUpdate g parts

/-- The end of `main`: reboot when that was asked for. -/
def finish (g : Globals) : Flash Unit := do
  if g.cDoReboot then sys .reboot else return ()

/-- `main`, behind the parsing of the options. Returning is `EXIT_SUCCESS`. -/
def main (opts : Options) (args : List Bytes) (fuel : ℕ) : Flash Unit := do
  let g ← prepare opts fuel
  let parts ← nameParts g maxMtdParts args
  runCommand g parts
  finish g

end MetaDigi.FlashMain
