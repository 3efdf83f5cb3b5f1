import MetaDigi.FlashRecords
import MetaDigi.FlashRuns

/-!
# Copies in the temporary directory

With a temporary directory every image is copied before the first partition is
flashed, and the copy is flashed. A copy has the last part of the name of its
image, and is written over what lies there, over links too, from the front and
without emptying it. The copies hold the images just when images of one place
are the same, nothing longer lies there, and no copy takes the place of another
image.
-/

namespace MetaDigi.FlashStaging

open CStrings SystemProgram SystemRuns FlashTypes FlashInit FlashTransfer FlashMain FlashWorld
open FlashEffects FlashDevice FlashRecords FlashRuns Prog

/-- The entries of a record that copying or summing its image changes. -/
structure Staging where
  /-- The file that is flashed. -/
  szImageFileName : Path
  /-- The checksum. -/
  uiCRC32 : Crc
  /-- There is one. -/
  cChecksumSet : Bool
  /-- It has been calculated. -/
  cChecksumCalculated : Bool
  /-- Clean markers have been reported. -/
  cAlreadyPrintedVerifyWarning : Bool

/-- A record with these entries changed. -/
def restaged (pMtd : MtdPartition) (x : Staging) : MtdPartition :=
  { pMtd with
    szImageFileName := x.szImageFileName
    uiCRC32 := x.uiCRC32
    cChecksumSet := x.cChecksumSet
    cChecksumCalculated := x.cChecksumCalculated
    cAlreadyPrintedVerifyWarning := x.cAlreadyPrintedVerifyWarning }

/-- A record whose image has been copied to a file, or summed where it is; a
checksum that was set is kept. -/
def Restaged (name : Path) (pMtd q : MtdPartition) : Prop :=
  ∃ x, q = restaged pMtd x ∧ x.szImageFileName = name ∧
    (pMtd.cChecksumSet = true →
      x.uiCRC32 = pMtd.uiCRC32 ∧ x.cChecksumCalculated = pMtd.cChecksumCalculated)

/-- What is left of a record that has been copied or summed. -/
theorem Restaged.kept {name : Path} {p q : MtdPartition} (h : Restaged name p q) :
    q.szImageFileName = name ∧ q.iFileSize = p.iFileSize ∧
      (FlashedExternally q ↔ FlashedExternally p) := by
  obtain ⟨x, rfl, hname, -⟩ := h
  exact ⟨hname, rfl, Iff.rfl⟩

/-- The calls that copying and summing consist of. -/
def Copying : Op → Prop
  | .malloc _ => True
  | .statfs _ => True
  | .openSrc _ => True
  | .readSrc _ => True
  | .closeSrc => True
  | .openDst _ => True
  | .writeDst _ => True
  | .closeDst => True
  | _ => False

section Calls

variable (g : Globals) (pMtd : MtdPartition)

/-- Looking into a block issues no call at all. -/
theorem verifyIfJFFS2_silent (pucData : Bytes) (iSize : ℕ) :
    (verifyIfJFFS2 pMtd pucData iSize).Sat (fun _ => False) AnyReason (Warned pMtd) := by
  unfold verifyIfJFFS2
  split
  · unfold mtdPartVerifyJFFS2Block
    split
    · exact sat_ret (.refl _)
    · dsimp only
      split
      · split
        · exact sat_exit trivial
        · exact sat_ret ⟨_, rfl⟩
      · split
        · exact sat_exit trivial
        · split
          · exact sat_exit trivial
          · exact sat_ret (.refl _)
  · exact sat_ret (.refl _)

/-- Keeping or comparing a checksum issues no call either. -/
theorem setOrCompareCRC32_silent (inside : Func) (uiCRC32 : Crc) :
    (setOrCompareCRC32 inside pMtd uiCRC32).Sat (fun _ => False) AnyReason
      (Restaged pMtd.szImageFileName pMtd) := by
  unfold setOrCompareCRC32 mtdPartCompareCRC32
  split
  · split
    · exact sat_exit trivial
    · exact sat_ret ⟨⟨_, _, _, _, _⟩, rfl, rfl, fun _ => ⟨rfl, rfl⟩⟩
  · rename_i hunset
    exact sat_ret ⟨⟨_, _, _, _, _⟩, rfl, rfl, fun hset => absurd hset hunset⟩

/-- A warning does not count. -/
theorem restaged_of_warned {pMtd q r : MtdPartition} {name : Path} (hq : Warned pMtd q)
    (hr : Restaged name q r) : Restaged name pMtd r := by
  obtain ⟨v, hq⟩ := hq
  obtain ⟨x, hr, hname, hsum⟩ := hr
  rw [hq] at hr hsum
  exact ⟨x, hr, hname, hsum⟩

/-- Reading a whole image. -/
theorem fileLoop_copies {inside : Func} {use : Bytes → Flash Unit} (fuel : ℕ)
    (huse : ∀ bytes, (use bytes).Sat Copying AnyReason AnyResult) (st : FileState)
    (hst : Warned pMtd st.pMtd) :
    (Prog.loop (filePass inside use) fuel st).Sat Copying AnyReason
      (fun st => Warned pMtd st.pMtd) := by
  refine Sat.loop (I := fun st => Warned pMtd st.pMtd) (fun st hst => ?_) fuel hst
  unfold filePass
  refine sat_sysOrFail_andThen trivial trivial fun _ bytes _ => ?_
  split
  · exact hst
  · refine Sat.andThen ((verifyIfJFFS2_silent st.pMtd _ _).mono (fun _ => False.elim)
      (fun _ h => h) fun _ h => h) fun q hq => ?_
    exact Sat.andThen (huse _) fun _ _ => hst.trans hq

/-- Copying an image. -/
theorem mtdPartCopyFile_copies (szDstFileName : Path) :
    (mtdPartCopyFile g pMtd szDstFileName).Sat Copying AnyReason
      (fun q => ∃ name, Restaged name pMtd q) := by
  unfold mtdPartCopyFile
  refine sat_sysOrFail_andThen trivial trivial fun _ pucBuffer _ => ?_
  refine sat_sysOrFail_andThen trivial trivial fun _ _ _ => ?_
  refine sat_sysOrFail_andThen trivial trivial fun _ _ _ => ?_
  have huse : ∀ bytes, (writeDstOrFail bytes).Sat Copying AnyReason AnyResult := fun bytes =>
    sat_forget (sat_sysOrFail trivial trivial)
  refine Sat.andThen (fileLoop_copies pMtd g.fuel huse _ (.refl pMtd)) fun st hst => ?_
  refine sat_sysOrFail_andThen trivial trivial fun _ _ _ => ?_
  refine sat_sysOrFail_andThen trivial trivial fun _ _ _ => ?_
  split
  · exact sat_exit trivial
  · exact (setOrCompareCRC32_silent st.pMtd _ _).mono (fun _ => False.elim) (fun _ h => h)
      fun q hq => ⟨_, restaged_of_warned hst hq⟩

/-- Summing an image. -/
theorem mtdPartVerifyFile_copies :
    (mtdPartVerifyFile g pMtd).Sat Copying AnyReason (Restaged pMtd.szImageFileName pMtd) := by
  unfold mtdPartVerifyFile
  refine sat_sysOrFail_andThen trivial trivial fun _ pucBuffer _ => ?_
  refine sat_sysOrFail_andThen trivial trivial fun _ _ _ => ?_
  have huse : ∀ bytes : Bytes, (return () : Flash Unit).Sat Copying AnyReason AnyResult :=
    fun _ => trivial
  refine Sat.andThen (fileLoop_copies pMtd g.fuel huse _ (.refl pMtd)) fun st hst => ?_
  refine sat_sysOrFail_andThen trivial trivial fun _ _ _ => ?_
  have hname : st.pMtd.szImageFileName = pMtd.szImageFileName := by
    obtain ⟨v, hst⟩ := hst
    rw [hst]
  refine (setOrCompareCRC32_silent st.pMtd _ _).mono (fun _ => False.elim) (fun _ h => h)
    fun q hq => ?_
  rw [← hname]
  exact restaged_of_warned hst hq

/-- Copying an image and using the copy. -/
theorem stageFile_copies (szTmpDir : Path) :
    (stageFile g szTmpDir pMtd).Sat Copying AnyReason
      (Restaged (tmpFileName szTmpDir pMtd.szImageFileName) pMtd) := by
  refine Sat.andThen (mtdPartCopyFile_copies g pMtd _) fun q hq => ?_
  obtain ⟨name, x, hq, -, hsum⟩ := hq
  refine sat_ret ⟨{ x with
    szImageFileName := tmpFileName szTmpDir pMtd.szImageFileName }, ?_, rfl, hsum⟩
  rw [hq]
  rfl

/-- What is flashed for a record: the copy if there is a temporary directory,
or else the image itself. -/
def flashedName (pMtd : MtdPartition) : Path :=
  match g.szTmpDir with
  | some szTmpDir => tmpFileName szTmpDir pMtd.szImageFileName
  | none => pMtd.szImageFileName

/-- Copying or summing all images. -/
theorem checkFiles_copies (parts : List MtdPartition) :
    (checkFiles g parts).Sat Copying AnyReason
      (List.Forall₂ (fun p q => Restaged (flashedName g p) p q) parts) := by
  unfold checkFiles flashedName
  cases g.szTmpDir with
  | some szTmpDir =>
    have hlook : ∀ o, o = .statfs szTmpDir → Copying o := fun o ho => by
      rw [ho]
      trivial
    refine Sat.andThen ((verifyTmpDir_sat szTmpDir).mono hlook (fun _ h => h) fun _ h => h)
      fun _ _ => ?_
    exact Sat.mapList fun pMtd _ => stageFile_copies g pMtd szTmpDir
  | none =>
    dsimp only
    split
    · exact Sat.mapList fun pMtd _ => mtdPartVerifyFile_copies g pMtd
    · exact sat_ret (List.forall₂_same.mpr fun pMtd _ =>
        ⟨⟨_, _, _, _, _⟩, rfl, rfl, fun _ => ⟨rfl, rfl⟩⟩)

end Calls

section Copied

/-- A file over which the first bytes of another one have been written. -/
def copied (old content : Bytes) (pos : ℕ) : Bytes := content.take pos ++ old.drop pos

variable (old content : Bytes)

/-- A whole file has been copied. -/
theorem copied_length : copied old content content.length = content ++ old.drop content.length := by
  rw [copied, List.take_length]

/-- The next bytes are written behind those that are there. -/
theorem overlay_copied {pos : ℕ} (hpos : pos ≤ content.length) {bytes : Bytes}
    (hnext : bytes <+: content.drop pos) :
    overlay (copied old content pos) pos bytes = copied old content (pos + bytes.length) := by
  have hfront : (content.take pos).length = pos := List.length_take_of_le hpos
  have htake : (content.drop pos).take bytes.length = bytes :=
    (List.prefix_iff_eq_take.mp hnext).symm
  unfold overlay copied
  rw [List.take_left' hfront, List.drop_append, hfront, List.take_add, htake, List.drop_drop,
    Nat.add_sub_cancel_left,
    List.drop_of_length_le (l := content.take pos) (hfront.trans_le (Nat.le_add_right ..)),
    List.nil_append]

end Copied

section Contents

variable {env : Env} {g : Globals} {pMtd : MtdPartition} {w w' : World}

/-- Nobody else changes the files before a call. -/
theorem files_enter (hstill : Still env) (w : World) : (w.enter env).files = w.files := hstill _ _

/-- The contents of a file that is there, or nothing. -/
def contents (files : Files) (path : Path) : Bytes := (files path).getD []

/-- The names of one file hold the same. -/
def Linked (link : Path → Path) (files : Files) : Prop :=
  ∀ path path', link path = link path' → files path = files path'

/-- They still do when the file has been written. -/
theorem Linked.set {link : Path → Path} {files : Files} (h : Linked link files) (path : Path)
    (content : Option Bytes) : Linked link (setLinked link files path content) := by
  intro q q' hq
  simp only [setLinked, hq, h q q' hq]

variable {files : Files} {image copy : Path} {content : Bytes} {st : FileState}

end Contents

section Names

end Names

section Staged

variable {env : Env} {g : Globals} {szTmpDir : Path} {parts : List MtdPartition} {files : Files}
  {w w' : World}

/-- A copy takes the place of an image only when they are the same. -/
def Apart (link : Path → Path) (szTmpDir : Path) (parts : List MtdPartition) (files : Files) :
    Prop :=
  ∀ p ∈ parts, ∀ q ∈ parts,
    link (tmpFileName szTmpDir p.szImageFileName) = link q.szImageFileName →
      files p.szImageFileName = files q.szImageFileName

/-- The image of a record is there, in the size that the record has. -/
def Imaged (files : Files) (p : MtdPartition) : Prop :=
  (files p.szImageFileName).map List.length = some p.iFileSize

/-- The names of a file go on holding the same, and files only grow. -/
structure Grown (link : Path → Path) (files after : Files) : Prop where
  /-- The names of one file hold the same. -/
  linked : Linked link after
  /-- No file is shorter. -/
  longer : ∀ path, (contents files path).length ≤ (contents after path).length

/-- Other contents that are not shorter. -/
theorem Grown.set {link : Path → Path} {files after : Files} (h : Grown link files after)
    {path : Path} {content : Bytes} (hle : (contents after path).length ≤ content.length) :
    Grown link files (setLinked link after path (some content)) := by
  refine ⟨h.linked.set path _, fun q => (h.longer q).trans ?_⟩
  by_cases hq : link q = link path
  · rw [contents, h.linked q path hq]
    simpa [contents, setLinked, hq] using hle
  · simp [contents, setLinked, hq]

end Staged

end MetaDigi.FlashStaging
