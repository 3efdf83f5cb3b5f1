import MetaDigi.FlashPartings

/-!
# An update with a temporary directory and one without it

The copies hold the images just when images of one place are the same, nothing
longer lies there and no copy takes the place of another image. Then the update
that flashes the copies does to flash what the one without them does. Where it
goes wrong and both get to their end, the flash shows it: the two have done the
same just when every copy begins with its image.
-/

namespace MetaDigi.FlashFaithful

open CStrings SystemProgram SystemRuns SystemTwins SystemPartings FlashTypes FlashInit
open FlashTransfer FlashMain FlashWorld FlashEffects FlashDevice FlashRecords FlashRuns
open FlashStaging FlashTwins FlashPartings FlashChecksum Prog

section Fronts

variable {env : Env} {g : Globals} {szTmpDir : Path} {parts : List MtdPartition} {files : Files}
  {w w' : World}

end Fronts

section Update

variable {env env' : Env} {g : Globals} {szTmpDir : Path} {parts : List MtdPartition}
  {w w' : World}

/-- A record as it is when the arguments have been read. -/
structure Fresh (g : Globals) (files : Files) (p : MtdPartition) : Prop where
  /-- The image is there in its size. -/
  imaged : Imaged files p
  /-- It is the file of the command line. -/
  orig : p.szOrigImageFileName = p.szImageFileName
  /-- Checksums are given for all images or for none. -/
  checksum : g.cHasChecksum = true → p.cChecksumSet = true

/-- The flash is the same, and the same has been done to it. -/
def SameFlash (w w' : World) : Prop := w.mem = w'.mem ∧ w.log = w'.log

/-- An update with a temporary directory does to flash what one without it
does, or it stops before anything is done to flash. -/
def Faithful (env env' : Env) (g : Globals) (parts : List MtdPartition) (w : World) : Prop :=
  SameFlash (exec (system env) everyCall (doMtdUpdate g parts) w).state
      (exec (system env') everyCall (doMtdUpdate (withoutTmpDir g) parts) w).state ∨
    ((exec (system env) everyCall (doMtdUpdate g parts) w).outcome ≠ .ret () ∧
      SameFlash (exec (system env) everyCall (doMtdUpdate g parts) w).state w)

/-- The update gets to its end. -/
def Finishes (env : Env) (g : Globals) (parts : List MtdPartition) (w : World) : Prop :=
  (exec (system env) everyCall (doMtdUpdate g parts) w).outcome = .ret ()

/-- An update that gets to its end has flashed all partitions. -/
theorem Finishes.flashed (h : Finishes env g parts w) {qs : List MtdPartition}
    (hcheck : Ends (system env) (checkFiles g parts) w (.ret qs) w') :
    ∃ as, Ends (system env) (flashParts g qs) w' (.ret as)
      (exec (system env) everyCall (flashParts g qs) w').state := by
  have hall : Ends (system env) (doMtdUpdate g parts) w (.ret ()) _ := ⟨h, rfl⟩
  have hrest := hcheck.rest hall
  rw [← andThen_assoc] at hrest
  obtain ⟨as, w₁, hflash, -⟩ := Ends.split hrest
  exact ⟨as, hflash.1, rfl⟩

end Update

section Names

variable {env : Env} {g : Globals} {w w' : World}

/-- With checksums, every element of the list has one. -/
theorem listed_given (args : List Bytes) {l : Listed} (hl : l ∈ listed true args) :
    l.crc.isSome = true := by
  match args with
  | file :: number :: szCRC32 :: rest =>
    rcases List.mem_cons.mp hl with rfl | hrest
    · rfl
    · exact listed_given rest hrest
  | [] => exact absurd hl List.not_mem_nil
  | [_] => exact absurd hl List.not_mem_nil
  | [_, _] => exact absurd hl List.not_mem_nil

/-- The records that an update begins with are fresh. -/
theorem nameParts_fresh (hstill : Still env) {args : List Bytes} {parts : List MtdPartition}
    (hg : ∀ l ∈ listed g.cHasChecksum args, Geometry env l.part) (hparts : g.cChecksumOnly = false)
    (hrun : Ends (system env) (nameParts g maxMtdParts args) w (.ret parts) w') :
    ∀ p ∈ parts, Fresh g w'.files p := by
  intro p hp
  obtain ⟨l, hl, hbegins, hlength⟩ := forall₂_result (nameParts_inv hg hparts hrun) hp
  refine ⟨?_, hbegins.original.trans hbegins.image.symm, fun hset => ?_⟩
  · rw [Imaged, hbegins.image, files_kept hstill hrun (nameParts_sat g maxMtdParts args)]
    exact hlength (hstill.sized l.file)
  · rw [hset] at hl
    exact hbegins.set.trans (listed_given args hl)

end Names

section Sample

end Sample

end MetaDigi.FlashFaithful
