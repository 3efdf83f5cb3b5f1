import MetaDigi.SystemHistories
import MetaDigi.CStrings

/-!
# Committing boot structures with kobs-ng

The functions that write the boot structures and the boot streams, with the
option to read back what has been written. Only the parts that the patch for
this option shows are written out. The loops over areas, strides and pages
around them, and what is tested there, belong to code that is not shown; they
are taken as they come.
-/

namespace MetaDigi.KobsCommit

open CStrings SystemProgram Prog

/-- The operations of the tool. -/
inductive KobsOp where
  /-- `malloc` of the buffer for reading back. -/
  | malloc (size : ℕ)
  /-- `free` of this buffer. -/
  | free
  /-- `mtd_erase_block`. -/
  | mtdEraseBlock (chip ofs : ℕ)
  /-- `mtd_write_page` of `md->buf`, answered by the number of bytes written. -/
  | mtdWritePage (chip ofs : ℕ) (ecc : Bool) (buf : Bytes)
  /-- `pread`, answered by its result and by what the buffer holds then. -/
  | pread (chip count ofs : ℕ)
  /-- `fread`, answered by its result and by what `md->buf` holds then. -/
  | fread (chunk : ℕ)
  /-- `fcb_encrypt`, answered by its result and by what `md->buf` holds then. -/
  | fcbEncrypt (size : ℕ)
  /-- Any other call of the code that is not shown. -/
  | upstream (n : ℕ)
  deriving DecidableEq

/-- What an operation is answered with. -/
abbrev KobsResp : KobsOp → Type
  | .malloc _ => Bool
  | .free => Unit
  | .mtdEraseBlock _ _ => ℤ
  | .mtdWritePage _ _ _ _ => ℤ
  | .pread _ _ _ => ℤ × Bytes
  | .fread _ => ℤ × Bytes
  | .fcbEncrypt _ => ℤ × Bytes
  | .upstream _ => ℤ

/-- A part of the tool. -/
abbrev Kobs := Prog KobsOp KobsResp Empty

/-- Issue an operation. -/
abbrev kobsCall (o : KobsOp) : Kobs (KobsResp o) := Prog.perform o

/-- What the loops do next. -/
inductive Step (Page : Type) where
  /-- They erase a block. -/
  | eraseBlock (chip ofs : ℕ)
  /-- They come to a page. -/
  | page (p : Page)
  /-- They call something else. -/
  | upstream (n : ℕ)

/-- Loops that have not been written out: each step is answered by a number,
and the next one may depend on it. -/
abbrev Loops (Page α : Type) := Prog (Step Page) (fun _ => ℤ) Empty α

/-- A page of a boot structure. -/
structure BcbPage where
  /-- The chip. -/
  chip : ℕ
  /-- `o`: where the page is. -/
  o : ℕ

/-- A page of a boot stream. -/
structure StreamPage where
  /-- The chip. -/
  chip : ℕ
  /-- `ofs`: where the page is. -/
  ofs : ℕ
  /-- `chunk`: how much of the file goes to it. -/
  chunk : ℕ

/-- Where the pages of a boot stream end. -/
structure StreamEnd where
  /-- The chip. -/
  chip : ℕ
  /-- `ofs`: behind the last page. -/
  ofs : ℕ
  /-- `end`: the limit. -/
  limit : ℕ

/-- The boot structures that `mtd_commit_bcb` is called for. -/
inductive BcbName where
  /-- `"FCB"`. -/
  | fcb
  /-- `"DBBT"`. -/
  | dbbt
  deriving DecidableEq

/-- The arguments of `mtd_commit_bcb` besides `verify`. -/
structure BcbArgs where
  /-- `bcb_name`. -/
  bcb_name : BcbName
  /-- `ofs1`. -/
  ofs1 : ℕ
  /-- `ofs2`. -/
  ofs2 : ℕ
  /-- `ofs_mchip`. -/
  ofs_mchip : ℕ
  /-- `end`. -/
  limit : ℕ
  /-- `size`. -/
  size : ℕ
  /-- `ecc`. -/
  ecc : Bool

/-- The code that is not shown, and the data that it works on. -/
structure Upstream where
  /-- `mtd_writesize`. -/
  writesize : ℕ
  /-- `mtd_oobsize`. -/
  oobsize : ℕ
  /-- The loops of `mtd_commit_bcb`. -/
  bcbLoops : BcbArgs → Loops BcbPage Unit
  /-- When an erase counts as an error in them. -/
  eraseFailed : ℤ → Bool
  /-- When a write counts as an error in them. -/
  writeFailed : Bool → ℤ → Bool
  /-- The loops of `write_boot_stream` for a stream: they pass over it, with
  some value of `r`, or reach its end. -/
  streamLoops : ℕ → Loops StreamPage (ℤ ⊕ StreamEnd)
  /-- `write_dbbt`. -/
  writeDbbt : Kobs Unit
  /-- Writing the DBBT table area in `v4_rom_mtd_commit_structures`, which may
  return from the function. -/
  tableArea : Kobs (Option ℤ)
  /-- `md->dbbt28`. -/
  dbbt28 : Bytes
  /-- `md->dbbt50`. -/
  dbbt50 : Bytes

section Functions

variable (u : Upstream) (verify : Bool)

/-- A read-back is full and equal to `md->buf`. -/
def Found (buf : Bytes) (back : ℤ × Bytes) : Prop :=
  back.1 = u.writesize ∧ back.2.take u.writesize = buf.take u.writesize

instance (buf : Bytes) (back : ℤ × Bytes) : Decidable (Found u buf back) :=
  inferInstanceAs (Decidable (_ ∧ _))

/-- The verification of a page that has been written: `pread` and `memcmp`. -/
def verifyPage (chip ofs : ℕ) (buf : Bytes) : Kobs Bool := do
  if verify then
    let back ← kobsCall (.pread chip u.writesize ofs)
    return decide (Found u buf back)
  else return true

/-- The loops of `mtd_commit_bcb` with the writing and the verification of a
page: the value of `err` where they are left. -/
def commitLoops (ecc : Bool) (buf : Bytes) : Loops BcbPage Unit → ℕ → Kobs ℕ
  | .ret _, err => return err
  | .exit e, _ => nomatch e
  | .hang, _ => .hang
  | .call (.eraseBlock chip ofs) next, err => do
    let r ← kobsCall (.mtdEraseBlock chip ofs)
    commitLoops ecc buf (next r) (if u.eraseFailed r then err + 1 else err)
  | .call (.upstream n) next, err => do
    let r ← kobsCall (.upstream n)
    commitLoops ecc buf (next r) err
  | .call (.page p) next, err => do
    let r ← kobsCall (.mtdWritePage p.chip p.o ecc buf)
    -- A page that does not read back leads to `err_free` with the errors so far.
    if ← verifyPage u verify p.chip p.o buf then
      commitLoops ecc buf (next r) (if u.writeFailed ecc r then err + 1 else err)
    else return if u.writeFailed ecc r then err + 1 else err

/-- `err_free` of `mtd_commit_bcb`. -/
def commitEnd (err : ℕ) : Kobs ℤ := do
  if verify then
    kobsCall .free
    return if err ≠ 0 then -1 else 0
  else return if err ≠ 0 then -1 else 0

/-- `mtd_commit_bcb`. -/
def mtdCommitBcb (args : BcbArgs) (buf : Bytes) : Kobs ℤ := do
  if verify then
    if ← kobsCall (.malloc u.writesize) then
      commitEnd verify (← commitLoops u verify args.ecc buf (u.bcbLoops args) 0)
    else return -1
  else commitEnd verify (← commitLoops u verify args.ecc buf (u.bcbLoops args) 0)

/-- `md->buf` after `fread`, with the padding. -/
def padded (chunk : ℕ) (got : ℤ × Bytes) : Bytes :=
  if got.1 < chunk then
    got.2.take got.1.toNat ++ List.replicate (chunk - got.1.toNat) 0 ++ got.2.drop chunk
  else got.2

/-- The pages of a boot stream: `r` where `err_free` is reached, or what comes
of the loops. -/
def streamPages : Loops StreamPage (ℤ ⊕ StreamEnd) → Kobs (ℤ ⊕ (ℤ ⊕ StreamEnd))
  | .ret e => return .inr e
  | .exit e => nomatch e
  | .hang => .hang
  | .call (.eraseBlock chip ofs) next => do
    let r ← kobsCall (.mtdEraseBlock chip ofs)
    streamPages (next r)
  | .call (.upstream n) next => do
    let r ← kobsCall (.upstream n)
    streamPages (next r)
  | .call (.page p) next => do
    let got ← kobsCall (.fread p.chunk)
    if got.1 < 0 then return .inl got.1
    else
      let r ← kobsCall (.mtdWritePage p.chip p.ofs true (padded p.chunk got))
      if r ≠ u.writesize then return .inl (-1)
      else if ← verifyPage u verify p.chip p.ofs (padded p.chunk got) then
        streamPages (next got.1)
      else return .inl (-1)

/-- The loop of `write_boot_stream` over the streams, with the page that is
written behind each as a safe guard. -/
def writeStreams : List ℕ → ℤ → Kobs ℤ
  | [], r => return r
  | i :: rest, _ => do
    match ← streamPages u verify (u.streamLoops i) with
    | .inl r => return r
    | .inr (.inl r) => writeStreams rest r
    | .inr (.inr e) =>
      let r ← kobsCall (.mtdWritePage e.chip e.ofs true (List.replicate u.writesize 0))
      if r ≠ u.writesize then return -1
      else if e.ofs ≥ e.limit then return -1
      else writeStreams rest r

/-- `write_boot_stream`. -/
def writeBootStream : Kobs ℤ := do
  if verify then
    if ← kobsCall (.malloc u.writesize) then
      let r ← writeStreams u verify [0, 1] 0
      kobsCall .free
      return r
    else return -1
  else writeStreams u verify [0, 1] 0

/-- The arguments for the FCB: the page is written with its spare area. -/
def fcbArgs : BcbArgs :=
  { bcb_name := .fcb, ofs1 := 0, ofs2 := 0, ofs_mchip := 0, limit := 1,
    size := u.writesize + u.oobsize, ecc := false }

/-- The arguments for the DBBT. -/
def dbbtArgs : BcbArgs :=
  { bcb_name := .dbbt, ofs1 := 1, ofs2 := 1, ofs_mchip := 1, limit := 1,
    size := u.writesize, ecc := true }

/-- `md->buf` with a structure at its front and zeros behind it. -/
def pageOf (bytes : Bytes) : Bytes := bytes ++ List.replicate (u.writesize - bytes.length) 0

/-- What `v1_rom_mtd_commit_structures` and `v4_rom_mtd_commit_structures` have
in common: how they leave after an error with the FCB, the page of the DBBT and
what they do with the table area is their own. -/
def commitStructures (leave : ℤ → ℤ) (dbbt : Bytes) (table : Kobs (Option ℤ)) : Kobs ℤ := do
  let fcb ← kobsCall (.fcbEncrypt (u.writesize + u.oobsize))
  if fcb.1 < 0 then return leave fcb.1
  else
    let r ← mtdCommitBcb u verify (fcbArgs u) fcb.2
    if r < 0 then return leave r
    else
      let r ← mtdCommitBcb u verify (dbbtArgs u) (pageOf u dbbt)
      if r < 0 then return -1
      else
        match ← table with
        | some r => return r
        | none => writeBootStream u verify

/-- `v1_rom_mtd_commit_structures`. -/
def v1RomMtdCommitStructures : Kobs ℤ :=
  commitStructures u verify (fun _ => -1) u.dbbt28 do
    u.writeDbbt
    return none

/-- `v4_rom_mtd_commit_structures`. -/
def v4RomMtdCommitStructures : Kobs ℤ :=
  commitStructures u verify (fun r => r) u.dbbt50 u.tableArea

end Functions

end MetaDigi.KobsCommit
