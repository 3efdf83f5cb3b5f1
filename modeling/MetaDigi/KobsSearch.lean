import Mathlib.Data.List.Basic
import Mathlib.Tactic.Ring
import MetaDigi.CStrings

/-!
# Searching for a boot structure

`mtd_read_bcb` reads the strides of two groups of search areas until one can be
read. What it finds only ends the innermost of its loops: the areas behind are
read all the same, and what was read last is what it returns. So the result is
told from the last area alone.
-/

namespace MetaDigi.KobsSearch

open CStrings

/-- The geometry of the flash and of the search areas. -/
structure MtdData where
  /-- `m_u32RomVer` is `ROM_Version_2`. -/
  romVersion2 : Bool
  /-- `mtd_erasesize`. -/
  erasesize : ℕ
  /-- `mtd_writesize`. -/
  writesize : ℕ
  /-- `mtd_oobsize`. -/
  oobsize : ℕ
  /-- `PAGES_PER_STRIDE`. -/
  pagesPerStride : ℕ
  /-- `cfg.search_exponent`. -/
  searchExponent : ℕ
  /-- `multichip`. -/
  multichip : Bool

/-- The arguments of `mtd_read_bcb`. -/
structure ReadArgs where
  /-- `ofs1`. -/
  ofs1 : ℤ
  /-- `ofs2`. -/
  ofs2 : ℤ
  /-- `ofs_mchip`. -/
  ofsMchip : ℤ
  /-- `end`, a number of search areas. -/
  limit : ℤ
  /-- `size`, which is small enough for its comparison with an `int`. -/
  size : ℕ
  /-- `ecc`. -/
  ecc : Bool

/-- A point in the course of the loops. -/
structure When where
  /-- The group of search areas, 0 or 1. -/
  i : ℕ
  /-- The search areas of the group before. -/
  area : ℕ
  /-- The stride. -/
  j : ℕ

/-- What `mtd_read_page` returns, and `md->buf` after it. -/
structure Read where
  /-- `r`. -/
  r : ℤ
  /-- `md->buf`. -/
  buf : Bytes
  deriving DecidableEq

/-- `mtd_read_page`: what comes of reading a page of a chip, with or without
`ecc`. It may be something else each time. -/
abbrev ReadPage := When → (chip : ℕ) → (o : ℤ) → (ecc : Bool) → Read

section Functions

variable (md : MtdData) (args : ReadArgs) (mtdReadPage : ReadPage)

/-- `stride_size_in_bytes`. -/
def MtdData.strideSizeInBytes : ℕ :=
  if md.romVersion2 then md.erasesize else md.pagesPerStride * md.writesize % 2 ^ 32

/-- `search_area_size_in_strides`. -/
def MtdData.searchAreaSizeInStrides : ℕ :=
  if md.romVersion2 then 4 else 2 ^ md.searchExponent % 2 ^ 32

/-- `search_area_size_in_bytes`. -/
def MtdData.searchAreaSizeInBytes : ℕ :=
  md.searchAreaSizeInStrides * md.strideSizeInBytes % 2 ^ 32

/-- `search_area_indices` before the loops. -/
def searchAreaIndex (i : ℕ) : ℤ :=
  if md.multichip then args.ofsMchip else if i = 0 then args.ofs1 else args.ofs2

/-- The chip that is read. -/
def chipOf (i : ℕ) : ℕ := if md.multichip then i else 0

/-- The loop over the strides of a search area. It is left when a page has been
read. -/
def readStrides (i area : ℕ) : ℕ → ℕ → ℤ → Read → Read
  | 0, _, _, st => st
  | left + 1, j, o, _ =>
    let st := mtdReadPage ⟨i, area, j⟩ (chipOf md i) o args.ecc
    if st.r ≠ args.size then readStrides i area left (j + 1) (o + md.strideSizeInBytes) st
    else st

/-- The loop over the search areas of a group. -/
def readAreas (i : ℕ) : ℕ → ℕ → Read → Read
  | 0, _, st => st
  | left + 1, area, st =>
    let o := (searchAreaIndex md args i + area) * md.searchAreaSizeInBytes
    readAreas i left (area + 1)
      (readStrides md args mtdReadPage i area md.searchAreaSizeInStrides 0 o st)

/-- The number of search areas in a group. -/
def ReadArgs.areas : ℕ := args.limit.toNat

/-- `mtd_read_bcb`: what it returns, and `md->buf` after it. Where nothing is
read, `r` is what happens to be there. -/
def mtdReadBcb (st : Read) : ℕ × Bytes :=
  let st := readAreas md args mtdReadPage 0 args.areas 0 st
  let st := readAreas md args mtdReadPage 1 args.areas 0 st
  (if st.r = args.size then 0 else 1, st.buf)

/-- What the strides of a search area bring, whether they are read or not. -/
def stridesOf (i area : ℕ) : List Read :=
  (List.range md.searchAreaSizeInStrides).map fun j =>
    mtdReadPage ⟨i, area, j⟩ (chipOf md i)
      ((searchAreaIndex md args i + area) * md.searchAreaSizeInBytes + j * md.strideSizeInBytes)
      args.ecc

/-- What the search areas of a group bring. -/
def areasOf (i : ℕ) : List (List Read) :=
  (List.range args.areas).map (stridesOf md args mtdReadPage i)

/-- The search areas of both groups, in order. -/
def allAreas : List (List Read) := areasOf md args mtdReadPage 0 ++ areasOf md args mtdReadPage 1

/-- A page has been read with exactly so many bytes. -/
def ReadArgs.full (st : Read) : Bool := st.r = args.size

/-- What `mtd_read_bcb` is for: it succeeds just when some stride can be read,
and the page is that of the first one. -/
def FallsBack (result : ℕ × Bytes) : Prop :=
  (result.1 = 0 ↔ ∃ st ∈ (allAreas md args mtdReadPage).flatten, args.full st) ∧
    (result.1 = 0 → ∃ st, (allAreas md args mtdReadPage).flatten.find? args.full = some st ∧
      result.2 = st.buf)

/-- The page of the first stride that can be read. -/
def firstPage (strides : List Read) : Option Bytes := (strides.find? args.full).map Read.buf

end Functions

section Searching

variable {α : Type} (good : α → Bool)

/-- What is left of a search through a list that goes on until something is
good. -/
def leftBy (st : α) (xs : List α) : α := (xs.find? good).getD (xs.getLastD st)

theorem leftBy_cons {st x : α} {xs : List α} :
    leftBy good st (x :: xs) = if good x then x else leftBy good x xs := by
  unfold leftBy
  rw [List.find?_cons]
  cases hx : good x with
  | true => rfl
  | false => rw [List.getLastD_cons]; rfl

/-- A list that is not empty leaves nothing of what was there before. -/
theorem leftBy_ne_nil {xs : List α} (hne : xs ≠ []) (st : α) :
    leftBy good st xs = (xs.find? good).getD (xs.getLast hne) := by
  rw [leftBy, List.getLastD_eq_getLast?, List.getLast?_eq_getLast_of_ne_nil hne]
  rfl

/-- One search after the other: the last one decides. -/
theorem foldl_leftBy_concat (st : α) (xss : List (List α)) {last : List α} (hne : last ≠ []) :
    (xss ++ [last]).foldl (leftBy good) st = (last.find? good).getD (last.getLast hne) := by
  rw [List.foldl_append]
  exact leftBy_ne_nil good hne _

/-- Searches through nothing. -/
theorem foldl_leftBy_nil (st : α) {xss : List (List α)} (h : ∀ xs ∈ xss, xs = []) :
    xss.foldl (leftBy good) st = st := by
  induction xss with
  | nil => rfl
  | cons xs xss ih =>
    rw [List.foldl_cons, h xs (List.mem_cons_self ..)]
    exact ih fun ys hys => h ys (List.mem_cons_of_mem _ hys)

end Searching

section Loops

variable (md : MtdData) (args : ReadArgs) (mtdReadPage : ReadPage)

theorem readStrides_eq (i area left j : ℕ) (o : ℤ) (st : Read) :
    readStrides md args mtdReadPage i area left j o st =
      leftBy args.full st ((List.range left).map fun k =>
        mtdReadPage ⟨i, area, j + k⟩ (chipOf md i) (o + k * md.strideSizeInBytes) args.ecc) := by
  induction left generalizing j o st with
  | zero => rfl
  | succ left ih =>
    have hrest : (List.range left).map (fun k => mtdReadPage ⟨i, area, j + (k + 1)⟩ (chipOf md i)
        (o + ((k + 1 : ℕ) : ℤ) * md.strideSizeInBytes) args.ecc) =
        (List.range left).map fun k => mtdReadPage ⟨i, area, j + 1 + k⟩ (chipOf md i)
          (o + md.strideSizeInBytes + k * md.strideSizeInBytes) args.ecc := by
      refine List.map_congr_left fun k _ => ?_
      have hj : j + (k + 1) = j + 1 + k := by omega
      have ho : o + ((k + 1 : ℕ) : ℤ) * md.strideSizeInBytes =
          o + md.strideSizeInBytes + k * md.strideSizeInBytes := by
        push_cast
        ring
      rw [hj, ho]
    rw [readStrides, List.range_succ_eq_map, List.map_cons, List.map_map, leftBy_cons]
    have hfirst : o + ((0 : ℕ) : ℤ) * md.strideSizeInBytes = o := by
      rw [Nat.cast_zero, zero_mul, add_zero]
    rw [hfirst]
    by_cases hfull : (mtdReadPage ⟨i, area, j⟩ (chipOf md i) o args.ecc).r = args.size
    · rw [if_neg (not_not.mpr hfull)]
      exact (if_pos (decide_eq_true hfull)).symm
    · rw [if_pos hfull, ih]
      refine Eq.trans ?_ (if_neg (by
        show ¬ decide _ = true
        rw [decide_eq_true_eq]
        exact hfull)).symm
      exact congrArg (leftBy args.full _) hrest.symm

/-- The loops over the areas of a group search through what they bring. -/
theorem readAreas_eq (i left area : ℕ) (st : Read) :
    readAreas md args mtdReadPage i left area st =
      ((List.range left).map fun k => stridesOf md args mtdReadPage i (area + k)).foldl
        (leftBy args.full) st := by
  induction left generalizing area st with
  | zero => rfl
  | succ left ih =>
    rw [readAreas, ih, List.range_succ_eq_map, List.map_cons, List.map_map, List.foldl_cons,
      readStrides_eq, stridesOf]
    have hzero : ∀ k, 0 + k = k := Nat.zero_add
    have hnext : ∀ k, area + 1 + k = area + (k + 1) := fun k => by omega
    simp only [hzero, hnext, Nat.add_zero, Function.comp_def, Nat.succ_eq_add_one]

/-- What the loops leave when all areas have been gone through. -/
theorem mtdReadBcb_eq (st : Read) :
    mtdReadBcb md args mtdReadPage st =
      (if ((allAreas md args mtdReadPage).foldl (leftBy args.full) st).r = args.size then 0 else 1,
        ((allAreas md args mtdReadPage).foldl (leftBy args.full) st).buf) := by
  have hzero : ∀ k, 0 + k = k := Nat.zero_add
  unfold mtdReadBcb allAreas areasOf
  simp only [List.foldl_append, readAreas_eq, hzero]

/-- Every area has the same number of strides. -/
theorem length_stridesOf (i area : ℕ) :
    (stridesOf md args mtdReadPage i area).length = md.searchAreaSizeInStrides := by
  rw [stridesOf, List.length_map, List.length_range]

theorem length_of_mem_allAreas {strides : List Read}
    (h : strides ∈ allAreas md args mtdReadPage) :
    strides.length = md.searchAreaSizeInStrides := by
  rcases List.mem_append.mp h with h | h
  all_goals
    obtain ⟨area, -, harea⟩ := List.mem_map.mp h
    rw [← harea, length_stridesOf]

end Loops

section Results

variable (md : MtdData) (args : ReadArgs) (mtdReadPage : ReadPage)

/-- The strides of the search area that is searched last. -/
def lastArea : List Read := (allAreas md args mtdReadPage).getLastD []

/-- The loops leave the first full page of the last area, or a page that is not
full. -/
theorem left_of_strides (st : Read) (hstrides : (allAreas md args mtdReadPage).flatten ≠ []) :
    ∃ out, (allAreas md args mtdReadPage).foldl (leftBy args.full) st = out ∧
      ((lastArea md args mtdReadPage).find? args.full = some out ∨
        (lastArea md args mtdReadPage).find? args.full = none ∧ args.full out = false) := by
  obtain ⟨strides, hmem, hne⟩ := List.flatten_ne_nil_iff.mp hstrides
  obtain ⟨front, last, hall⟩ : ∃ front last, allAreas md args mtdReadPage = front ++ [last] :=
    ⟨_, _, (List.dropLast_concat_getLast (List.ne_nil_of_mem hmem)).symm⟩
  have hlast : last ≠ [] := by
    have hsize := length_of_mem_allAreas md args mtdReadPage hmem
    have hsize' := length_of_mem_allAreas md args mtdReadPage
      (hall ▸ List.mem_append_right front (List.mem_singleton_self last))
    have hpos := List.length_pos_iff.mpr hne
    exact List.length_pos_iff.mp (by omega)
  rw [lastArea, hall, List.getLastD_concat]
  refine ⟨_, foldl_leftBy_concat args.full st front hlast, ?_⟩
  cases hfind : last.find? args.full with
  | some out => exact .inl rfl
  | none =>
    exact .inr ⟨rfl, Bool.eq_false_of_not_eq_true (List.find?_eq_none.mp hfind _
      (List.getLast_mem hlast))⟩

theorem full_iff {out : Read} : args.full out = true ↔ out.r = args.size := by
  rw [ReadArgs.full, decide_eq_true_eq]

/-- `mtd_read_bcb` falls back as it should just when the last search area tells
the same as all of them, or when nothing is read and `r` does not happen to be
the size. -/
theorem mtdReadBcb_fallsBack_iff (st : Read) :
    FallsBack md args mtdReadPage (mtdReadBcb md args mtdReadPage st) ↔
      ((allAreas md args mtdReadPage).flatten = [] → st.r ≠ args.size) ∧
        firstPage args (allAreas md args mtdReadPage).flatten =
          firstPage args (lastArea md args mtdReadPage) := by
  rw [mtdReadBcb_eq]
  by_cases hnone : (allAreas md args mtdReadPage).flatten = []
  · have hempty := foldl_leftBy_nil args.full st (List.flatten_eq_nil_iff.mp hnone)
    have hlast : lastArea md args mtdReadPage = [] := by
      rw [lastArea, List.getLastD_eq_getLast?]
      cases hlast : (allAreas md args mtdReadPage).getLast? with
      | none => rfl
      | some last => exact List.flatten_eq_nil_iff.mp hnone _ (List.mem_of_getLast? hlast)
    rw [FallsBack, hempty, hnone, hlast]
    constructor
    · rintro ⟨hcode, -⟩
      refine ⟨fun _ hr => ?_, rfl⟩
      obtain ⟨_, hmem, -⟩ := hcode.mp (if_pos hr)
      exact absurd hmem List.not_mem_nil
    · rintro ⟨hr, -⟩
      have hcode : (if st.r = args.size then 0 else 1) = 1 := if_neg (hr rfl)
      rw [hcode]
      exact ⟨⟨nofun, fun ⟨_, hmem, _⟩ => absurd hmem List.not_mem_nil⟩, nofun⟩
  · obtain ⟨out, hleft, hout⟩ := left_of_strides md args mtdReadPage st hnone
    rw [hleft, FallsBack, firstPage, firstPage]
    have hexists : (∃ st ∈ (allAreas md args mtdReadPage).flatten, args.full st) ↔
        ((allAreas md args mtdReadPage).flatten.find? args.full).isSome :=
      List.find?_isSome.symm
    rw [hexists]
    rcases hout with hfound | ⟨hnotFound, hbad⟩
    · have hcode : (if out.r = args.size then 0 else 1) = 0 :=
        if_pos ((full_iff args).mp (List.find?_some hfound))
      rw [hcode, hfound, Option.map_some]
      constructor
      · rintro ⟨-, hpage⟩
        obtain ⟨first, hfirst, hbuf⟩ := hpage rfl
        refine ⟨fun h => absurd h hnone, ?_⟩
        rw [hfirst]
        exact congrArg some hbuf.symm
      · rintro ⟨-, hpage⟩
        obtain ⟨first, hfirst, hbuf⟩ := Option.map_eq_some_iff.mp hpage
        exact ⟨iff_of_true rfl (Option.isSome_of_eq_some hfirst), fun _ => ⟨first, hfirst, hbuf.symm⟩⟩
    · have hcode : (if out.r = args.size then 0 else 1) = 1 := if_neg fun hr => by
        rw [(full_iff args).mpr hr] at hbad
        exact absurd hbad nofun
      rw [hcode, hnotFound, Option.map_none, Option.map_eq_none_iff]
      constructor
      · rintro ⟨hfails, -⟩
        refine ⟨fun h => absurd h hnone, ?_⟩
        cases hfirst : (allAreas md args mtdReadPage).flatten.find? args.full with
        | none => rfl
        | some first =>
          rw [hfirst] at hfails
          exact absurd (hfails.mpr rfl) nofun
      · rintro ⟨-, hfails⟩
        rw [hfails]
        exact ⟨iff_of_false nofun nofun, nofun⟩

end Results

/-- Two chips with one search area of a single page each. -/
def twoChips : MtdData where
  romVersion2 := false
  erasesize := 8
  writesize := 2
  oobsize := 1
  pagesPerStride := 4
  searchExponent := 0
  multichip := true

/-- The first page of a chip. -/
def firstCopy : ReadArgs where
  ofs1 := 0
  ofs2 := 0
  ofsMchip := 0
  limit := 1
  size := 2
  ecc := true

/-- The copy on the second chip cannot be read. -/
def secondDamaged : ReadPage := fun _ chip _ _ =>
  if chip = 0 then ⟨2, text "OK"⟩ else ⟨-1, text "??"⟩

/-- A readable first copy is not used when the second one is damaged. -/
theorem mtdReadBcb_second_damaged :
    ¬ FallsBack twoChips firstCopy secondDamaged
      (mtdReadBcb twoChips firstCopy secondDamaged ⟨0, []⟩) := by
  rintro ⟨hcode, -⟩
  have hreadable : ∃ st ∈ (allAreas twoChips firstCopy secondDamaged).flatten,
      firstCopy.full st := ⟨⟨2, text "OK"⟩, by decide, rfl⟩
  exact absurd (hcode.mpr hreadable) (by decide)

section Loading

variable (md : MtdData)

/-- The results of `mtd_load_v1_boot_structures`. -/
structure Loaded where
  /-- What is returned. -/
  err : ℤ
  /-- `md->fcb`. -/
  fcb : Bytes
  /-- `md->dbbt28`. -/
  dbbt28 : Bytes

/-- The call of `mtd_read_bcb` for the FCB. -/
def fcbArgs : ReadArgs where
  ofs1 := 0
  ofs2 := 0
  ofsMchip := 0
  limit := 1
  size := md.writesize + md.oobsize
  ecc := false

/-- The call of `mtd_read_bcb` for the DBBT. -/
def dbbtArgs : ReadArgs where
  ofs1 := 1
  ofs2 := 1
  ofsMchip := 1
  limit := 1
  size := md.writesize
  ecc := true

/-- `mtd_load_v1_boot_structures`. The sizes of the structures, the fingerprint
in one and the fingerprint that it must be are told by other parts of the
tool. -/
def mtdLoadV1BootStructures (sizeofFcb sizeofDbbt28 : ℕ) (fingerPrint : Bytes → ℕ)
    (dbbtFingerprint2 : ℕ) (readFcb readDbbt : ReadPage) (st st' : Read) : Loaded :=
  let (errFcb, buf) := mtdReadBcb md (fcbArgs md) readFcb st
  let fcb := buf.take sizeofFcb
  let (errDbbt, buf) := mtdReadBcb md (dbbtArgs md) readDbbt ⟨st'.r, buf⟩
  let dbbt28 := buf.take sizeofDbbt28
  let err := errFcb ||| errDbbt
  ⟨if err ≠ 0 ∨ fingerPrint dbbt28 ≠ dbbtFingerprint2 then -1 else err, fcb, dbbt28⟩

/-- A single chip that reads the same every time. -/
structure Steady (mtdReadPage : ReadPage) : Prop where
  /-- There is one chip. -/
  multichip : md.multichip = false
  /-- It reads the same every time. -/
  reads : ∀ a b chip o ecc, mtdReadPage a chip o ecc = mtdReadPage b chip o ecc
  /-- A search area has a stride. -/
  strides : md.searchAreaSizeInStrides ≠ 0

/-- On such a chip both groups of search areas can be one, and the search finds
the first page there. -/
theorem mtdReadBcb_single {args : ReadArgs} {mtdReadPage : ReadPage} (st : Read)
    (h : Steady md mtdReadPage) (hone : args.ofs1 = args.ofs2) (hlimit : args.limit = 1) :
    FallsBack md args mtdReadPage (mtdReadBcb md args mtdReadPage st) := by
  have hindex : searchAreaIndex md args 1 = searchAreaIndex md args 0 := by
    unfold searchAreaIndex
    rw [h.multichip, hone]
    rfl
  have hchip : chipOf md 1 = chipOf md 0 := by
    unfold chipOf
    rw [h.multichip]
    rfl
  have hsame : stridesOf md args mtdReadPage 1 0 = stridesOf md args mtdReadPage 0 0 := by
    unfold stridesOf
    rw [hindex, hchip]
    exact List.map_congr_left fun j _ => h.reads ..
  have hareas : args.areas = 1 := by
    rw [ReadArgs.areas, hlimit]
    rfl
  have hall : allAreas md args mtdReadPage =
      [stridesOf md args mtdReadPage 0 0, stridesOf md args mtdReadPage 0 0] := by
    unfold allAreas areasOf
    rw [hareas, ← hsame]
    exact congrArg (fun strides => [strides, _]) hsame.symm
  rw [mtdReadBcb_fallsBack_iff, lastArea, hall]
  constructor
  · intro hnone
    have hempty := List.flatten_eq_nil_iff.mp hnone _ (List.mem_cons_self ..)
    have hlength := length_stridesOf md args mtdReadPage 0 0
    rw [hempty] at hlength
    exact absurd hlength.symm h.strides
  · show firstPage args (_ ++ (_ ++ [])) = firstPage args _
    rw [firstPage, firstPage, List.append_nil, List.find?_append, Option.or_self]
    rfl

/-- A boot structure can be read somewhere. -/
def Readable (args : ReadArgs) (mtdReadPage : ReadPage) : Prop :=
  ∃ st ∈ (allAreas md args mtdReadPage).flatten, args.full st

/-- On such a chip loading succeeds just when both structures can be read and
the fingerprint is right. -/
theorem mtdLoadV1BootStructures_single (sizeofFcb sizeofDbbt28 : ℕ) (fingerPrint : Bytes → ℕ)
    (dbbtFingerprint2 : ℕ) {readFcb readDbbt : ReadPage} (st st' : Read)
    (hfcb : Steady md readFcb) (hdbbt : Steady md readDbbt) :
    let out := mtdLoadV1BootStructures md sizeofFcb sizeofDbbt28 fingerPrint dbbtFingerprint2
      readFcb readDbbt st st'
    out.err = 0 ↔ Readable md (fcbArgs md) readFcb ∧ Readable md (dbbtArgs md) readDbbt ∧
      fingerPrint out.dbbt28 = dbbtFingerprint2 := by
  have hf : _ ↔ Readable md (fcbArgs md) readFcb := (mtdReadBcb_single md st hfcb rfl rfl).1
  have hd : _ ↔ Readable md (dbbtArgs md) readDbbt := (mtdReadBcb_single md
    ⟨st'.r, (mtdReadBcb md (fcbArgs md) readFcb st).2⟩ hdbbt rfl rfl).1
  rw [← hf, ← hd]
  dsimp only [mtdLoadV1BootStructures]
  split
  · rename_i hbad
    refine iff_of_false nofun fun ⟨hfcb, hdbbt, hprint⟩ => ?_
    rw [hfcb, hdbbt] at hbad
    exact hbad.elim (fun h => h rfl) fun h => h hprint
  · rename_i hgood
    obtain ⟨herr, hprint⟩ := not_or.mp hgood
    have hzero := Nat.or_eq_zero_iff.mp (not_not.mp herr)
    exact iff_of_true (by rw [not_not.mp herr]; rfl) ⟨hzero.1, hzero.2, not_not.mp hprint⟩

end Loading

end MetaDigi.KobsSearch
