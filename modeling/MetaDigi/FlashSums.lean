import MetaDigi.FlashRuns
import MetaDigi.FlashVerifying

/-!
# The checksum of what is in flash

A checksum on the command line is held against the image before it is flashed.
`MtdPartWrite` then puts the checksum of what it has read in its place, so that
the check behind it, just as a comparison with `-v`, is one of the flash with
the bytes of the last pass over a file.
-/

namespace MetaDigi.FlashSums

open CStrings SystemProgram SystemRuns FlashTypes FlashInit FlashTransfer FlashMain FlashWorld
open FlashEffects FlashRuns FlashRecords FlashDevice FlashWriting FlashChecksum FlashVerifying
open Crc32 Prog

section Write

variable {env : Env} {g : Globals} {pMtd : MtdPartition} {w w' : World}

/-- A call for a page does not read from a file. -/
theorem respond_paging (failed : Bool) {o : Op} (w : World) (ho : Paging g o) :
    (respond env failed o w).2.lastRead = w.lastRead := by
  cases o <;> first
    | exact ho.elim
    | rfl

/-- Writing a page does not read from a file. -/
theorem read_kept {α : Type} {p : Flash α} {o : Outcome ExitReason α} {X : ExitReason → Prop}
    {R : α → Prop} (hrun : Ends (system env) p w o w') (hp : p.Sat (Paging g) X R) :
    w'.lastRead = w.lastRead :=
  hrun.keeps (I := fun v => v.lastRead = w.lastRead) hp
    (fun q t hq ht => (respond_paging (env.fails t.time q) (t.enter env) hq).trans ht) rfl

/-- One pass of the loop of `MtdPartWrite` sums what it reads. -/
theorem writePass_inv {st : WriteState} {step : WriteState ⊕ WriteState}
    (hsums : pMtd.cChecksumCalculated = false) (hst : st.uiCRC32 = crc32 0 w.lastRead)
    (hrun : Ends (system env) (writePass g pMtd st) w (.ret step) w') :
    Sum.elim (fun st' => st'.uiCRC32 = crc32 0 w'.lastRead)
      (fun st' => st'.uiCRC32 = crc32 0 w'.lastRead) step := by
  have hstep : ∀ st : WriteState, st.uiCRC32 = crc32 0 w'.lastRead → step = st.step pMtd →
      Sum.elim (fun st' => st'.uiCRC32 = crc32 0 w'.lastRead)
        (fun st' => st'.uiCRC32 = crc32 0 w'.lastRead) step := by
    intro st hst hstep
    rw [hstep]
    exact writeState_step_kept (I := fun _ crc => crc = crc32 0 w'.lastRead) pMtd st hst
  obtain ⟨bad, w₁, hask, hrun⟩ := Ends.split hrun
  have hw₁ := (mtdPartIsBadBlock_inv hask).2
  have hread₁ : w₁.lastRead = w.lastRead := by
    rw [hw₁]
    rfl
  cases bad with
  | true =>
    obtain ⟨hresult, hw'⟩ := hrun.pure_inv
    exact hstep st (by rw [hw', hread₁, hst]) hresult
  | false =>
    rw [if_neg Bool.false_ne_true] at hrun
    obtain ⟨bytes, w₂, hread, hrun⟩ := Ends.split hrun
    obtain ⟨path, pos, -, -, hw₂⟩ := readSrc_inv hread
    have hread₂ : w₂.lastRead = w.lastRead ++ bytes.1 := by
      rw [hw₂, ← hread₁]
    split at hrun
    · rename_i hempty
      obtain ⟨hresult, hw'⟩ := hrun.pure_inv
      rw [hresult, hw']
      rw [hempty, List.append_nil] at hread₂
      exact hst.trans (by rw [hread₂])
    · obtain ⟨_, w₃, hpage, hrun⟩ := Ends.split hrun
      obtain ⟨hresult, hw'⟩ := hrun.pure_inv
      refine hstep (st.add pMtd bytes.1) ?_ hresult
      rw [hw', read_kept hpage (writePage_sat g pMtd _ _), hread₂, ← crc32_append, ← hst,
        WriteState.add, hsums]
      rfl

/-- `MtdPartWrite` leaves the checksum of what it has read in the record. -/
theorem mtdPartWrite_inv {q : MtdPartition} (hsums : pMtd.cChecksumCalculated = false)
    (hrun : Ends (system env) (mtdPartWrite g pMtd) w (.ret q) w') :
    q = recordWritten pMtd (crc32 0 w'.lastRead) := by
  obtain ⟨_, w₁, -, hrun⟩ := Ends.split hrun
  obtain ⟨_, w₂, hopen, hrun⟩ := Ends.split hrun
  obtain ⟨_, w₃, hseek, hrun⟩ := Ends.split hrun
  obtain ⟨st, w₄, hloop, hrun⟩ := Ends.split hrun
  obtain ⟨_, w₅, hclose, hrun⟩ := Ends.split hrun
  have hread₃ : w₃.lastRead = [] := by
    rw [(sysOrFail_inv hseek).2, (openSrc_inv hopen).2]
    rfl
  have hsum : st.uiCRC32 = crc32 0 w₄.lastRead :=
    Ends.loop_invariant (I := fun st v => st.uiCRC32 = crc32 0 v.lastRead)
      (Q := fun st v => st.uiCRC32 = crc32 0 v.lastRead)
      (fun st v hst step v' hpass => writePass_inv hsums hst hpass)
      (by rw [hread₃]; rfl) hloop
  split at hrun
  · exact hrun.exit_inv.elim
  · obtain ⟨hq, hw'⟩ := hrun.pure_inv
    have hread₅ : w'.lastRead = w₄.lastRead := by
      rw [hw', (sysOrFail_inv hclose).2]
      rfl
    rw [hq, hsum, hread₅]

end Write

section Part

/-- What is known of a record before its partition is flashed. -/
structure Flashable (env : Env) (p : MtdPartition) : Prop where
  /-- Pages fill erase blocks, and erase blocks fill the partition. -/
  geometry : Geometry env p.uiPartition
  /-- The record describes the partition. -/
  describes : Describes env p
  /-- The image fits. -/
  fits : p.iFileSize ≤ goodBytes env p.uiPartition
  /-- The image keeps its length. -/
  sized : Sized env p.szOrigImageFileName

variable {env : Env} {g : Globals} {pMtd : MtdPartition} {w w' : World}

/-- This stays so for a later record. -/
theorem Flashable.later {q : MtdPartition} (h : Flashable env pMtd) (hq : settled q = settled pMtd) :
    Flashable env q := by
  have hpart : q.uiPartition = pMtd.uiPartition := congrArg (fun r => r.uiPartition) hq
  have hinfo : q.xInfo = pMtd.xInfo := congrArg (fun r => r.xInfo) hq
  have hnand : q.cIsNAND = pMtd.cIsNAND := congrArg (fun r => r.cIsNAND) hq
  have hpage : q.iPageSize = pMtd.iPageSize := congrArg (fun r => r.iPageSize) hq
  have hsize : q.iFileSize = pMtd.iFileSize := congrArg (fun r => r.iFileSize) hq
  have hname : q.szOrigImageFileName = pMtd.szOrigImageFileName :=
    congrArg (fun r => r.szOrigImageFileName) hq
  refine ⟨?_, ⟨?_, ?_, ?_⟩, ?_, ?_⟩
  · rw [hpart]
    exact h.geometry
  · rw [hinfo, hpart]
    exact h.describes.info
  · rw [hnand, hpart]
    exact h.describes.nand
  · rw [hpage, hpart]
    exact h.describes.page
  · rw [hsize, hpart]
    exact h.fits
  · rw [hname]
    exact h.sized

/-- The flash has the checksum of what was read last. -/
def SumsLastRead (env : Env) (p : MtdPartition) (w : World) : Prop :=
  crc32 0 ((image env p.uiPartition w.mem).take p.iFileSize) = crc32 0 w.lastRead

/-- This is so for a later record, too. -/
theorem SumsLastRead.later {p q : MtdPartition} (h : SumsLastRead env p w)
    (hq : settled q = settled p) : SumsLastRead env q w := by
  have hpart : q.uiPartition = p.uiPartition := congrArg (fun r => r.uiPartition) hq
  have hsize : q.iFileSize = p.iFileSize := congrArg (fun r => r.iFileSize) hq
  rw [SumsLastRead, hpart, hsize]
  exact h

/-- A comparison that has agreed. -/
theorem mtdPartVerify_inv {r : Bool × MtdPartition} (h : Flashable env pMtd)
    (hrun : Ends (system env) (mtdPartVerify g pMtd) w (.ret r) w') (htrue : r.1 = true) :
    SumsLastRead env pMtd w' := by
  unfold mtdPartVerify at hrun
  obtain ⟨⟨cRes, q⟩, w₁, hcompare, hrun⟩ := Ends.split hrun
  obtain ⟨_, w₂, htell, hrun⟩ := Ends.split hrun
  obtain ⟨hr, hw'⟩ := hrun.pure_inv
  obtain ⟨-, hmem, hagreed, -⟩ := comparePart_inv h.geometry h.describes h.sized hcompare
  have hkept : w'.mem = w₁.mem ∧ w'.lastRead = w₁.lastRead := by
    rw [hw', htell.perform_inv.2]
    exact ⟨rfl, rfl⟩
  rw [hr] at htrue
  rw [SumsLastRead, hkept.1, hkept.2, hmem, hagreed htrue]

/-- When an image has been written and checked, the flash has the checksum of
what was read last. -/
theorem writeAndCheck_inv {q : MtdPartition} (hset : g.cHasChecksum = true)
    (hsums : pMtd.cChecksumCalculated = false) (h : Flashable env pMtd)
    (hrun : Ends (system env) (writeAndCheck g pMtd) w (.ret q) w') : SumsLastRead env pMtd w' := by
  unfold writeAndCheck at hrun
  obtain ⟨q₁, w₁, hwrite, hrun⟩ := Ends.split hrun
  obtain ⟨q₂, w₂, hcheck, hclose⟩ := Ends.split hrun
  have hsame := hwrite.result (mtdPartWrite_sat g pMtd)
  have hq₁ := mtdPartWrite_inv hsums hwrite
  have hkept : w'.mem = w₂.mem ∧ w'.lastRead = w₂.lastRead := by
    rw [(mtdPartClose_inv hclose).2]
    exact ⟨rfl, rfl⟩
  refine SumsLastRead.later (p := q₁) ?_ hsame.symm
  rw [SumsLastRead, hkept.1, hkept.2]
  split at hcheck
  · obtain ⟨⟨cRes, q₃⟩, w₃, hverify, hcheck⟩ := Ends.split hcheck
    dsimp only at hcheck
    split at hcheck
    · rename_i htrue
      rw [hcheck.pure_inv.2]
      exact mtdPartVerify_inv (h.later hsame) hverify htrue
    · exact hcheck.exit_inv.elim
  · have hq := h.later hsame
    obtain ⟨hcrc, hmem, hread⟩ :=
      mtdPartCheckCRC32_inv q₁ hq.geometry hq.describes hq.fits hcheck
    rw [hmem, hread, hcrc, hq₁, recordWritten, if_neg (by rw [hsums]; exact Bool.false_ne_true)]

/-- When a partition has been flashed, and not by an external program, the
flash has the checksum of what was read last. -/
theorem updatePart_inv {q : MtdPartition} (hset : g.cHasChecksum = true)
    (hsums : pMtd.cChecksumCalculated = false) (h : Flashable env pMtd)
    (hraw : ¬ FlashedExternally pMtd)
    (hrun : Ends (system env) (updatePart g pMtd) w (.ret q) w') : SumsLastRead env pMtd w' := by
  unfold updatePart at hrun
  obtain ⟨q₁, w₁, hopen, hrun⟩ := Ends.split hrun
  obtain ⟨_, w₂, -, hrun⟩ := Ends.split hrun
  have hq₁ : q₁ = reopened g pMtd := (mtdPartOpen_inv hopen).1
  have hsame : settled q₁ = settled pMtd := by
    rw [hq₁]
    rfl
  have hboot : ¬ q₁.ePartType = .ptBootstream := by
    rw [hq₁]
    exact fun h => hraw (.inr h)
  have hubi : ¬ q₁.eFileType = .ftUBI := by
    rw [hq₁]
    exact fun h => hraw (.inl h)
  have hsums₁ : q₁.cChecksumCalculated = false := by
    rw [hq₁]
    exact hsums
  rw [if_neg hboot, if_neg hubi] at hrun
  exact (writeAndCheck_inv hset hsums₁ (h.later hsame) hrun).later hsame.symm

end Part

section Run

variable (opts : Options) (args : List Bytes) (fuel : ℕ)

/-- The beginning of `main` up to the point at which so many partitions have
been flashed. -/
def updateFirst (n : ℕ) : Flash (List MtdPartition) := do
  let g ← prepare opts fuel
  let parts ← nameParts g maxMtdParts args
  let parts ← checkFiles g parts
  let parts ← remountAll g noRootDev parts
  Prog.mapList (updatePart g) (parts.take n)

/-- An update begins like that. -/
theorem updateFirst_starts (n : ℕ) (hupdates : opts.cVerifyOnly = false)
    (hflashes : opts.cChecksumOnly = false) :
    Starts (updateFirst opts args fuel n) (main opts args fuel) := by
  unfold updateFirst main
  refine Starts.after (prepare_sat opts fuel) fun g hg => ?_
  obtain ⟨-, cEraseAll, cWriteCleanMarker, hopts⟩ := hg
  have hsums : g.cChecksumOnly = false := by
    rw [hopts]
    exact hflashes
  have hupdate : g.cVerifyOnly = false := by
    rw [hopts]
    exact hupdates
  refine Starts.after (nameParts_sat g _ args) fun parts _ => Starts.andThen ?_ _
  rw [runCommand, hsums, if_neg Bool.false_ne_true, hupdate, if_neg Bool.false_ne_true]
  unfold doMtdUpdate
  refine Starts.after (checkFiles_sat g parts) fun qs _ => ?_
  refine Starts.after (remountAll_sat g noRootDev qs) fun rs _ => ?_
  exact Starts.andThen (starts_mapList (updatePart g) n rs) _

/-- The checksum of the flash is the one of the list just when the bytes of
the last pass over the image have it. -/
theorem flash_sum_iff {env : Env} {w w' : World} {k : ℕ} {done : List MtdPartition} {l : Listed}
    {crc : Crc} {p : MtdPartition} (hset : opts.cHasChecksum = true)
    (hflashes : opts.cChecksumOnly = false)
    (hg : ∀ l ∈ listed true args, Geometry env l.part)
    (hsized : ∀ l ∈ listed true args, Sized env l.file)
    (hrun : Ends (system env) (updateFirst opts args fuel (k + 1)) w (.ret done) w')
    (hl : (listed true args)[k]? = some l) (hcrc : l.crc = some crc)
    (hp : done.getLast? = some p) :
    p.uiPartition = l.part ∧ p.szOrigImageFileName = l.file ∧
      (w.files l.file).map List.length = some p.iFileSize ∧
      (¬ FlashedExternally p →
        (crc32 0 ((image env l.part w'.mem).take p.iFileSize) = crc ↔
          crc32 0 w'.lastRead = crc)) := by
  unfold updateFirst at hrun
  obtain ⟨g, w₁, hprepare, hrun⟩ := Ends.split hrun
  obtain ⟨ps, w₂, hname, hrun⟩ := Ends.split hrun
  obtain ⟨qs, w₃, hcheck, hrun⟩ := Ends.split hrun
  obtain ⟨rs, w₄, hremount, hlist⟩ := Ends.split hrun
  have hprepared := prepare_sat opts fuel
  obtain ⟨-, cEraseAll, cWriteCleanMarker, hopts⟩ := hprepare.result hprepared
  have hsums : g.cChecksumOnly = false := by
    rw [hopts]
    exact hflashes
  have hgset : g.cHasChecksum = true := by
    rw [hopts]
    exact hset
  have hbegins := nameParts_inv (hgset ▸ hg) hsums hname
  rw [hgset] at hbegins
  have hmem := List.mem_of_getElem? hl
  obtain ⟨p₀, hp₀, hstart, hlength⟩ := forall₂_at hbegins hl
  obtain ⟨q, hq, hpq⟩ := forall₂_at (hcheck.result (checkFiles_sat g ps)) hp₀
  obtain ⟨r, hr, hqr⟩ := forall₂_at (hremount.result (remountAll_sat g noRootDev qs)) hq
  rw [List.take_add_one, hr] at hlist
  obtain ⟨p', w₅, hlast, hpart⟩ := hlist.mapList_last
  have hsame : p = p' := Option.some.inj (hp.symm.trans hlast)
  have hcont := hpq.trans hqr
  have hp_r : settled p = settled r := by
    rw [hsame]
    exact hpart.result (updatePart_sat g r)
  have hp_start : settled p = settled p₀ := hp_r.trans hcont.1
  have hpart' : p.uiPartition = l.part :=
    (congrArg (fun r => r.uiPartition) hp_start).trans hstart.part
  have hfile : p.szOrigImageFileName = l.file :=
    (congrArg (fun r => r.szOrigImageFileName) hp_start).trans hstart.original
  have hsize : p.iFileSize = p₀.iFileSize := congrArg (fun r => r.iFileSize) hp_start
  refine ⟨hpart', hfile, ?_, fun hraw => ?_⟩
  · rw [hsize, ← length_kept (hsized l hmem) hprepare hprepared]
    exact hlength (hsized l hmem)
  · have hstart_ok : Flashable env p₀ := ⟨hstart.part ▸ hg l hmem, hstart.describes, hstart.fits,
      hstart.original.symm ▸ hsized l hmem⟩
    have hgiven : p₀.cChecksumSet = true := by
      rw [hstart.set, hcrc]
      rfl
    have hsums_r : r.cChecksumCalculated = false :=
      (congrArg (fun c => c.2.2) (hcont.2 hgiven)).trans hstart.uncalculated
    have hraw_r : ¬ FlashedExternally r := fun hext =>
      hraw ((flashedExternally_of_settled r hp_r).mpr hext)
    have hdone := (updatePart_inv hgset hsums_r (hstart_ok.later hcont.1) hraw_r hpart).later hp_r
    rw [SumsLastRead, hpart'] at hdone
    rw [hdone]

set_option maxRecDepth 8000 in
/-- An image that stays the same. -/
theorem flash_sum_iff_example :
    ∃ done p w', Ends (system smallEnv) (updateFirst { cHasChecksum := true }
        [text "uImage-x", text "0", text "0x4f5344cd"] 20 1)
        (smallWorld [(text "uImage-x", text "12")]) (.ret done) w' ∧
      done.getLast? = some p ∧
      crc32 0 ((image smallEnv 0 w'.mem).take p.iFileSize) = 0x4f5344cd := by
  have hrun : Ends (system smallEnv) (updateFirst { cHasChecksum := true }
      [text "uImage-x", text "0", text "0x4f5344cd"] 20 (0 + 1))
      (smallWorld [(text "uImage-x", text "12")]) (.ret [_]) _ := ⟨rfl, rfl⟩
  have hgiven := flash_sum_iff { cHasChecksum := true }
    [text "uImage-x", text "0", text "0x4f5344cd"] 20 rfl rfl
    (fun l _ => smallEnv_geometry l.part) (fun _ _ _ _ => rfl) hrun
    (l := ⟨text "uImage-x", 0, some 0x4f5344cd⟩) rfl rfl rfl
  exact ⟨_, _, _, hrun, rfl, (hgiven.2.2.2 (by decide)).mpr rfl⟩

/-- The small system, where somebody overwrites the files after a while and
leaves their lengths alone. -/
def changingEnv : Env :=
  { smallEnv with interfere := fun t files =>
      if t < 30 then files else fun path => (files path).map (List.map fun _ => 7) }

theorem changingEnv_sized (path : Path) : Sized changingEnv path := by
  intro t files
  dsimp only [changingEnv]
  split
  · rfl
  · dsimp only
    cases files path with
    | none => rfl
    | some content => exact congrArg some (List.length_map ..)

set_option maxRecDepth 8000 in
/-- An image that has been overwritten between the two passes is flashed with
success. -/
theorem changed_image_is_flashed :
    ∃ done w', Ends (system changingEnv) (updateFirst { cHasChecksum := true }
        [text "uImage-x", text "0", text "0x4f5344cd"] 20 1)
        (smallWorld [(text "uImage-x", text "12")]) (.ret done) w' ∧
      (∀ path, Sized changingEnv path) ∧
      crc32 0 ((image changingEnv 0 w'.mem).take 2) ≠ 0x4f5344cd :=
  ⟨[_], _, ⟨rfl, rfl⟩, changingEnv_sized, by decide⟩

end Run

end MetaDigi.FlashSums
