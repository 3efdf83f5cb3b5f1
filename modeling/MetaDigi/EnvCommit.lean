import MetaDigi.EnvRuns

/-!
# All or nothing

A run that fails leaves the flash as it was, and a run that succeeds has stored
the block with all changes. There are two exceptions. A name, a setting or a
variable that is too long is written beyond an array. And the working copy is
saved also when the block could not be set in it: the settings that have gone
to the working copy before then reach the flash of a run that has failed.
-/

namespace MetaDigi.EnvCommit

open CheckedMemory CStrings Crc32 EnvEdits EnvFuncs EnvMain EnvNvram EnvRuns PackedStrings
  SystemProgram SystemRuns

variable {ν : Type}

/-- The data that the changes begin with. -/
def dataBefore (o : Options) (old : Bytes) : Bytes :=
  if o.clean then List.replicate (old.length - 4) 0 else old.drop 4

/-- The block with this data and its checksum. -/
def sealed (data : Bytes) : Bytes := sealBlock (crc32 0 data) data

/-- The block that the changes begin with: the stored one, or one that
`--clean` adds where none is found. -/
def OldBlock (prodInfoDataSize : ℕ) (a : Answers ν) (envType : NvOsType) (o : Options)
    (flash : Store ν) (old : Bytes) : Prop :=
  a.nvOSCfgFind 0 = true ∧ flash.sections envType = some old ∨
  o.clean = true ∧ (a.nvOSCfgFind 0 = false ∨ flash.sections envType = none) ∧
    ∃ cells, a.nvOSCfgAdd = some cells ∧
      old = (List.range (envDefaultSizes prodInfoDataSize envType)).map cells

/-- What a run has stored that has changed something: the changes that its
options ask for, applied to the block that was stored before, or to a cleared
one of the same size. -/
structure Committed (prodInfoDataSize : ℕ) (a : Answers ν) (envType : NvOsType) (o : Options)
    (flash flash' : Store ν) (old new : Bytes) : Prop where
  /-- The old block, of which only the size counts when it is cleared. -/
  before : OldBlock prodInfoDataSize a envType o flash old
  /-- The new data. -/
  applied : applyEdits envType new.length (edits a.fopen o) (dataBefore o old) = some new
  /-- The new variables, where there was a list of variables before. -/
  vars : ∀ L, Holds 0 (dataBefore o old) L →
    Holds 0 new ((edits a.fopen o).foldl (Edit.onVars envType) L)
  /-- It is stored with its checksum. -/
  sealed : flash'.sections envType = some (sealed new)
  /-- No other section has changed. -/
  others : ∀ type, type ≠ envType → flash'.sections type = flash.sections type
  /-- `env_validate` accepts the block in any other run. -/
  accepted : ∀ (a' : Answers ν) (w : World ν), Ends (handler a')
    (envValidate (EnvT.ofBlock (EnvCommit.sealed new)) (envLen (EnvCommit.sealed new).length) true)
    w (.ret false) w

/-- A run is all or nothing. -/
structure AllOrNothing (prodInfoDataSize : ℕ) (a : Answers ν) (argv0 : CString) (argv : List Opt)
    (working flash : Store ν) : Prop where
  /-- It does not leave an array. -/
  inside : ∀ f w', ¬Ends (handler a) (main prodInfoDataSize argv0 argv) (started working flash)
    (.exit (.fault f)) w'
  /-- Unless it returns `EXIT_SUCCESS`, the flash is as before. -/
  failed : ∀ out w', Ends (handler a) (main prodInfoDataSize argv0 argv) (started working flash)
    out w' → out ≠ .ret exitSuccess → w'.flash = flash
  /-- If it returns `EXIT_SUCCESS` after a modifying option, everything is stored. -/
  saved : ∀ w', Ends (handler a) (main prodInfoDataSize argv0 argv) (started working flash)
    (.ret exitSuccess) w' → argv.any isChange = true →
    ∃ envType old new, envTypeOf argv0 = some envType ∧
      Committed prodInfoDataSize a envType (optionsOf argv) flash w'.flash old new
  /-- Without a modifying option the flash is as before. -/
  unmodified : argv.any isChange = false → ∀ out w',
    Ends (handler a) (main prodInfoDataSize argv0 argv) (started working flash) out w' →
    w'.flash = flash

/-- The block cannot be set, and the working copy is saved that the run has
changed before: by adding a section, or by a network setting. -/
def SavedUnset (prodInfoDataSize : ℕ) (a : Answers ν) (argv0 : CString) (argv : List Opt)
    (flash : Store ν) : Prop :=
  ∃ l d, loaded prodInfoDataSize a argv0 argv flash = some l ∧ attempt a l = .ok (some d) ∧
    l.o.modifies = true ∧ a.nvOSCfgSet = false ∧ a.nvSave = true ∧
    { l.working with network := d.network } ≠ flash

/-- A stored checksum reads back. -/
theorem loadUlong_ulongCells (c : BitVec 32) : loadUlong (ulongCells c) = .ok c := by
  have hbytes : ∀ n : ℕ, (UInt8.ofNat (n % 256)).toNat = n % 256 := by
    intro n
    rw [UInt8.toNat_ofNat']
    exact Nat.mod_mod ..
  have hsum : c.toNat % 256 + 256 * (c.toNat / 256 % 256) + 65536 * (c.toNat / 65536 % 256) +
      16777216 * (c.toNat / 16777216 % 256) = c.toNat := by
    have hlt := c.isLt
    omega
  change Except.ok (BitVec.ofNat 32 ((UInt8.ofNat (c.toNat % 256)).toNat +
    256 * (UInt8.ofNat (c.toNat / 256 % 256)).toNat +
    65536 * (UInt8.ofNat (c.toNat / 65536 % 256)).toNat +
    16777216 * (UInt8.ofNat (c.toNat / 16777216 % 256)).toNat)) = _
  rw [hbytes, hbytes, hbytes, hbytes, hsum, BitVec.ofNat_toNat]
  simp

/-- A sealed block is valid. -/
theorem invalid_sealed (data : Bytes) :
    invalid (EnvT.ofBlock (sealed data)) (envLen (sealed data).length) = .ok false := by
  have hsplit : EnvT.ofBlock (sealed data) = ⟨ulongCells (crc32 0 data), data⟩ := rfl
  have hlen : envLen (sealed data).length = data.length := by
    have hsize : (sealed data).length = 4 + data.length := by
      rw [sealed, sealBlock, List.length_append]
      rfl
    rw [hsize, envLen, if_neg (by omega)]
    omega
  have hcrc : crcOver data data.length = .ok (crc32 0 data) := by
    rw [crcOver, if_pos (Nat.le_refl _), List.take_length]
  rw [hsplit, hlen]
  simp only [invalid, envChecksums, hcrc, loadUlong_ulongCells, bind, Except.bind]
  simp [pure, Except.pure]

section Draft

variable {a : Answers ν} {envType : NvOsType} {envlen : ℕ}

/-- An edit of the draft is the edit of its data. -/
theorem onData_of_editDraft {e : Edit} {d d' : Draft ν}
    (h : editDraft a envType envlen d e = .ok (some d')) :
    e.onData envType envlen d.data = some d'.data := by
  cases e with
  | add varstring =>
    simp only [editDraft] at h
    simp only [Edit.onData]
    split at h
    · cases h
    split at h
    · cases h
    cases hsetting : settingOf envType varstring with
    | some setting =>
      rw [hsetting] at h
      dsimp only at h
      split at h
      · cases h
      obtain ⟨network, -, hd⟩ := Option.map_eq_some_iff.mp (Except.ok.inj h)
      rw [← hd]
      rfl
    | none =>
      rw [hsetting] at h
      obtain ⟨⟨added, data⟩, hadd, hd⟩ := ok_of_bind h
      cases added with
      | false => cases hd
      | true =>
        cases hd
        simp only [hadd, Option.isSome_none, Bool.false_eq_true, if_false]
  | remove var =>
    obtain ⟨⟨removed, data⟩, hremove, hd⟩ := ok_of_bind h
    cases hd
    simp only [Edit.onData, hremove]
  | emptyLine => cases h
  | unreadable => cases h

/-- The edits of the draft are the edits of its data. -/
theorem applyEdits_of_draftEdits {es : List Edit} {d d' : Draft ν}
    (h : draftEdits a envType envlen es d = .ok (some d')) :
    applyEdits envType envlen es d.data = some d'.data := by
  induction es generalizing d with
  | nil =>
    cases h
    rfl
  | cons e es ih =>
    obtain ⟨next, hedit, hrest⟩ := ok_of_bind h
    cases next with
    | none => cases hrest
    | some mid =>
      rw [applyEdits, onData_of_editDraft hedit]
      exact ih hrest

end Draft

section Loaded

variable {prodInfoDataSize : ℕ} {a : Answers ν} {argv0 : CString} {argv : List Opt}
  {flash : Store ν} {l : Loaded ν}

/-- The working copy is the flash, or has a section that was missing. -/
theorem located_cases {envType : NvOsType} {clean : Bool} {working : Store ν}
    (h : located prodInfoDataSize a envType clean flash = some working) :
    (a.nvOSCfgFind 0 = true ∧ working = flash) ∨
    clean = true ∧ (a.nvOSCfgFind 0 = false ∨ flash.sections envType = none) ∧
      ∃ cells, a.nvOSCfgAdd = some cells ∧ working = flash.setSection envType
        ((List.range (envDefaultSizes prodInfoDataSize envType)).map cells) := by
  unfold located at h
  split at h
  · cases h
  split at h
  · rename_i hfound
    exact .inl ⟨(Bool.and_eq_true_iff.mp hfound).1, (Option.some.inj h).symm⟩
  rename_i hmissing
  split at h
  · rename_i hclean
    obtain ⟨cells, hcells, h⟩ := Option.bind_eq_some_iff.mp h
    split at h
    · refine .inr ⟨(Bool.and_eq_true_iff.mp hclean).1, ?_, cells, hcells,
        (Option.some.inj h).symm⟩
      rw [Bool.and_eq_true_iff, not_and_or, Bool.not_eq_true, Bool.not_eq_true,
        Option.isSome_eq_false_iff, Option.isNone_iff_eq_none] at hmissing
      exact hmissing
    · cases h
  · cases h

/-- The working copy has the sections of the flash, and maybe a new one. -/
theorem located_sections {envType : NvOsType} {clean : Bool} {working : Store ν}
    (h : located prodInfoDataSize a envType clean flash = some working) :
    (clean = false → working = flash) ∧
      ∀ type, type ≠ envType → working.sections type = flash.sections type := by
  rcases located_cases h with ⟨-, hsame⟩ | ⟨hclean, -, cells, -, hadded⟩
  · exact ⟨fun _ => hsame, fun _ _ => by rw [hsame]⟩
  · refine ⟨fun hnot => ?_, fun type htype => ?_⟩
    · rw [hnot] at hclean
      cases hclean
    · rw [hadded]
      exact Function.update_of_ne htype ..

/-- What a run has loaded. -/
theorem loaded_cases (h : loaded prodInfoDataSize a argv0 argv flash = some l) :
    envTypeOf argv0 = some l.envType ∧ l.o = optionsOf argv ∧
      l.working.sections l.envType = some l.block ∧ (l.o.clean = false → l.working = flash) ∧
      ∀ type, type ≠ l.envType → l.working.sections type = flash.sections type := by
  obtain ⟨envType, htype, h⟩ := Option.bind_eq_some_iff.mp h
  obtain ⟨o, ho, h⟩ := Option.bind_eq_some_iff.mp h
  obtain ⟨working, hworking, h⟩ := Option.bind_eq_some_iff.mp h
  obtain ⟨block, hblock, h⟩ := Option.bind_eq_some_iff.mp h
  have hsections := located_sections hworking
  have hopts : o = optionsOf argv := by
    simp only [acceptedOptions] at ho
    split at ho
    · cases ho
    · exact (Option.some.inj ho).symm
  split at h
  · cases h
    exact ⟨htype, hopts, hblock, hsections⟩
  · cases h

/-- The block of a run is the stored one or the one that it has added. -/
theorem loaded_oldBlock (h : loaded prodInfoDataSize a argv0 argv flash = some l) :
    OldBlock prodInfoDataSize a l.envType l.o flash l.block := by
  obtain ⟨envType, -, h⟩ := Option.bind_eq_some_iff.mp h
  obtain ⟨o, -, h⟩ := Option.bind_eq_some_iff.mp h
  obtain ⟨working, hworking, h⟩ := Option.bind_eq_some_iff.mp h
  obtain ⟨block, hblock, h⟩ := Option.bind_eq_some_iff.mp h
  split at h
  swap
  · cases h
  cases h
  rcases located_cases hworking with ⟨hfind, hsame⟩ | ⟨hclean, hmissing, cells, hcells, hadded⟩
  · exact .inl ⟨hfind, by rw [← hsame]; exact hblock⟩
  · refine .inr ⟨hclean, hmissing, cells, hcells, ?_⟩
    rw [hadded] at hblock
    exact (Option.some.inj (hblock.symm.trans (Function.update_self ..)))

/-- The options ask for a change when one of them does. -/
theorem optionsOf_modifies (argv : List Opt) :
    (optionsOf argv).modifies = argv.any isChange := by
  have hfold : ∀ (opts : List Opt) (o : Options),
      (opts.foldl Options.set o).modifies = (o.modifies || opts.any isChange) := by
    intro opts
    induction opts with
    | nil => exact fun o => (Bool.or_false _).symm
    | cons opt opts ih =>
      intro o
      have hset : (o.set opt).modifies = (o.modifies || isChange opt) := by
        cases opt <;> simp [Options.set, Options.modifies, isChange, Bool.or_comm, Bool.or_left_comm]
      rw [List.foldl_cons, ih, hset, List.any_cons, Bool.or_assoc]
  exact hfold argv noOptions

/-- A run changes the block when an option asks for it. -/
theorem loaded_modifies (h : loaded prodInfoDataSize a argv0 argv flash = some l) :
    l.o.modifies = argv.any isChange := by
  rw [(loaded_cases h).2.1, optionsOf_modifies]

end Loaded

section Attempt

variable {a : Answers ν} {l : Loaded ν} {d : Draft ν}

/-- The changes begin with the data of the block, or with a cleared one. -/
theorem startEnv_data {envType : NvOsType} {o : Options} {block : Bytes} {env : EnvT}
    (h : startEnv envType o block = .ok (some env)) : env.data = dataBefore o block := by
  obtain ⟨written, -, h⟩ := ok_of_bind h
  unfold dataBefore
  split at h
  · cases h
  split at h
  · rename_i hclean
    rw [if_pos hclean, ← Option.some.inj (Except.ok.inj h)]
    exact List.drop_replicate
  · rename_i hclean
    obtain ⟨bad, -, h⟩ := ok_of_bind h
    cases bad with
    | true => cases h
    | false =>
      rw [if_neg hclean, ← Option.some.inj (Except.ok.inj h)]
      rfl

/-- A draft that is stored is the old data with the changes, and its checksum
covers all of it. -/
theorem attempt_applied (h : attempt a l = .ok (some d)) (hmod : l.o.modifies = true) :
    envLen l.block.length = d.data.length ∧
      applyEdits l.envType d.data.length (edits a.fopen l.o) (dataBefore l.o l.block) =
        some d.data := by
  obtain ⟨env, hstart, h⟩ := ok_of_bind h
  cases env with
  | none => cases h
  | some env =>
    obtain ⟨draft, hedits, h⟩ := ok_of_bind h
    cases draft with
    | none => cases h
    | some draft =>
      obtain ⟨_, hchecked, h⟩ := ok_of_bind h
      cases h
      obtain ⟨_, -, hcrc⟩ := ok_of_bind hchecked
      rw [if_pos hmod] at hcrc
      obtain ⟨crc, hcrc, -⟩ := ok_of_bind hcrc
      have hdata := applyEdits_of_draftEdits hedits
      rw [startEnv_data hstart] at hdata
      have hsize : d.data.length = l.block.length - 4 := by
        rw [length_applyEdits hdata, dataBefore]
        split
        · exact List.length_replicate
        · exact List.length_drop
      have hinside : envLen l.block.length ≤ d.data.length := by
        by_contra hover
        rw [crcOver, if_neg hover] at hcrc
        cases hcrc
      have hlen : envLen l.block.length = d.data.length := by
        unfold envLen at hinside ⊢
        split at hinside
        · omega
        · rw [if_neg (by assumption), hsize]
      rw [← hlen]
      exact ⟨rfl, hdata⟩

end Attempt

section Runs

variable {prodInfoDataSize : ℕ} {a : Answers ν} {argv0 : CString} {argv : List Opt}
  {working flash : Store ν}

/-- How a run ends: beside an array; without storing anything; or with what has
become of its draft. -/
theorem run_cases {out : Outcome Stop ℤ} {w' : World ν}
    (h : Ends (handler a) (main prodInfoDataSize argv0 argv) (started working flash) out w') :
    (w'.flash = flash ∧ ∃ l f, loaded prodInfoDataSize a argv0 argv flash = some l ∧
      attempt a l = .error f ∧ out = .exit (.fault f)) ∨
    (w'.flash = flash ∧ (out = .ret exitFailure ∨ out = .hang ∨ ∃ code, out = .exit (.exit code))) ∨
    ∃ l d w, loaded prodInfoDataSize a argv0 argv flash = some l ∧ attempt a l = .ok (some d) ∧
      w.flash = flash ∧ w.working = { l.working with network := d.network } ∧
      out = .ret (if l.o.modifies then storedStatus a else exitSuccess) ∧
      w' = concluded a l d w := by
  have hmain := @main_concludes ν a prodInfoDataSize argv0 argv working flash
  cases hloaded : loaded prodInfoDataSize a argv0 argv flash with
  | none =>
    rw [hloaded] at hmain
    obtain ⟨w₁, hflash, hends | ⟨code, hends⟩⟩ := hmain
    · obtain ⟨hout, hw'⟩ := h.unique hends
      exact .inr (.inl ⟨hw' ▸ hflash, .inl hout⟩)
    · obtain ⟨hout, hw'⟩ := h.unique hends
      exact .inr (.inl ⟨hw' ▸ hflash, .inr (.inr ⟨code, hout⟩)⟩)
  | some l =>
    rw [hloaded] at hmain
    obtain ⟨w, hflash, hworking, hconcludes⟩ := hmain
    unfold Concludes at hconcludes
    cases hattempt : attempt a l with
    | error f =>
      rw [hattempt] at hconcludes
      obtain ⟨w₁, hkept, hends⟩ := hconcludes
      obtain ⟨hout, hw'⟩ := h.unique hends
      exact .inl ⟨hw' ▸ hkept.trans hflash, l, f, rfl, hattempt, hout⟩
    | ok draft =>
      rw [hattempt] at hconcludes
      cases draft with
      | none =>
        obtain ⟨w₁, hkept, hends | hends⟩ := hconcludes
        · obtain ⟨hout, hw'⟩ := h.unique hends
          exact .inr (.inl ⟨hw' ▸ hkept.trans hflash, .inl hout⟩)
        · obtain ⟨hout, hw'⟩ := h.unique hends
          exact .inr (.inl ⟨hw' ▸ hkept.trans hflash, .inr (.inl hout)⟩)
      | some d =>
        obtain ⟨hout, hw'⟩ := h.unique hconcludes
        refine .inr (.inr ⟨l, d, w.withDraft d, rfl, hattempt, hflash, ?_, hout, hw'⟩)
        rw [← hworking]
        rfl

/-- What is in flash after the last part. -/
theorem stored_flash (envType : NvOsType) (block : Bytes) (w : World ν) :
    (stored a envType block w).flash =
      if a.nvSave then
        if a.nvOSCfgSet then w.working.setSection envType block else w.working
      else w.flash := by
  unfold stored
  cases a.nvSave <;> cases a.nvOSCfgSet <;> rfl

/-- A draft that has been set and saved is committed. -/
theorem committed_of_attempt {l : Loaded ν} {d : Draft ν}
    (hloaded : loaded prodInfoDataSize a argv0 argv flash = some l)
    (hattempt : attempt a l = .ok (some d)) (hmod : l.o.modifies = true) {flash' : Store ν}
    (hflash' : flash' = ({ l.working with network := d.network } : Store ν).setSection l.envType
      (sealedBlock d.data (envLen l.block.length))) :
    Committed prodInfoDataSize a l.envType (optionsOf argv) flash flash' l.block d.data := by
  obtain ⟨-, hopts, -, -, hothers⟩ := loaded_cases hloaded
  have hold := loaded_oldBlock hloaded
  obtain ⟨hlen, happlied⟩ := attempt_applied hattempt hmod
  have hsealed : sealedBlock d.data (envLen l.block.length) = sealed d.data := by
    rw [sealedBlock, hlen, List.take_length, sealed]
  rw [hopts] at hold happlied
  refine ⟨hold, happlied, ?_, ?_, ?_, ?_⟩
  · intro L hL
    have hsize : d.data.length = (dataBefore (optionsOf argv) l.block).length :=
      length_applyEdits happlied
    rw [hsize] at happlied
    exact applyEdits_holds hL happlied
  · rw [hflash', hsealed]
    exact Function.update_self ..
  · intro type htype
    rw [hflash']
    exact (Function.update_of_ne htype ..).trans (hothers type htype)
  · intro a' w
    have htells := @envValidate_tells ν a' (EnvT.ofBlock (sealed d.data))
      (envLen (sealed d.data).length) true w
    rw [invalid_sealed] at htells
    exact htells

/-- A run that has changed something succeeds when both calls do. -/
theorem storedStatus_eq_success :
    storedStatus a = exitSuccess ↔ a.nvOSCfgSet = true ∧ a.nvSave = true := by
  rw [storedStatus]
  cases a.nvOSCfgSet <;> cases a.nvSave <;> decide

/-- The draft of a run that does not succeed has not reached the flash. -/
theorem flash_of_failed {l : Loaded ν} {d : Draft ν} {w : World ν}
    (hsaved : ¬SavedUnset prodInfoDataSize a argv0 argv flash)
    (hloaded : loaded prodInfoDataSize a argv0 argv flash = some l)
    (hattempt : attempt a l = .ok (some d)) (hflash : w.flash = flash)
    (hworking : w.working = { l.working with network := d.network })
    (hfailed : l.o.modifies = true → storedStatus a ≠ exitSuccess) :
    (concluded a l d w).flash = flash := by
  unfold concluded
  split
  · rename_i hmod
    rw [stored_flash]
    split
    · rename_i hsave
      split
      · rename_i hset
        exact absurd (storedStatus_eq_success.mpr ⟨hset, hsave⟩) (hfailed hmod)
      · rename_i hset
        by_contra hchanged
        rw [hworking] at hchanged
        exact hsaved ⟨l, d, hloaded, hattempt, hmod, Bool.eq_false_iff.mpr hset, hsave, hchanged⟩
    · exact hflash
  · exact hflash

/-- A run that saves settings without its block returns `EXIT_FAILURE`, with
the settings in flash. -/
theorem savedUnset_ends (hsaved : SavedUnset prodInfoDataSize a argv0 argv flash) :
    ∃ w', Ends (handler a) (main prodInfoDataSize argv0 argv) (started working flash)
      (.ret exitFailure) w' ∧ w'.flash ≠ flash := by
  obtain ⟨l, d, hloaded, hattempt, hmod, hset, hsave, hchanged⟩ := hsaved
  have hmain := @main_concludes ν a prodInfoDataSize argv0 argv working flash
  rw [hloaded] at hmain
  obtain ⟨w, -, hworking, hconcludes⟩ := hmain
  rw [Concludes, hattempt] at hconcludes
  dsimp only at hconcludes
  have hstatus : storedStatus a = exitFailure := by
    rw [storedStatus, hset, Bool.false_and, if_neg Bool.false_ne_true]
  rw [if_pos hmod, hstatus] at hconcludes
  refine ⟨_, hconcludes, fun hsame => hchanged ?_⟩
  rw [concluded, if_pos hmod, stored_flash, if_pos hsave, hset, if_neg Bool.false_ne_true] at hsame
  rw [← hsame, ← hworking]
  rfl

/-- A run is all or nothing exactly when its changes stay inside the arrays and
it does not save settings without its block. -/
theorem allOrNothing_of_attempt (prodInfoDataSize : ℕ) (a : Answers ν) (argv0 : CString)
    (argv : List Opt) (working flash : Store ν) :
    AllOrNothing prodInfoDataSize a argv0 argv working flash ↔
      (∀ l, loaded prodInfoDataSize a argv0 argv flash = some l → ∀ f, attempt a l ≠ .error f) ∧
        ¬SavedUnset prodInfoDataSize a argv0 argv flash := by
  constructor
  · intro hall
    refine ⟨fun l hloaded f hattempt => ?_, ?_⟩
    · have hmain := @main_concludes ν a prodInfoDataSize argv0 argv working flash
      rw [hloaded] at hmain
      obtain ⟨w, -, -, hconcludes⟩ := hmain
      rw [Concludes, hattempt] at hconcludes
      obtain ⟨w', -, hends⟩ := hconcludes
      exact hall.inside f w' hends
    · intro hsaved
      obtain ⟨w', hends, hchanged⟩ := @savedUnset_ends _ _ _ _ _ working _ hsaved
      exact hchanged (hall.failed _ w' hends (by decide))
  · rintro ⟨hinside, hsaved⟩
    refine ⟨?_, ?_, ?_, ?_⟩
    · intro f w' hends
      rcases run_cases hends with ⟨-, l, g, hloaded, hattempt, -⟩ | ⟨-, hout⟩ |
        ⟨l, d, w, -, -, -, -, hout, -⟩
      · exact hinside l hloaded g hattempt
      · rcases hout with hout | hout | ⟨code, hout⟩ <;> cases hout
      · cases hout
    · intro out w' hends hfailed
      rcases run_cases hends with ⟨hflash, -⟩ | ⟨hflash, -⟩ |
        ⟨l, d, w, hloaded, hattempt, hflash, hworking, hout, hw'⟩
      · exact hflash
      · exact hflash
      · rw [hw']
        refine flash_of_failed hsaved hloaded hattempt hflash hworking fun hmod hsuccess => ?_
        rw [if_pos hmod, hsuccess] at hout
        exact hfailed hout
    · intro w' hends hchange
      rcases run_cases hends with ⟨-, l, f, -, -, hout⟩ | ⟨-, hout⟩ |
        ⟨l, d, w, hloaded, hattempt, hflash, hworking, hout, hw'⟩
      · cases hout
      · rcases hout with hout | hout | ⟨code, hout⟩ <;> cases hout
      · obtain ⟨htype, -⟩ := loaded_cases hloaded
        have hmod := (loaded_modifies hloaded).trans hchange
        rw [if_pos hmod] at hout
        obtain ⟨hset, hsave⟩ := storedStatus_eq_success.mp (Outcome.ret.inj hout).symm
        refine ⟨l.envType, l.block, d.data, htype, committed_of_attempt hloaded hattempt hmod ?_⟩
        rw [hw', concluded, if_pos hmod, stored_flash, if_pos hsave, if_pos hset, hworking]
    · intro hchange out w' hends
      rcases run_cases hends with ⟨hflash, -⟩ | ⟨hflash, -⟩ |
        ⟨l, d, w, hloaded, -, hflash, -, -, hw'⟩
      · exact hflash
      · exact hflash
      · have hmod : ¬l.o.modifies = true := by
          rw [loaded_modifies hloaded, hchange]
          exact Bool.false_ne_true
        rw [hw', concluded, if_neg hmod]
        exact hflash

end Runs

end MetaDigi.EnvCommit
