import MetaDigi.EnvNvram

/-!
# Runs of the environment tools

A run first loads the stored block, then attempts the changes on a draft, and
stores it when something was to be changed. The first two parts are told from
the inputs of the run alone: its options, the flash and what the calls answer.
How the run ends, and what is in flash then, follows from them.
-/

namespace MetaDigi.EnvRuns

open CheckedMemory CStrings Crc32 EnvEdits EnvFuncs EnvMain EnvNvram PackedStrings SystemProgram
  SystemRuns
open Prog (ret_andThen exit_andThen)

variable {ν : Type}

/-- Whether the checksum of a block is wrong. -/
def invalid (env : EnvT) (datalen : ℕ) : Except Fault Bool := do
  let (crc, newCrc) ← envChecksums env datalen
  return crc ≠ newCrc

/-- Whether a block can be written only once, and has been. -/
def writtenBefore (envType : NvOsType) (env : EnvT) (envlen : ℕ) : Except Fault Bool := do
  if envOnetimeWritable envType then
    if ← invalid env envlen then return false
    else do
      let empty ← envIsEmpty env.data envlen
      return !empty
  else return false

/-- The block that the changes begin with, unless it is refused. -/
def startEnv (envType : NvOsType) (o : Options) (block : Bytes) : Except Fault (Option EnvT) := do
  let written ← writtenBefore envType (EnvT.ofBlock block) (envLen block.length)
  if written && o.modifies then return none
  else if o.clean then return some (EnvT.ofBlock (List.replicate block.length 0))
  else if ← invalid (EnvT.ofBlock block) (envLen block.length) then return none
  else return some (EnvT.ofBlock block)

/-- Looking up the variables of a list. -/
def lookups (data : Bytes) (envlen : ℕ) : List CString → Except Fault Unit
  | [] => .ok ()
  | var :: vars => do
    let _ ← varInEnv data envlen var
    lookups data envlen vars

/-- Reading what `--dump` or `--print` shows. -/
def shown (o : Options) (data : Bytes) (envlen : ℕ) : Except Fault Unit :=
  if o.dump then do
    let _ ← envPrintenvDump data 0 envlen
    .ok ()
  else
    match o.printlist with
    | some printlist => lookups data envlen (varNames printlist)
    | none => .ok ()

/-- What a run has loaded when it comes to the changes. -/
structure Loaded (ν : Type) where
  /-- The kind of its section. -/
  envType : NvOsType
  /-- Its options. -/
  o : Options
  /-- The block. -/
  block : Bytes
  /-- The working copy. -/
  working : Store ν

/-- Reading the data once more, to show it and for its checksum. -/
def checked (l : Loaded ν) (d : Draft ν) : Except Fault Unit := do
  shown l.o d.data (envLen l.block.length)
  if l.o.modifies then do
    let _ ← crcOver d.data (envLen l.block.length)
    .ok ()
  else .ok ()

/-- The changes on a draft: the draft that is to be stored or has only been
looked at, or nothing when they are refused, or where an array is left. -/
def attempt (a : Answers ν) (l : Loaded ν) : Except Fault (Option (Draft ν)) := do
  match ← startEnv l.envType l.o l.block with
  | none => return none
  | some env =>
    match ← draftEdits a l.envType (envLen l.block.length) (edits a.fopen l.o)
      ⟨env.data, l.working.network, 0⟩ with
    | none => return none
    | some d => do
      checked l d
      return some d

/-- The options in their order. -/
def optionsOf (argv : List Opt) : Options := argv.foldl Options.set noOptions

/-- An option that asks for the usage text. -/
def isHelp : Opt → Bool
  | .help => true
  | _ => false

/-- An option that asks for a change. -/
def isChange : Opt → Bool
  | .set _ | .fileadd _ | .erase _ | .clean => true
  | .dump | .print _ | .help => false

/-- The options of a run that `process_options` does not end. -/
def acceptedOptions (argv : List Opt) : Option Options :=
  let o := optionsOf argv
  if argv.any isHelp || argv.isEmpty || (o.dump && o.printlist.isSome) ||
    (o.clean && o.eraselist.isSome) then none
  else some o

/-- The working copy with a section that has been added. -/
def added (prodInfoDataSize : ℕ) (a : Answers ν) (envType : NvOsType) (flash : Store ν) :
    Option (Store ν) := do
  let cells ← a.nvOSCfgAdd
  if a.nvOSCfgFind 1 then
    some (flash.setSection envType
      ((List.range (envDefaultSizes prodInfoDataSize envType)).map cells))
  else none

/-- The working copy with the section, which `--clean` adds if it is missing. -/
def located (prodInfoDataSize : ℕ) (a : Answers ν) (envType : NvOsType) (clean : Bool)
    (flash : Store ν) : Option (Store ν) :=
  if !a.nvInit then none
  else if a.nvOSCfgFind 0 && (flash.sections envType).isSome then some flash
  else if clean && envDefaultSizes prodInfoDataSize envType ≠ 0 then
    added prodInfoDataSize a envType flash
  else none

/-- What a run loads, unless it fails before. -/
def loaded (prodInfoDataSize : ℕ) (a : Answers ν) (argv0 : CString) (argv : List Opt)
    (flash : Store ν) : Option (Loaded ν) := do
  let envType ← envTypeOf argv0
  let o ← acceptedOptions argv
  let working ← located prodInfoDataSize a envType o.clean flash
  let block ← working.sections envType
  if a.malloc && a.nvOSCfgGet then some ⟨envType, o, block, working⟩ else none

section Loading

variable (a : Answers ν) (envType : NvOsType)

/-- A part that only prints. -/
def Quiet (p : Env Unit) : Prop := ∀ w, Ends (handler a) p w (.ret ()) w

variable {a} in
/-- A quiet part before another one. -/
theorem quiet_andThen {α : Type} {p : Env Unit} {f : Unit → Env α} {w w' : World ν}
    {out : Outcome Stop α} (hp : Quiet a p) (hf : Ends (handler a) (f ()) w out w') :
    Ends (handler a) (p >>= f) w out w' :=
  (hp w).andThen hf

/-- A message. -/
theorem quiet_printErr (line : Bytes) : Quiet a (printErr line) := fun w => ends_perform _ w

/-- The loop over the options keeps what they set. -/
theorem readOptions_ends {argv : List Opt} (hhelp : argv.any isHelp = false) (o : Options)
    (w : World ν) :
    Ends (handler a) (readOptions envType argv o) w (.ret (argv.foldl Options.set o)) w := by
  induction argv generalizing o with
  | nil => exact ends_ret _ _
  | cons opt argv ih =>
    rw [List.any_cons, Bool.or_eq_false_iff] at hhelp
    cases opt with
    | help => cases hhelp.1
    | _ => exact ih hhelp.2 _

/-- The usage text is the end. -/
theorem showUsageAndExit_ends {α : Type} (code : ℤ) (w : World ν) :
    Ends (handler a) (showUsageAndExit envType code : Env α) w (.exit (.exit code)) w :=
  ends_call (ends_exit _ _)

/-- The loop over the options ends where the usage text is asked for. -/
theorem readOptions_help {argv : List Opt} (hhelp : argv.any isHelp = true) (o : Options)
    (w : World ν) :
    Ends (handler a) (readOptions envType argv o) w (.exit (.exit exitSuccess)) w := by
  induction argv generalizing o with
  | nil => cases hhelp
  | cons opt argv ih =>
    cases opt with
    | help => exact showUsageAndExit_ends a envType exitSuccess w
    | _ => exact ih hhelp _

/-- `process_options` returns the accepted options and ends the run otherwise. -/
theorem processOptions_ends (argv : List Opt) (w : World ν) :
    (∃ o, acceptedOptions argv = some o ∧
      Ends (handler a) (processOptions envType argv) w (.ret o) w) ∨
    acceptedOptions argv = none ∧
      ∃ code, Ends (handler a) (processOptions envType argv) w (.exit (.exit code)) w := by
  unfold acceptedOptions processOptions
  cases hhelp : argv.any isHelp with
  | true =>
    exact .inr ⟨rfl, exitSuccess, (readOptions_help a envType hhelp noOptions w).andThen_exit⟩
  | false =>
    have hread : Ends (handler a) (readOptions envType argv noOptions) w (.ret (optionsOf argv)) w :=
      readOptions_ends a envType hhelp noOptions w
    have husage := @showUsageAndExit_ends _ a envType Options exitFailure w
    cases hempty : argv.isEmpty with
    | true =>
      refine .inr ⟨rfl, exitFailure, hread.andThen ?_⟩
      exact husage
    | false =>
      cases hprint : (optionsOf argv).dump && (optionsOf argv).printlist.isSome with
      | true =>
        refine .inr ⟨by dsimp only; rw [hprint]; rfl, exitFailure, hread.andThen ?_⟩
        simp only [hprint, if_true, Bool.false_eq_true, if_false]
        exact quiet_andThen (quiet_printErr a _) husage
      | false =>
        cases herase : (optionsOf argv).clean && (optionsOf argv).eraselist.isSome with
        | true =>
          refine .inr ⟨by dsimp only; rw [hprint, herase]; rfl, exitFailure, hread.andThen ?_⟩
          simp only [hprint, herase, if_true, Bool.false_eq_true, if_false]
          exact quiet_andThen (quiet_printErr a _) husage
        | false =>
          refine .inl ⟨optionsOf argv, by dsimp only; rw [hprint, herase]; rfl, hread.andThen ?_⟩
          simp only [hprint, herase, Bool.false_eq_true, if_false]
          exact ends_ret _ _

/-- Looking for the section ends with the working copy in which it is found. -/
def Finds (p : Env (Option ℕ)) (w : World ν) : Option (Store ν) → Prop
  | some working => ∃ w' block, w'.working = working ∧ w'.flash = w.flash ∧ w'.cmds = w.cmds ∧
      working.sections envType = some block ∧ Ends (handler a) p w (.ret (some block.length)) w'
  | none => ∃ w', w'.flash = w.flash ∧ Ends (handler a) p w (.ret none) w'

/-- The section is not found. -/
theorem notDetected_finds (w : World ν) : Finds a envType (notDetected envType) w none :=
  ⟨w, rfl, quiet_andThen (quiet_printErr a _) (ends_ret _ _)⟩

variable {a envType} in
/-- A call that leaves the flash alone. -/
theorem finds_call {o : EnvOp} {f : EnvResp o → Env (Option ℕ)} {w w₁ : World ν} {r : EnvResp o}
    {found : Option (Store ν)} (ho : handler a o w = (r, w₁))
    (hkept : w₁.flash = w.flash ∧ w₁.cmds = w.cmds) (hf : Finds a envType (f r) w₁ found) :
    Finds a envType (ask o >>= f) w found := by
  have hcall : ∀ {out w'}, Ends (handler a) (f r) w₁ out w' →
      Ends (handler a) (ask o >>= f) w out w' := by
    intro out w' hends
    refine ends_call ?_
    rw [ho]
    exact hends
  cases found with
  | some working =>
    obtain ⟨w', block, hworking, hflash, hcmds, hblock, hends⟩ := hf
    exact ⟨w', block, hworking, hflash.trans hkept.1, hcmds.trans hkept.2, hblock, hcall hends⟩
  | none =>
    obtain ⟨w', hflash, hends⟩ := hf
    exact ⟨w', hflash.trans hkept.1, hcall hends⟩

/-- Adding the missing section. -/
theorem addSection_finds (prodInfoDataSize : ℕ) {w : World ν} (hfinds : w.finds = 1) :
    Finds a envType (addSection prodInfoDataSize envType) w
      (added prodInfoDataSize a envType w.working) := by
  unfold added
  cases hadd : a.nvOSCfgAdd with
  | none =>
    have hanswer : handler a (.nvOSCfgAdd envType (envDefaultSizes prodInfoDataSize envType)) w =
        (false, w) := by
      simp only [handler, hadd]
    refine finds_call hanswer ⟨rfl, rfl⟩ ⟨w, rfl, ?_⟩
    exact quiet_andThen (quiet_printErr a _) (ends_ret _ _)
  | some cells =>
    let block := (List.range (envDefaultSizes prodInfoDataSize envType)).map cells
    let w₁ : World ν := { w with working := w.working.setSection envType block }
    have hanswer : handler a (.nvOSCfgAdd envType (envDefaultSizes prodInfoDataSize envType)) w =
        (true, w₁) := by
      simp only [handler, hadd]
      rfl
    have hsection : w₁.working.sections envType = some block := Function.update_self ..
    refine finds_call hanswer ⟨rfl, rfl⟩ ?_
    cases hfind : a.nvOSCfgFind 1 with
    | true =>
      have hsecond : handler a (.nvOSCfgFind envType) w₁ =
          (some block.length, { w₁ with finds := w.finds + 1 }) := by
        have hfind₁ : a.nvOSCfgFind w₁.finds = true := hfinds ▸ hfind
        simp only [handler, hfind₁, hsection, if_true, Option.map_some]
        rfl
      exact finds_call hsecond ⟨rfl, rfl⟩
        ⟨_, block, rfl, rfl, rfl, hsection, ends_ret _ _⟩
    | false =>
      have hsecond : handler a (.nvOSCfgFind envType) w₁ =
          (none, { w₁ with finds := w.finds + 1 }) := by
        have hfind₁ : a.nvOSCfgFind w₁.finds = false := hfinds ▸ hfind
        simp only [handler, hfind₁, Bool.false_eq_true, if_false]
        rfl
      exact finds_call hsecond ⟨rfl, rfl⟩ (notDetected_finds a envType _)

/-- The section that is located is found. -/
theorem findSection_finds (prodInfoDataSize : ℕ) (clean : Bool) {w : World ν}
    (hfinds : w.finds = 0) :
    Finds a envType (findSection prodInfoDataSize envType clean) w
      (located prodInfoDataSize a envType clean w.flash) := by
  unfold located
  cases hinit : a.nvInit with
  | false =>
    have hanswer : handler a .nvInit w = (false, w) := by
      simp only [handler, hinit, Bool.false_eq_true, if_false]
    refine finds_call hanswer ⟨rfl, rfl⟩ ⟨w, rfl, ?_⟩
    exact quiet_andThen (quiet_printErr a _) (ends_ret _ _)
  | true =>
    have hanswer : handler a .nvInit w = (true, { w with working := w.flash }) := by
      simp only [handler, hinit, if_true]
    refine finds_call hanswer ⟨rfl, rfl⟩ ?_
    rw [if_pos rfl, Bool.not_true, if_neg Bool.false_ne_true]
    by_cases hfound : (a.nvOSCfgFind 0 && (w.flash.sections envType).isSome) = true
    · obtain ⟨hfind, hsome⟩ := Bool.and_eq_true_iff.mp hfound
      obtain ⟨block, hblock⟩ := Option.isSome_iff_exists.mp hsome
      have hfirst : handler a (.nvOSCfgFind envType) { w with working := w.flash } =
          (some block.length, { w with working := w.flash, finds := w.finds + 1 }) := by
        simp only [handler, hfinds, hfind, hblock, if_true, Option.map_some]
      rw [if_pos hfound]
      exact finds_call hfirst ⟨rfl, rfl⟩ ⟨_, block, rfl, rfl, rfl, hblock, ends_ret _ _⟩
    · have hnone : (if a.nvOSCfgFind 0 then (w.flash.sections envType).map List.length else none) =
          none := by
        cases hfind : a.nvOSCfgFind 0 with
        | false => rfl
        | true =>
          rw [hfind, Bool.true_and, Option.not_isSome_iff_eq_none] at hfound
          rw [if_pos rfl, hfound, Option.map_none]
      have hfirst : handler a (.nvOSCfgFind envType) { w with working := w.flash } =
          (none, { w with working := w.flash, finds := 1 }) := by
        simp only [handler, hfinds, hnone]
      rw [if_neg hfound]
      refine finds_call hfirst ⟨rfl, rfl⟩ ?_
      by_cases hclean : (clean && decide (envDefaultSizes prodInfoDataSize envType ≠ 0)) = true
      · simp only [hclean, if_true]
        exact addSection_finds a envType prodInfoDataSize rfl
      · simp only [hclean, Bool.false_eq_true, if_false]
        exact notDetected_finds a envType _

end Loading

/-- How a computation on arrays ends. -/
def outcomeOf {α : Type} : Except Fault α → Outcome Stop α
  | .ok x => .ret x
  | .error f => .exit (.fault f)

/-- A part that looks at arrays and prints, with what it returns. The NVRAM
stays as it is. -/
def Tells (a : Answers ν) {α : Type} (p : Env α) (r : Except Fault α) : Prop :=
  ∀ w, Ends (handler a) p w (outcomeOf r) w

section Tells

variable {a : Answers ν} {α β : Type}

/-- A result. -/
theorem tells_pure (x : α) : Tells a (pure x : Env α) (.ok x) := fun w => ends_ret x w

/-- A part that works on memory only. -/
theorem tells_lift (r : Except Fault α) : Tells a (lift r) r := by
  intro w
  cases r with
  | error f => exact ends_exit _ w
  | ok x => exact ends_ret x w

/-- One part after the other. -/
theorem tells_andThen {p : Env α} {f : α → Env β} {r : Except Fault α} {g : α → Except Fault β}
    (hp : Tells a p r) (hf : ∀ x, Tells a (f x) (g x)) : Tells a (p >>= f) (r >>= g) := by
  intro w
  cases r with
  | error e => exact (hp w).andThen_exit
  | ok x => exact (hp w).andThen (hf x w)

/-- A part that only prints, in front of another one. -/
theorem tells_after {p : Env Unit} {f : Unit → Env β} {r : Except Fault β} (hp : Quiet a p)
    (hf : Tells a (f ()) r) : Tells a (p >>= f) r :=
  fun w => (hp w).andThen (hf w)

/-- A quiet part has no result. -/
theorem Quiet.tells {p : Env Unit} (hp : Quiet a p) : Tells a p (.ok ()) := fun w => hp w

/-- One of two parts. -/
theorem tells_ite {c : Prop} [Decidable c] {p q : Env α} {r t : Except Fault α}
    (hp : Tells a p r) (hq : Tells a q t) : Tells a (if c then p else q) (if c then r else t) := by
  split
  · exact hp
  · exact hq

/-- `env_validate` tells whether the checksum is wrong. -/
theorem envValidate_tells (env : EnvT) (datalen : ℕ) (verbose : Bool) :
    Tells a (envValidate env datalen verbose) (invalid env datalen) := by
  refine tells_andThen (tells_lift _) ?_
  rintro ⟨crc, newCrc⟩
  by_cases hsame : crc = newCrc
  · simp only [hsame, ne_eq, not_true_eq_false, if_false, decide_false]
    exact tells_pure false
  · simp only [hsame, ne_eq, not_false_eq_true, if_true, decide_true]
    cases verbose with
    | false => exact tells_pure true
    | true => exact tells_after (quiet_printErr a _) (tells_pure true)

/-- Looking for variables that may be written once. -/
theorem alreadyWritten_tells (envType : NvOsType) (env : EnvT) (envlen : ℕ) :
    Tells a (alreadyWritten envType env envlen) (writtenBefore envType env envlen) := by
  refine tells_ite (tells_andThen (envValidate_tells env envlen false) fun bad => ?_)
    (tells_pure false)
  refine tells_ite (tells_pure false) (tells_andThen (tells_lift _) fun empty => ?_)
  exact tells_pure _

/-- The block to work on is the one that the changes begin with. -/
theorem checkEnv_tells (envType : NvOsType) (o : Options) (block : Bytes) :
    Tells a (checkEnv envType o (EnvT.ofBlock block) block.length) (startEnv envType o block) := by
  refine tells_andThen (alreadyWritten_tells envType _ _) fun written => ?_
  refine tells_ite (tells_after (quiet_printErr a _) (tells_pure none)) ?_
  refine tells_ite (tells_pure _) (tells_andThen (envValidate_tells _ _ true) fun bad => ?_)
  exact tells_ite (tells_after (quiet_printErr a _) (tells_pure none)) (tells_pure _)

/-- A line. -/
theorem quiet_printLine (line : Bytes) : Quiet a (printLine line) := fun w => ends_perform _ w

/-- Lines. -/
theorem quiet_printLines (lines : List Bytes) : Quiet a (printLines lines) := by
  induction lines with
  | nil => exact fun w => ends_ret _ w
  | cons line lines ih => exact fun w => quiet_andThen (quiet_printLine line) (ih w)

/-- The line of an address. -/
theorem quiet_printIP (name : String) (ip : BitVec 32) : Quiet a (printIP name ip) :=
  fun w => ends_call (quiet_printLine _ w)

/-- The line of a network setting. -/
theorem quiet_printNvramVar (crit : NvCritical) (index : ℕ) :
    Quiet a (printNvramVar crit index) := by
  unfold printNvramVar printFlag
  split
  all_goals first
    | exact quiet_printIP _ _
    | exact quiet_printLine _
    | exact fun w => ends_ret _ w

/-- Lines of network settings. -/
theorem quiet_printNvramVars (crit : NvCritical) (indices : List ℕ) :
    Quiet a (printNvramVars crit indices) := by
  induction indices with
  | nil => exact fun w => ends_ret _ w
  | cons index indices ih => exact fun w => quiet_andThen (quiet_printNvramVar crit index) (ih w)

/-- `env_printenv_nvram_vars`. -/
theorem quiet_envPrintenvNvramVars (envType : NvOsType) (varname : Option CString) :
    Quiet a (envPrintenvNvramVars envType varname) := by
  intro w
  refine ends_call ?_
  change Ends (handler a) (match a.nvCriticalGet with
    | none => _
    | some crit => _) w _ w
  cases a.nvCriticalGet with
  | none => exact ends_ret _ w
  | some crit =>
    cases varname with
    | none => exact quiet_printNvramVars crit _ w
    | some varname =>
      dsimp only
      split
      · exact quiet_printNvramVar crit _ w
      · exact ends_ret _ w

/-- Printing the variables of a list. -/
theorem printVars_tells (envType : NvOsType) (data : Bytes) (envlen : ℕ) (vars : List CString) :
    Tells a (printVars envType data envlen vars) (lookups data envlen vars) := by
  induction vars with
  | nil => exact tells_pure ()
  | cons var vars ih =>
    have hrest : Tells a (do
        let varinenv ← lift (varInEnv data envlen var)
        printLines varinenv.toList
        printVars envType data envlen vars) (lookups data envlen (var :: vars)) :=
      tells_andThen (tells_lift _) fun line => tells_after (quiet_printLines _) ih
    rw [printVars]
    split
    · exact tells_after (quiet_envPrintenvNvramVars envType _) hrest
    · exact hrest

/-- Printing reads what is shown. -/
theorem envPrintenv_tells (envType : NvOsType) (o : Options) (data : Bytes) (envlen : ℕ) :
    Tells a (envPrintenv envType o data envlen) (shown o data envlen) := by
  refine tells_ite (tells_andThen (tells_lift _) fun lines => ?_) ?_
  · refine tells_after (quiet_printLines lines) ?_
    split
    · exact (quiet_envPrintenvNvramVars envType none).tells
    · exact tells_pure ()
  · cases o.printlist with
    | none => exact tells_pure ()
    | some printlist => exact printVars_tells envType data envlen _

end Tells

/-- The block that is stored: the data with its checksum. -/
def sealedBlock (data : Bytes) (envlen : ℕ) : Bytes :=
  sealBlock (crc32 0 (data.take envlen)) data

/-- The NVRAM after a block has been stored, as far as the calls succeed. -/
def stored (a : Answers ν) (envType : NvOsType) (block : Bytes) (w : World ν) : World ν :=
  let w := if a.nvOSCfgSet then { w with working := w.working.setSection envType block } else w
  if a.nvSave then { w with flash := w.working } else w

/-- What a run returns that has changed something. -/
def storedStatus (a : Answers ν) : ℤ := if a.nvOSCfgSet && a.nvSave then exitSuccess else exitFailure

section Store

variable (a : Answers ν) (envType : NvOsType)

/-- The last part stores the block with its checksum, unless its data is cut
short. -/
theorem saveEnv_ends (data : Bytes) (envlen : ℕ) (w : World ν) :
    Ends (handler a) (saveEnv envType data envlen) w
      (outcomeOf (do
        let _ ← crcOver data envlen
        return storedStatus a))
      (if envlen ≤ data.length then stored a envType (sealedBlock data envlen) w else w) := by
  unfold saveEnv
  by_cases hlen : envlen ≤ data.length
  · have hcrc : crcOver data envlen = .ok (crc32 0 (data.take envlen)) := if_pos hlen
    rw [hcrc, if_pos hlen, lift_ok, ret_andThen]
    -- each of the two calls succeeds or fails
    obtain ⟨_, _, _, _, wasSet, _, saved, _, _, _, _⟩ := a
    cases wasSet <;> cases saved <;> exact ⟨rfl, rfl⟩
  · have hcrc : crcOver data envlen = .error (.read data.length) := if_neg hlen
    rw [hcrc, if_neg hlen, lift_error, exit_andThen]
    exact ends_exit _ _

end Store

section Conclude

variable {a : Answers ν} {l : Loaded ν}

/-- The NVRAM at the end of a run whose changes have not been refused. -/
def concluded (a : Answers ν) (l : Loaded ν) (d : Draft ν) (w : World ν) : World ν :=
  if l.o.modifies then stored a l.envType (sealedBlock d.data (envLen l.block.length)) w else w

/-- The last parts show the variables and store the block. -/
theorem printAndSave_ends (d : Draft ν) (w : World ν) :
    (∃ f, checked l d = .error f ∧
      Ends (handler a) (printAndSave l.envType l.o d.data (envLen l.block.length)) w
        (.exit (.fault f)) w) ∨
    checked l d = .ok () ∧
      Ends (handler a) (printAndSave l.envType l.o d.data (envLen l.block.length)) w
        (.ret (if l.o.modifies then storedStatus a else exitSuccess)) (concluded a l d w) := by
  have hshown := @envPrintenv_tells ν a l.envType l.o d.data (envLen l.block.length) w
  unfold checked printAndSave concluded
  cases hshow : shown l.o d.data (envLen l.block.length) with
  | error f =>
    rw [hshow] at hshown
    exact .inl ⟨f, rfl, hshown.andThen_exit⟩
  | ok _ =>
    rw [hshow] at hshown
    cases hmod : l.o.modifies with
    | false => exact .inr ⟨rfl, hshown.andThen (ends_ret _ _)⟩
    | true =>
      have hsave := saveEnv_ends a l.envType d.data (envLen l.block.length) w
      by_cases hlen : envLen l.block.length ≤ d.data.length
      · have hcrc : crcOver d.data (envLen l.block.length) =
            .ok (crc32 0 (d.data.take (envLen l.block.length))) := if_pos hlen
        rw [hcrc, if_pos hlen] at hsave
        refine .inr ⟨?_, hshown.andThen hsave⟩
        rw [hcrc]
        rfl
      · have hcrc : crcOver d.data (envLen l.block.length) = .error (.read d.data.length) :=
          if_neg hlen
        rw [hcrc, if_neg hlen] at hsave
        refine .inl ⟨.read d.data.length, ?_, hshown.andThen hsave⟩
        rw [hcrc]
        rfl

/-- How a run ends that has loaded its block, in this state of the NVRAM: with a
fault before anything is stored; without storing anything; or after the draft
has been looked at or stored. -/
def Concludes (a : Answers ν) (l : Loaded ν) (p : Env ℤ) (w₀ w : World ν) : Prop :=
  match attempt a l with
  | .error f => ∃ w', w'.flash = w.flash ∧ Ends (handler a) p w₀ (.exit (.fault f)) w'
  | .ok none => ∃ w', w'.flash = w.flash ∧
      (Ends (handler a) p w₀ (.ret exitFailure) w' ∨ Ends (handler a) p w₀ .hang w')
  | .ok (some d) => Ends (handler a) p w₀ (.ret (if l.o.modifies then storedStatus a else exitSuccess))
      (concluded a l d (w.withDraft d))

/-- What is done around a part does not matter for how it ends. -/
theorem Concludes.around {p q : Env ℤ} {w₀ w₁ w : World ν} (hp : Concludes a l p w₀ w)
    (hexit : ∀ f w', Ends (handler a) p w₀ (.exit (.fault f)) w' →
      Ends (handler a) q w₁ (.exit (.fault f)) w')
    (hhang : ∀ w', Ends (handler a) p w₀ .hang w' → Ends (handler a) q w₁ .hang w')
    (hret : ∀ status w', Ends (handler a) p w₀ (.ret status) w' →
      Ends (handler a) q w₁ (.ret status) w') : Concludes a l q w₁ w := by
  unfold Concludes at hp ⊢
  cases hattempt : attempt a l with
  | error f =>
    rw [hattempt] at hp
    obtain ⟨w', hflash, hends⟩ := hp
    exact ⟨w', hflash, hexit f w' hends⟩
  | ok draft =>
    rw [hattempt] at hp
    cases draft with
    | none =>
      obtain ⟨w', hflash, hends | hends⟩ := hp
      · exact ⟨w', hflash, .inl (hret _ w' hends)⟩
      · exact ⟨w', hflash, .inr (hhang w' hends)⟩
    | some d => exact hret _ _ hp

/-- What `withEnv` does once the block has been checked. -/
def afterCheck (envType : NvOsType) (o : Options) (uiSize : ℕ) : Option EnvT → Env ℤ
  | none => return exitFailure
  | some env => do
    match ← modifyEnv envType o env.data (envLen uiSize) with
    | none => return exitFailure
    | some data => printAndSave envType o data (envLen uiSize)

/-- A block that was checked, with edits that fault. -/
theorem attempt_fault {l : Loaded ν} {env : EnvT} {f : Fault}
    (hstart : startEnv l.envType l.o l.block = .ok (some env))
    (hedits : draftEdits a l.envType (envLen l.block.length) (edits a.fopen l.o)
      ⟨env.data, l.working.network, 0⟩ = .error f) : attempt a l = .error f := by
  rw [attempt, hstart]
  change (draftEdits .. >>= _) = _
  rw [hedits]
  rfl

/-- A block that was checked, with an edit that is refused. -/
theorem attempt_refused {l : Loaded ν} {env : EnvT}
    (hstart : startEnv l.envType l.o l.block = .ok (some env))
    (hedits : draftEdits a l.envType (envLen l.block.length) (edits a.fopen l.o)
      ⟨env.data, l.working.network, 0⟩ = .ok none) : attempt a l = .ok none := by
  rw [attempt, hstart]
  change (draftEdits .. >>= _) = _
  rw [hedits]
  rfl

/-- A block that was checked and edited. -/
theorem attempt_drafted {l : Loaded ν} {env : EnvT} {d : Draft ν}
    (hstart : startEnv l.envType l.o l.block = .ok (some env))
    (hedits : draftEdits a l.envType (envLen l.block.length) (edits a.fopen l.o)
      ⟨env.data, l.working.network, 0⟩ = .ok (some d)) :
    attempt a l = checked l d >>= fun _ => .ok (some d) := by
  rw [attempt, hstart]
  change (draftEdits .. >>= _) = _
  rw [hedits]
  rfl

/-- From the allocated block on, a run attempts the changes. -/
theorem withEnv_concludes {w : World ν} (hget : a.nvOSCfgGet = true)
    (hblock : w.working.sections l.envType = some l.block) (hworking : w.working = l.working)
    (hcmds : w.cmds = 0) :
    Concludes a l (withEnv l.envType l.o l.block.length) w w := by
  have hanswer : handler a (.nvOSCfgGet l.envType l.block.length) w = (some l.block, w) := by
    simp only [handler, hget, if_true, hblock, Option.map_some, List.take_length]
  have hcells : l.block ++ List.replicate (l.block.length - l.block.length) 0 = l.block := by
    rw [Nat.sub_self, List.replicate_zero, List.append_nil]
  have hprog : ∀ {out w'}, Ends (handler a) (checkEnv l.envType l.o (EnvT.ofBlock l.block)
      l.block.length >>= afterCheck l.envType l.o l.block.length) w out w' →
      Ends (handler a) (withEnv l.envType l.o l.block.length) w out w' := by
    intro out w' hends
    refine ends_call ?_
    rw [hanswer]
    simp only [hcells]
    exact hends
  have hcheck := @checkEnv_tells ν a l.envType l.o l.block w
  unfold Concludes
  cases hstart : startEnv l.envType l.o l.block with
  | error f =>
    have hattempt : attempt a l = .error f := by
      rw [attempt, hstart]
      rfl
    rw [hstart] at hcheck
    rw [hattempt]
    exact ⟨w, rfl, hprog hcheck.andThen_exit⟩
  | ok env =>
    rw [hstart] at hcheck
    cases env with
    | none =>
      have hattempt : attempt a l = .ok none := by
        rw [attempt, hstart]
        rfl
      rw [hattempt]
      exact ⟨w, rfl, .inl (hprog (hcheck.andThen (ends_ret _ _)))⟩
    | some env =>
      have hmodify := modifyEnv_modifies a l.envType (envLen l.block.length) l.o env.data w
      have hdraft : w.draft env.data = ⟨env.data, l.working.network, 0⟩ := by
        rw [World.draft, hworking, hcmds]
      rw [hdraft] at hmodify
      cases hedits : draftEdits a l.envType (envLen l.block.length) (edits a.fopen l.o)
          ⟨env.data, l.working.network, 0⟩ with
      | error f =>
        rw [hedits] at hmodify
        rw [attempt_fault hstart hedits]
        obtain ⟨w', hw', hflash⟩ := hmodify
        exact ⟨w', hflash, hprog (hcheck.andThen hw'.andThen_exit)⟩
      | ok draft =>
        rw [hedits] at hmodify
        cases draft with
        | none =>
          rw [attempt_refused hstart hedits]
          obtain ⟨w', hw' | hw', hflash⟩ := hmodify
          · exact ⟨w', hflash, .inl (hprog (hcheck.andThen (hw'.andThen (ends_ret _ _))))⟩
          · exact ⟨w', hflash, .inr (hprog (hcheck.andThen hw'.andThen_hang))⟩
        | some d =>
          rw [attempt_drafted hstart hedits]
          rcases @printAndSave_ends ν a l d (w.withDraft d) with
            ⟨f, hchecked, hends⟩ | ⟨hchecked, hends⟩
          · rw [hchecked]
            exact ⟨w.withDraft d, rfl, hprog (hcheck.andThen (Ends.andThen hmodify hends))⟩
          · rw [hchecked]
            exact hprog (hcheck.andThen (Ends.andThen hmodify hends))

/-- A run loads its block, and then attempts the changes. -/
theorem main_concludes (prodInfoDataSize : ℕ) (argv0 : CString) (argv : List Opt)
    (working flash : Store ν) :
    match loaded prodInfoDataSize a argv0 argv flash with
    | some l => ∃ w, w.flash = flash ∧ w.working = l.working ∧
        Concludes a l (main prodInfoDataSize argv0 argv) (started working flash) w
    | none => ∃ w', w'.flash = flash ∧
        (Ends (handler a) (main prodInfoDataSize argv0 argv) (started working flash)
          (.ret exitFailure) w' ∨
        ∃ code, Ends (handler a) (main prodInfoDataSize argv0 argv) (started working flash)
          (.exit (.exit code)) w') := by
  unfold loaded
  cases htype : envTypeOf argv0 with
  | none =>
    simp only [main, htype]
    exact ⟨_, rfl, .inl (quiet_andThen (quiet_printErr a _) (ends_ret _ (started working flash)))⟩
  | some envType =>
    simp only [main, htype]
    rcases processOptions_ends a envType argv (started working flash) with
      ⟨o, ho, hopts⟩ | ⟨ho, code, hopts⟩
    swap
    · rw [ho]
      exact ⟨_, rfl, .inr ⟨code, hopts.andThen_exit⟩⟩
    rw [ho]
    have hfind := findSection_finds a envType prodInfoDataSize o.clean
      (rfl : (started working flash).finds = 0)
    change match (do
        let working ← located prodInfoDataSize a envType o.clean flash
        let block ← working.sections envType
        if a.malloc && a.nvOSCfgGet then some ⟨envType, o, block, working⟩ else none :
          Option (Loaded ν)) with
      | some l => _
      | none => _
    cases hlocated : located prodInfoDataSize a envType o.clean flash with
    | none =>
      obtain ⟨w', hflash, hends⟩ : Finds a envType _ (started working flash) none := hlocated ▸ hfind
      exact ⟨w', hflash, .inl (hopts.andThen (hends.andThen (ends_ret _ _)))⟩
    | some found =>
      obtain ⟨w, block, hworking, hflash, hcmds, hblock, hends⟩ :
        Finds a envType _ (started working flash) (some found) := hlocated ▸ hfind
      change match (do
          let block ← found.sections envType
          if a.malloc && a.nvOSCfgGet then some ⟨envType, o, block, found⟩ else none :
            Option (Loaded ν)) with
        | some l => _
        | none => _
      rw [hblock]
      have hmem : handler a (.malloc block.length) w = (a.malloc, w) := rfl
      cases hmalloc : a.malloc with
      | false =>
        refine ⟨w, hflash, .inl (hopts.andThen (hends.andThen (ends_call ?_)))⟩
        rw [hmem, hmalloc]
        exact ends_call (ends_ret _ _)
      | true =>
        rw [hmalloc] at hmem
        cases hget : a.nvOSCfgGet with
        | false =>
          have hanswer : handler a (.nvOSCfgGet envType block.length) w = (none, w) := by
            simp only [handler, hget, Bool.false_eq_true, if_false]
          have hwith : Ends (handler a) (withEnv envType o block.length) w (.ret exitFailure) w := by
            refine ends_call ?_
            rw [hanswer]
            exact quiet_andThen (quiet_printErr a _) (ends_ret _ _)
          refine ⟨w, hflash, .inl (hopts.andThen (hends.andThen (ends_call ?_)))⟩
          rw [hmem]
          exact hwith.andThen (ends_call (ends_ret _ _))
        | true =>
          have hconcludes := @withEnv_concludes ν a ⟨envType, o, block, found⟩ w hget
            (hworking ▸ hblock) hworking hcmds
          refine ⟨w, hflash, hworking, hconcludes.around ?_ ?_ ?_⟩
          · intro f w' hwith
            refine hopts.andThen (hends.andThen (ends_call ?_))
            rw [hmem]
            exact hwith.andThen_exit
          · intro w' hwith
            refine hopts.andThen (hends.andThen (ends_call ?_))
            rw [hmem]
            exact hwith.andThen_hang
          · intro status w' hwith
            refine hopts.andThen (hends.andThen (ends_call ?_))
            rw [hmem]
            exact hwith.andThen (ends_call (ends_ret _ _))

end Conclude

end MetaDigi.EnvRuns
