import Mathlib.Data.List.Chain
import MetaDigi.EnvCommit

/-!
# Product information is written once

The block of the product information is sealed by the first run that stores a
variable in it: its checksum is right and its end mark is not the second cell,
so every later run that asks for a change is refused. A valid block without
variables is not refused.
-/

namespace MetaDigi.EnvWriteOnce

open CheckedMemory CStrings EnvCommit EnvEdits EnvFuncs EnvMain EnvNvram EnvRuns EnvScan
  PackedStrings SystemProgram SystemRuns

variable {ν : Type}

/-- A run of `prodinfoenv`. -/
structure Invocation (ν : Type) where
  /-- What the calls answer. -/
  a : Answers ν
  /-- The name of the program. -/
  argv0 : CString
  /-- It is the tool for the product information. -/
  named : envTypeOf argv0 = some .nvosProdInfo
  /-- The options. -/
  argv : List Opt
  /-- The working copy before the run. -/
  working : Store ν
  /-- The flash before the run. -/
  flash : Store ν
  /-- A section that is there is found, or cannot be added once more. -/
  kept : (flash.sections .nvosProdInfo).isSome = true →
    a.nvOSCfgFind 0 = true ∨ a.nvOSCfgAdd = none

namespace Invocation

/-- The run. -/
def run (prodInfoDataSize : ℕ) (v : Invocation ν) : Run EnvOp Stop ℤ (World ν) :=
  exec (handler v.a) everyCall (main prodInfoDataSize v.argv0 v.argv) (started v.working v.flash)

/-- The stored block before the run. -/
def before (v : Invocation ν) : Option Bytes := v.flash.sections .nvosProdInfo

/-- The stored block after the run. -/
def after (prodInfoDataSize : ℕ) (v : Invocation ν) : Option Bytes :=
  (v.run prodInfoDataSize).state.flash.sections .nvosProdInfo

/-- The run has saved a block. -/
def Saved (prodInfoDataSize : ℕ) (v : Invocation ν) : Prop :=
  (v.run prodInfoDataSize).outcome = .ret exitSuccess ∧ v.argv.any isChange = true

/-- Nothing else changes the block between two runs. -/
def Follows (prodInfoDataSize : ℕ) (v u : Invocation ν) : Prop :=
  u.before = v.after prodInfoDataSize

end Invocation

/-- A block with at least one variable: its data begins with a character. -/
def HoldsVariable (block : Bytes) : Prop :=
  ∃ c rest, (EnvT.ofBlock block).data = c :: rest ∧ c ≠ 0

/-- A valid block without variables. -/
def HoldsNothing (block : Bytes) : Prop :=
  invalid (EnvT.ofBlock block) (envLen block.length) = .ok false ∧
    Holds 0 (EnvT.ofBlock block).data []

/-- A valid block that is not found to be empty. -/
def Guarded (block : Bytes) : Prop :=
  invalid (EnvT.ofBlock block) (envLen block.length) = .ok false ∧
    envIsEmpty (EnvT.ofBlock block).data (envLen block.length) ≠ .ok true

/-- A change is still permitted: the block is not taken for one that has been
written, and whatever the options make of its data is stored, if the calls
succeed. -/
structure Permitted (prodInfoDataSize : ℕ) (v : Invocation ν) (block : Bytes) : Prop where
  /-- The check of the block lets the run pass. -/
  passes : ∀ w, Ends (handler v.a)
    (alreadyWritten .nvosProdInfo (EnvT.ofBlock block) (envLen block.length)) w (.ret false) w
  /-- The changes are stored. -/
  stores : ∀ l d, loaded prodInfoDataSize v.a v.argv0 v.argv v.flash = some l →
    v.argv.any isChange = true →
    draftEdits v.a .nvosProdInfo (envLen block.length) (edits v.a.fopen (optionsOf v.argv))
      ⟨dataBefore (optionsOf v.argv) block, l.working.network, 0⟩ = .ok (some d) →
    checked l d = .ok () → v.a.nvOSCfgSet = true → v.a.nvSave = true →
    v.Saved prodInfoDataSize ∧ v.after prodInfoDataSize = some (sealed d.data)

/-- A block that is set is there. -/
theorem setSection_self (store : Store ν) (type : NvOsType) (block : Bytes) :
    (store.setSection type block).sections type = some block :=
  Function.update_self ..

section EndMark

variable {mem : Bytes}

/-- The scan for the terminator does not go back. -/
theorem skipChars_ge {left from' stop : ℕ} (h : skipChars mem left from' = .ok stop) :
    from' ≤ stop := by
  induction left generalizing from' with
  | zero => cases h
  | succ left ih =>
    obtain ⟨c, -, hrest⟩ := ok_of_bind h
    split at hrest
    · exact Nat.le_of_eq (Except.ok.inj hrest)
    · exact Nat.le_of_succ_le (ih hrest)

/-- The end mark lies behind the start of the scan. -/
theorem searchEnd_gt {till left from' endMark : ℕ}
    (h : searchEnd mem till left from' = .ok (some endMark)) : from' < endMark := by
  induction left generalizing from' with
  | zero => cases h
  | succ left ih =>
    unfold searchEnd at h
    split at h
    · obtain ⟨stop, hstop, h⟩ := ok_of_bind h
      have hge := skipChars_ge hstop
      split at h
      · cases h
      · obtain ⟨c, -, h⟩ := ok_of_bind h
        split at h
        · have hmark : stop + 1 = endMark := Option.some.inj (Except.ok.inj h)
          omega
        · have hlater := ih h
          omega
    · cases h

/-- Data that begins with a character is not found to be empty. -/
theorem envIsEmpty_variable {c : UInt8} {rest : Bytes} (hc : c ≠ 0) (envlen : ℕ) :
    envIsEmpty (c :: rest) envlen ≠ .ok true := by
  intro h
  obtain ⟨endMark, hmark, h⟩ := ok_of_bind h
  have hfirst : endMark = some 1 := of_decide_eq_true (Except.ok.inj h)
  rw [hfirst, getEndMark] at hmark
  cases envlen with
  | zero => cases hmark
  | succ envlen =>
    change searchEnd (c :: rest) (envlen + 1) (envlen + 1) 0 = _ at hmark
    rw [searchEnd, if_pos (Nat.succ_pos _)] at hmark
    obtain ⟨stop, hstop, hmark⟩ := ok_of_bind hmark
    have hpos : 1 ≤ stop := by
      obtain ⟨c', hload, hskip⟩ := ok_of_bind hstop
      have hfirst : load (c :: rest) 0 = .ok c := rfl
      rw [hfirst] at hload
      rw [← Except.ok.inj hload, if_neg hc] at hskip
      exact skipChars_ge hskip
    split at hmark
    · cases hmark
    · obtain ⟨next, -, hmark⟩ := ok_of_bind hmark
      split at hmark
      · have hsame : stop + 1 = 1 := Option.some.inj (Except.ok.inj hmark)
        omega
      · have hlater := searchEnd_gt hmark
        omega

end EndMark

/-- A sealed block with a variable is guarded. -/
theorem guarded_sealed {data : Bytes} (h : HoldsVariable (sealed data)) :
    Guarded (sealed data) := by
  refine ⟨invalid_sealed data, ?_⟩
  obtain ⟨c, rest, hdata, hc⟩ := h
  rw [hdata]
  exact envIsEmpty_variable hc _

/-- A valid block of the product information has been written unless it is
empty. -/
theorem writtenBefore_valid {env : EnvT} {envlen : ℕ} (h : invalid env envlen = .ok false) :
    writtenBefore .nvosProdInfo env envlen = (do
      let empty ← envIsEmpty env.data envlen
      return !empty) := by
  change (do
    if ← invalid env envlen then return false
    else do
      let empty ← envIsEmpty env.data envlen
      return !empty : Except Fault Bool) = _
  rw [h]
  rfl

/-- No change begins on a guarded block. -/
theorem startEnv_guarded {block : Bytes} (h : Guarded block) {o : Options}
    (hmod : o.modifies = true) (env : EnvT) :
    startEnv .nvosProdInfo o block ≠ .ok (some env) := by
  intro hstart
  obtain ⟨written, hwritten, hstart⟩ := ok_of_bind hstart
  have hfound : written = true := by
    rw [writtenBefore_valid h.1] at hwritten
    obtain ⟨empty, hempty, hresult⟩ := ok_of_bind hwritten
    cases empty with
    | true => exact absurd hempty h.2
    | false => exact (Except.ok.inj hresult).symm
  rw [hfound, hmod] at hstart
  cases hstart

/-- A valid block without variables is not taken for a written one. -/
theorem writtenBefore_nothing {block : Bytes} (h : HoldsNothing block) :
    writtenBefore .nvosProdInfo (EnvT.ofBlock block) (envLen block.length) = .ok false := by
  obtain ⟨hvalid, hempty⟩ := h
  obtain ⟨rest, hdata⟩ := holds_nil_iff.mp hempty
  have hlen : envLen block.length = (0 :: 0 :: rest : Bytes).length := by
    have hsize : (block.drop 4).length = (0 :: 0 :: rest : Bytes).length := congrArg List.length hdata
    rw [List.length_drop, List.length_cons, List.length_cons] at hsize
    rw [envLen, if_neg (by omega), List.length_cons, List.length_cons]
    exact hsize
  have hmark := getEndMark_empty rest
  rw [writtenBefore_valid hvalid, hdata, hlen, envIsEmpty, hmark]
  rfl

section Section

variable {prodInfoDataSize : ℕ} {v : Invocation ν} {block : Bytes}

/-- A run loads the block that is stored. -/
theorem loaded_before {l : Loaded ν} (hbefore : v.before = some block)
    (h : loaded prodInfoDataSize v.a v.argv0 v.argv v.flash = some l) :
    l.envType = .nvosProdInfo ∧ l.o = optionsOf v.argv ∧ l.block = block := by
  obtain ⟨htype, hopts, hblock, -⟩ := loaded_cases h
  have hprod : l.envType = .nvosProdInfo := Option.some.inj (htype.symm.trans v.named)
  obtain ⟨envType, hname, h⟩ := Option.bind_eq_some_iff.mp h
  obtain ⟨o, -, h⟩ := Option.bind_eq_some_iff.mp h
  obtain ⟨working, hworking, h⟩ := Option.bind_eq_some_iff.mp h
  obtain ⟨found, hfound, h⟩ := Option.bind_eq_some_iff.mp h
  have hsome : (v.flash.sections .nvosProdInfo).isSome = true := Option.isSome_of_eq_some hbefore
  rw [v.named] at hname
  cases hname
  have hflash : working = v.flash := by
    unfold located at hworking
    split at hworking
    · cases hworking
    split at hworking
    · exact (Option.some.inj hworking).symm
    · rename_i hmissing
      rcases v.kept hsome with hfind | hadd
      · exact absurd (by rw [hfind, hsome]; rfl) hmissing
      · split at hworking
        · rw [added, hadd] at hworking
          cases hworking
        · cases hworking
  split at h
  · cases h
    rw [hflash] at hfound
    exact ⟨hprod, hopts, Option.some.inj (hfound.symm.trans hbefore)⟩
  · cases h

/-- A run leaves a guarded block as it is. -/
theorem after_of_guarded (hbefore : v.before = some block) (hguarded : Guarded block) :
    v.after prodInfoDataSize = some block := by
  rw [← hbefore]
  have hends : Ends (handler v.a) (main prodInfoDataSize v.argv0 v.argv)
      (started v.working v.flash) (v.run prodInfoDataSize).outcome
      (v.run prodInfoDataSize).state := ⟨rfl, rfl⟩
  have hsame : (v.run prodInfoDataSize).state.flash = v.flash := by
    rcases run_cases hends with ⟨hflash, -⟩ | ⟨hflash, -⟩ |
      ⟨l, d, w, hloaded, hattempt, hflash, -, -, hstate⟩
    · exact hflash
    · exact hflash
    · obtain ⟨htype, -, hblock⟩ := loaded_before hbefore hloaded
      -- a draft for a change would have begun on the guarded block
      have hmod : ¬l.o.modifies = true := by
        intro hmod
        obtain ⟨env, hstart, hattempt⟩ := ok_of_bind hattempt
        cases env with
        | none => cases hattempt
        | some env =>
          rw [htype, hblock] at hstart
          exact startEnv_guarded hguarded hmod env hstart
      rw [hstate, concluded, if_neg hmod]
      exact hflash
  exact congrArg (fun store => store.sections .nvosProdInfo) hsame

/-- A run that has saved has stored a sealed block. -/
theorem Invocation.Saved.sealed (h : v.Saved prodInfoDataSize) :
    ∃ data, v.after prodInfoDataSize = some (sealed data) := by
  obtain ⟨hsuccess, hchange⟩ := h
  have hends : Ends (handler v.a) (main prodInfoDataSize v.argv0 v.argv)
      (started v.working v.flash) (.ret exitSuccess) (v.run prodInfoDataSize).state :=
    ⟨hsuccess, rfl⟩
  rcases run_cases hends with ⟨-, l, f, -, -, hout⟩ | ⟨-, hout⟩ |
    ⟨l, d, w, hloaded, hattempt, -, -, hout, hstate⟩
  · cases hout
  · rcases hout with hout | hout | ⟨code, hout⟩ <;> cases hout
  · obtain ⟨htype, -⟩ := loaded_cases hloaded
    have hmod := (loaded_modifies hloaded).trans hchange
    rw [if_pos hmod] at hout
    obtain ⟨hset, hsave⟩ := storedStatus_eq_success.mp (Outcome.ret.inj hout).symm
    obtain ⟨hlen, -⟩ := attempt_applied hattempt hmod
    have hprod : l.envType = .nvosProdInfo := Option.some.inj (htype.symm.trans v.named)
    refine ⟨d.data, ?_⟩
    rw [Invocation.after, hstate, concluded, if_pos hmod, stored_flash, if_pos hsave, if_pos hset,
      sealedBlock, hlen, List.take_length, hprod]
    exact setSection_self ..

/-- On a valid block without variables a change is permitted. -/
theorem permitted_of_nothing (hbefore : v.before = some block) (hnothing : HoldsNothing block) :
    Permitted prodInfoDataSize v block := by
  have hwritten := writtenBefore_nothing hnothing
  refine ⟨fun w => ?_, fun l d hloaded hchange hdraft hchecked hset hsave => ?_⟩
  · have htells := @alreadyWritten_tells ν v.a .nvosProdInfo (EnvT.ofBlock block)
      (envLen block.length) w
    rw [hwritten] at htells
    exact htells
  · obtain ⟨htype, hopts, hblock⟩ := loaded_before hbefore hloaded
    have hmod := (loaded_modifies hloaded).trans hchange
    have hstart : ∃ env, startEnv l.envType l.o l.block = .ok (some env) ∧
        env.data = dataBefore (optionsOf v.argv) block := by
      have hresult : ∃ env, startEnv .nvosProdInfo (optionsOf v.argv) block = .ok (some env) := by
        rw [startEnv, hwritten]
        cases hclean : (optionsOf v.argv).clean with
        | true => exact ⟨_, rfl⟩
        | false =>
          refine ⟨EnvT.ofBlock block, ?_⟩
          change (do
            if ← invalid (EnvT.ofBlock block) (envLen block.length) then return none
            else return some (EnvT.ofBlock block) : Except Fault (Option EnvT)) = _
          rw [hnothing.1]
          rfl
      obtain ⟨env, henv⟩ := hresult
      rw [htype, hopts, hblock]
      exact ⟨env, henv, startEnv_data henv⟩
    obtain ⟨env, hstart, hdata⟩ := hstart
    have hattempt : attempt v.a l = .ok (some d) := by
      rw [attempt_drafted hstart (by rw [htype, hopts, hblock, hdata]; exact hdraft), hchecked]
      rfl
    have hmain := @main_concludes ν v.a prodInfoDataSize v.argv0 v.argv v.working v.flash
    rw [hloaded] at hmain
    obtain ⟨w, -, -, hconcludes⟩ := hmain
    rw [Concludes, hattempt] at hconcludes
    dsimp only at hconcludes
    rw [if_pos hmod, storedStatus_eq_success.mpr ⟨hset, hsave⟩] at hconcludes
    obtain ⟨hlen, -⟩ := attempt_applied hattempt hmod
    refine ⟨⟨hconcludes.1, hchange⟩, ?_⟩
    rw [Invocation.after, Invocation.run, hconcludes.2, concluded, if_pos hmod, stored_flash,
      if_pos hsave, if_pos hset, sealedBlock, hlen, List.take_length, htype]
    exact setSection_self ..

end Section

/-- A guarded block is the same after every run of a sequence. -/
theorem after_of_chain {prodInfoDataSize : ℕ} {v : Invocation ν} {later : List (Invocation ν)}
    {block : Bytes} (hchain : (v :: later).IsChain (Invocation.Follows prodInfoDataSize))
    (hafter : v.after prodInfoDataSize = some block) (hguarded : Guarded block) :
    ∀ u ∈ later, u.after prodInfoDataSize = some block := by
  induction later generalizing v with
  | nil => exact fun u hu => absurd hu List.not_mem_nil
  | cons u later ih =>
    obtain ⟨hfollows, hrest⟩ := List.isChain_cons_cons.mp hchain
    have hkept := @after_of_guarded ν prodInfoDataSize u block (hfollows.trans hafter) hguarded
    intro u' hu'
    rcases List.mem_cons.mp hu' with rfl | hu'
    · exact hkept
    · exact ih hrest hkept u' hu'

/-- In every sequence of runs, no run behind one that has saved a block with a
variable changes the block, and as long as the block is valid and without
variables a change is permitted. -/
theorem write_once (prodInfoDataSize : ℕ) (vs : List (Invocation ν))
    (hchain : vs.IsChain (Invocation.Follows prodInfoDataSize)) :
    (∀ earlier v later block, vs = earlier ++ v :: later → v.Saved prodInfoDataSize →
      v.after prodInfoDataSize = some block → HoldsVariable block →
      ∀ u ∈ later, u.after prodInfoDataSize = some block) ∧
    ∀ v ∈ vs, ∀ block, v.before = some block → HoldsNothing block →
      Permitted prodInfoDataSize v block := by
  refine ⟨?_, fun v _ block hbefore hnothing => permitted_of_nothing hbefore hnothing⟩
  intro earlier v later block hvs hsaved hafter hvariable
  obtain ⟨data, hdata⟩ := hsaved.sealed
  have hblock : block = sealed data := Option.some.inj (hafter.symm.trans hdata)
  rw [hvs] at hchain
  refine after_of_chain hchain.right_of_append hafter ?_
  rw [hblock] at hvariable ⊢
  exact guarded_sealed hvariable

/-- An NVRAM in which every call succeeds, except that nothing is added. -/
def savingAnswers : Answers Unit where
  nvInit := true
  nvOSCfgFind := fun _ => true
  nvOSCfgAdd := none
  nvOSCfgGet := true
  nvOSCfgSet := true
  nvCmdLine := fun _ _ _ => some ()
  nvSave := true
  nvCriticalGet := none
  nvToStringIP := fun _ => []
  malloc := true
  fopen := fun _ => .missing

/-- A flash with empty product information. -/
def blankFlash : Store Unit where
  sections := fun type => if type = .nvosProdInfo then some (sealed [0, 0, 0, 0, 0]) else none
  network := ()

/-- `prodinfoenv --set a=b` on empty product information. -/
def setRun : Invocation Unit where
  a := savingAnswers
  argv0 := ⟨text "prodinfoenv", by decide⟩
  named := by decide
  argv := [.set ⟨text "a=b", by decide⟩]
  working := blankFlash
  flash := blankFlash
  kept := fun _ => .inl rfl

/-- `prodinfoenv --clean` after it. -/
def cleanRun : Invocation Unit where
  a := savingAnswers
  argv0 := ⟨text "prodinfoenv", by decide⟩
  named := by decide
  argv := [.clean]
  working := blankFlash
  flash := (setRun.run 0).state.flash
  kept := fun _ => .inl rfl

/-- The first of the two runs stores a variable, and the second one cannot
clear it. -/
theorem write_once_set_clean :
    setRun.Saved 0 ∧ setRun.after 0 = some (sealed [97, 61, 98, 0, 0]) ∧
      cleanRun.after 0 = some (sealed [97, 61, 98, 0, 0]) := by
  have hchain : [setRun, cleanRun].IsChain (Invocation.Follows 0) :=
    List.isChain_pair.mpr rfl
  obtain ⟨hkept, hpermitted⟩ := write_once 0 [setRun, cleanRun] hchain
  have hnothing : HoldsNothing (sealed [0, 0, 0, 0, 0]) :=
    ⟨invalid_sealed _, holds_nil_iff.mpr ⟨[0, 0, 0], rfl⟩⟩
  have hset := hpermitted setRun List.mem_cons_self _ rfl hnothing
  obtain ⟨hsaved, hafter⟩ := hset.stores ⟨.nvosProdInfo, optionsOf setRun.argv,
    sealed [0, 0, 0, 0, 0], blankFlash⟩ ⟨[97, 61, 98, 0, 0], (), 0⟩ rfl rfl rfl rfl rfl rfl
  refine ⟨hsaved, hafter, ?_⟩
  exact hkept [] setRun [cleanRun] _ rfl hsaved hafter ⟨97, _, rfl, by decide⟩ cleanRun
    List.mem_cons_self

end MetaDigi.EnvWriteOnce
