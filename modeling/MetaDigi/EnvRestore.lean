import MetaDigi.EnvCommit
import MetaDigi.EnvImport

/-!
# Dumping and restoring the environment

A run with `--dump` prints the variables that it leaves in the block, one a
line, and behind them the network settings. A file with that text brings the
same variables back when it is added to a cleared block, in the same order and
in as little room as they need. The lines of the network settings go to the
NVRAM library, as they would have to.
-/

namespace MetaDigi.EnvRestore

open CheckedMemory CStrings Crc32 EnvFuncs EnvMain EnvScan EnvStore EnvEdits EnvNvram EnvRuns
open EnvCommit EnvImport PackedStrings TextLines SystemProgram SystemRuns Prog

variable {ν : Type} {a : Answers ν}

section Printed

/-- What calls write to the standard output. -/
def printed (calls : List EnvOp) : Bytes :=
  calls.flatMap fun o => match o with
    | .fprintf .stdout line => line
    | _ => []

/-- A call that writes nothing to the standard output. -/
def Silent : EnvOp → Prop
  | .fprintf .stdout _ => False
  | _ => True

/-- Calls print one after the other. -/
theorem printed_append (calls calls' : List EnvOp) :
    printed (calls ++ calls') = printed calls ++ printed calls' := List.flatMap_append

/-- Silent calls print nothing. -/
theorem printed_silent {calls : List EnvOp} (h : ∀ o ∈ calls, Silent o) : printed calls = [] := by
  refine List.flatMap_eq_nil_iff.mpr fun o ho => ?_
  split
  · exact (h _ ho).elim
  · rfl

/-- What a run prints. -/
def output (a : Answers ν) {α : Type} (p : Env α) (w : World ν) : Bytes :=
  printed (exec (handler a) everyCall p w).calls

/-- What a first part prints comes first. -/
theorem output_andThen {α β : Type} {p : Env α} {f : α → Env β} {x : α} {w w' : World ν}
    (hp : Ends (handler a) p w (.ret x) w') :
    output a (p >>= f) w = output a p w ++ output a (f x) w' := by
  unfold output
  rw [hp.calls_andThen, printed_append]

/-- A silent program prints nothing. -/
theorem output_silent {α : Type} {p : Env α} {X : Stop → Prop} {R : α → Prop}
    (hp : p.Sat Silent X R) (w : World ν) : output a p w = [] :=
  printed_silent (hp.exec (handler a) everyCall w).1

/-- A part that prints a text, and leaves everything else alone. -/
def Shows (a : Answers ν) (p : Env Unit) (out : Bytes) : Prop :=
  ∀ w, Ends (handler a) p w (.ret ()) w ∧ output a p w = out

/-- One part prints after the other. -/
theorem Shows.andThen {p : Env Unit} {f : Unit → Env Unit} {out out' : Bytes} (hp : Shows a p out)
    (hf : Shows a (f ()) out') : Shows a (p >>= f) (out ++ out') := by
  intro w
  refine ⟨(hp w).1.andThen (hf w).1, ?_⟩
  rw [output_andThen (hp w).1, (hp w).2, (hf w).2]

/-- Nothing is printed without a call. -/
theorem shows_nothing : Shows a (pure () : Env Unit) [] := fun w => ⟨ends_ret () w, rfl⟩

/-- One line. -/
theorem printLine_shows (line : Bytes) : Shows a (printLine line) (line ++ [newline]) :=
  fun w => ⟨ends_perform _ w, List.append_nil _⟩

/-- Lines one after the other. -/
theorem printLines_shows (lines : List Bytes) :
    Shows a (printLines lines) (lines.flatMap (· ++ [newline])) := by
  induction lines with
  | nil => exact shows_nothing
  | cons line lines ih => exact (printLine_shows line).andThen ih

/-- The line for a network setting, with the addresses as the library writes
them. -/
def settingLine (toStringIP : BitVec 32 → Bytes) (crit : NvCritical) : ℕ → Option Bytes
  | 3 => some (text "ipaddr=" ++ toStringIP crit.axDevice0.uiIP)
  | 4 => some (text "ipaddr_wlan=" ++ toStringIP crit.axDevice1.uiIP)
  | 5 => some (text "ipaddr1=" ++ toStringIP crit.eth1dev.uiIP)
  | 6 => some (text "netmask=" ++ toStringIP crit.axDevice0.uiNetMask)
  | 7 => some (text "netmask_wlan=" ++ toStringIP crit.axDevice1.uiNetMask)
  | 8 => some (text "netmask1=" ++ toStringIP crit.eth1dev.uiNetMask)
  | 9 => some (text "serverip=" ++ toStringIP crit.uiIPServer)
  | 10 => some (text "gatewayip=" ++ toStringIP crit.uiIPGateway)
  | 11 => some (text "dnsip=" ++ toStringIP crit.auiIPDNS0)
  | 12 => some (text "dnsip2=" ++ toStringIP crit.auiIPDNS1)
  | 13 => some (text "dhcp=" ++ if crit.axDevice0.bDHCP then text "on" else text "off")
  | 14 => some (text "dhcp_wlan=" ++ if crit.axDevice1.bDHCP then text "on" else text "off")
  | 15 => some (text "dhcp1=" ++ if crit.eth1dev.bDHCP then text "on" else text "off")
  | _ => none

/-- The lines for the network settings. -/
def settingLines (a : Answers ν) : List Bytes :=
  match a.nvCriticalGet with
  | none => []
  | some crit => (List.range' 3 (excludeVars.length - 3)).filterMap
      (settingLine a.nvToStringIP crit)

/-- The line of an address. -/
theorem printIP_shows (name : String) (ip : BitVec 32) :
    Shows a (printIP name ip) (text name ++ a.nvToStringIP ip ++ [newline]) := by
  intro w
  refine ⟨ends_call (printLine_shows _ w).1, ?_⟩
  exact (printLine_shows (a := a) _ w).2

/-- A line that is there. -/
theorem shows_line {p : Env Unit} {line : Bytes} (hp : Shows a p (line ++ [newline])) :
    Shows a p ((some line).toList.flatMap (· ++ [newline])) := by
  rwa [Option.toList_some, List.flatMap_singleton]

/-- A network setting prints its line, if it has one. -/
theorem printNvramVar_shows (crit : NvCritical) : ∀ index, Shows a (printNvramVar crit index)
    ((settingLine a.nvToStringIP crit index).toList.flatMap (· ++ [newline]))
  | 3 | 4 | 5 | 6 | 7 | 8 | 9 | 10 | 11 | 12 => shows_line (printIP_shows _ _)
  | 13 | 14 | 15 => shows_line (printLine_shows _)
  | 0 | 1 | 2 | _ + 16 => shows_nothing

/-- Some of the network settings. -/
theorem printNvramVars_shows (crit : NvCritical) (indices : List ℕ) :
    Shows a (printNvramVars crit indices)
      ((indices.filterMap (settingLine a.nvToStringIP crit)).flatMap (· ++ [newline])) := by
  induction indices with
  | nil => exact shows_nothing
  | cons index indices ih =>
    have hall := (printNvramVar_shows (a := a) crit index).andThen (f := fun _ =>
      printNvramVars crit indices) ih
    rw [← List.flatMap_append] at hall
    have hsplit : (index :: indices).filterMap (settingLine a.nvToStringIP crit) =
        (settingLine a.nvToStringIP crit index).toList ++
          indices.filterMap (settingLine a.nvToStringIP crit) := by
      rw [List.filterMap_cons]
      split
      · rename_i hnone
        rw [hnone]
        rfl
      · rename_i hsome
        rw [hsome]
        rfl
    rw [hsplit]
    exact hall

/-- All network settings. -/
theorem settings_shows :
    Shows a (envPrintenvNvramVars .nvosUboot none)
      ((settingLines a).flatMap (· ++ [newline])) := by
  intro w
  have hask := ends_perform (E := Stop) (h := handler a) .nvCriticalGet w
  have hsilent : output a (ask .nvCriticalGet) w = [] := rfl
  have hcrit : (handler a .nvCriticalGet w).1 = a.nvCriticalGet := rfl
  unfold envPrintenvNvramVars settingLines
  rw [output_andThen hask, hsilent, List.nil_append, ← hcrit]
  cases hget : (handler a .nvCriticalGet w).1 with
  | none =>
    have hrest := shows_nothing (a := a) w
    exact ⟨hask.andThen (by rw [hget]; exact hrest.1), hrest.2⟩
  | some crit =>
    have hrest := printNvramVars_shows (a := a) crit (List.range' 3 (excludeVars.length - 3)) w
    exact ⟨hask.andThen (by rw [hget]; exact hrest.1), hrest.2⟩

/-- The text of a dump: the variables, and behind them the network settings. -/
def dumpText (a : Answers ν) (L : List Bytes) : Bytes :=
  (L ++ settingLines a).flatMap (· ++ [newline])

/-- A dump: the variables, then the network settings. -/
theorem envPrintenv_shows {o : Options} {data : Bytes} {envlen : ℕ} {L : List Bytes}
    (hdump : o.dump = true) (hL : envPrintenvDump data 0 envlen = .ok L) :
    Shows a (envPrintenv .nvosUboot o data envlen) (dumpText a L) := by
  have hsame : envPrintenv .nvosUboot o data envlen = (printLines L >>= fun _ =>
      envPrintenvNvramVars .nvosUboot none) := by
    unfold envPrintenv
    rw [if_pos hdump, hL]
    rfl
  rw [hsame, dumpText, List.flatMap_append]
  exact (printLines_shows L).andThen settings_shows

end Printed

section Silent

/-- However the tool stops. -/
abbrev AnyStop : Stop → Prop := fun _ => True

/-- Whatever the result is. -/
abbrev AnyValue {α : Type} : α → Prop := fun _ => True

variable {α β : Type}

/-- A part that works on memory only. -/
theorem silent_lift (r : Except Fault α) : (lift r).Sat Silent AnyStop AnyValue := by
  cases r with
  | ok x => exact trivial
  | error f => exact trivial

/-- A silent call. -/
theorem silent_ask {o : EnvOp} (ho : Silent o) : (ask o).Sat Silent AnyStop AnyValue :=
  ⟨ho, fun _ => trivial⟩

/-- One part after the other. -/
theorem silent_andThen {p : Env α} {f : α → Env β} (hp : p.Sat Silent AnyStop AnyValue)
    (hf : ∀ x, (f x).Sat Silent AnyStop AnyValue) : (p >>= f).Sat Silent AnyStop AnyValue :=
  Sat.andThen hp fun x _ => hf x

/-- A message on the error output is not part of the dump. -/
theorem silent_printErr (line : Bytes) : (printErr line).Sat Silent AnyStop AnyValue :=
  silent_ask trivial

/-- The options. -/
theorem processOptions_silent (envType : NvOsType) (argv : List Opt) :
    (processOptions envType argv).Sat Silent AnyStop AnyValue := by
  have husage : ∀ code : ℤ, (showUsageAndExit envType code : Env Options).Sat Silent AnyStop
      AnyValue := by
    intro code
    unfold showUsageAndExit
    refine silent_andThen (silent_ask trivial) fun _ => ?_
    trivial
  have hread : ∀ o, (readOptions envType argv o).Sat Silent AnyStop AnyValue := by
    induction argv with
    | nil => exact fun _ => trivial
    | cons opt argv ih =>
      intro o
      cases opt with
      | help => exact husage _
      | _ => exact ih _
  refine silent_andThen (hread noOptions) fun o => ?_
  split
  · exact husage _
  · split
    · exact silent_andThen (silent_printErr _) fun _ => husage _
    · split
      · exact silent_andThen (silent_printErr _) fun _ => husage _
      · trivial

/-- Looking for the section. -/
theorem findSection_silent (prodInfoDataSize : ℕ) (envType : NvOsType) (clean : Bool) :
    (findSection prodInfoDataSize envType clean).Sat Silent AnyStop AnyValue := by
  have hnone : (notDetected envType).Sat Silent AnyStop AnyValue :=
    silent_andThen (silent_printErr _) fun _ => trivial
  refine silent_andThen (silent_ask trivial) fun init => ?_
  split
  · refine silent_andThen (silent_ask trivial) fun found => ?_
    split
    · trivial
    · split
      · refine silent_andThen (silent_ask trivial) fun added => ?_
        split
        · refine silent_andThen (silent_ask trivial) fun found => ?_
          split
          · trivial
          · exact hnone
        · exact silent_andThen (silent_printErr _) fun _ => trivial
      · exact hnone
  · exact silent_andThen (silent_printErr _) fun _ => trivial

/-- `env_validate`. -/
theorem envValidate_silent (env : EnvT) (datalen : ℕ) (verbose : Bool) :
    (envValidate env datalen verbose).Sat Silent AnyStop AnyValue := by
  refine silent_andThen (silent_lift _) fun sums => ?_
  obtain ⟨crc, newCrc⟩ := sums
  dsimp only
  split
  · split
    · exact silent_andThen (silent_printErr _) fun _ => trivial
    · trivial
  · trivial

/-- Checking the block that has been read. -/
theorem checkEnv_silent (envType : NvOsType) (o : Options) (env : EnvT) (uiSize : ℕ) :
    (checkEnv envType o env uiSize).Sat Silent AnyStop AnyValue := by
  refine silent_andThen ?_ fun written => ?_
  · unfold alreadyWritten
    split
    · refine silent_andThen (envValidate_silent _ _ _) fun invalid => ?_
      split
      · trivial
      · exact silent_andThen (silent_lift _) fun _ => trivial
    · trivial
  · split
    · exact silent_andThen (silent_printErr _) fun _ => trivial
    · split
      · trivial
      · refine silent_andThen (envValidate_silent _ _ _) fun invalid => ?_
        split
        · exact silent_andThen (silent_printErr _) fun _ => trivial
        · trivial

/-- `env_add_var`. -/
theorem envAddVar_silent (envType : NvOsType) (varstring : CString) (data : Bytes) (envlen : ℕ) :
    (envAddVar envType varstring data envlen).Sat Silent AnyStop AnyValue := by
  refine silent_andThen (silent_lift _) fun assigned => ?_
  obtain ⟨assigned, tmpstr⟩ := assigned
  dsimp only
  split
  · split
    · split
      · refine silent_andThen (silent_lift _) fun tmpstr => ?_
        refine silent_andThen (silent_ask trivial) fun done => ?_
        split
        · trivial
        · trivial
      · trivial
    · refine silent_andThen (silent_lift _) fun added => ?_
      obtain ⟨added, data⟩ := added
      dsimp only
      split
      · trivial
      · trivial
  · trivial

/-- The edits. -/
theorem modifyEnv_silent (envType : NvOsType) (o : Options) (data : Bytes) (envlen : ℕ) :
    (modifyEnv envType o data envlen).Sat Silent AnyStop AnyValue := by
  have hlines : ∀ ends lines data, (addLines envType envlen ends lines data).Sat Silent AnyStop
      AnyValue := by
    intro ends lines
    induction lines with
    | nil =>
      intro data
      unfold addLines
      split
      · trivial
      · trivial
    | cons line lines ih =>
      intro data
      refine silent_andThen (silent_lift _) fun line => ?_
      refine silent_andThen (envAddVar_silent _ _ _ _) fun failed => ?_
      obtain ⟨failed, data⟩ := failed
      dsimp only
      split
      · exact silent_andThen (silent_printErr _) fun _ => trivial
      · exact ih data
  have hremove : ∀ vars data, (removeVars envlen vars data).Sat Silent AnyStop AnyValue := by
    intro vars
    induction vars with
    | nil => exact fun _ => trivial
    | cons var vars ih =>
      intro data
      refine silent_andThen (silent_lift _) fun removed => ?_
      obtain ⟨removed, data⟩ := removed
      dsimp only
      split
      · exact silent_andThen (silent_printErr _) fun _ => ih data
      · exact ih data
  refine silent_andThen ?_ fun added => ?_
  · unfold addFromFile
    split
    · refine silent_andThen ?_ fun result => ?_
      · refine silent_andThen (silent_ask trivial) fun opened => ?_
        split
        · trivial
        · refine silent_andThen (hlines _ _ _) fun result => ?_
          exact silent_andThen (silent_ask trivial) fun _ => trivial
      · obtain ⟨result, data⟩ := result
        dsimp only
        split
        · exact silent_andThen (silent_printErr _) fun _ => trivial
        · trivial
    · trivial
  · split
    · trivial
    · refine silent_andThen ?_ fun data => ?_
      · unfold eraseFromList
        split
        · exact hremove _ _
        · trivial
      · unfold setVariable
        split
        · refine silent_andThen (envAddVar_silent _ _ _ _) fun failed => ?_
          obtain ⟨failed, data⟩ := failed
          dsimp only
          split
          · exact silent_andThen (silent_printErr _) fun _ => trivial
          · trivial
        · trivial

/-- Storing the block. -/
theorem saveEnv_silent (envType : NvOsType) (data : Bytes) (envlen : ℕ) :
    (saveEnv envType data envlen).Sat Silent AnyStop AnyValue := by
  have hsaved : ∀ wasSet : Bool, (do
      let saved ← ask .nvSave
      if !saved then
        printErr (text "Unable to save " ++ envOsTypeToString envType ++
          text " environment in flash\n")
      return if wasSet && saved then exitSuccess else exitFailure : Env ℤ).Sat Silent AnyStop
        AnyValue := by
    intro wasSet
    refine silent_andThen (silent_ask trivial) fun saved => ?_
    dsimp only
    split
    · exact silent_andThen (silent_printErr _) fun _ => trivial
    · trivial
  refine silent_andThen (silent_lift _) fun crc => ?_
  refine silent_andThen (silent_ask trivial) fun wasSet => ?_
  dsimp only
  split
  · exact silent_andThen (silent_printErr _) fun _ => hsaved _
  · exact hsaved _

end Silent

section Dump

variable {l : Loaded ν} {d : Draft ν}

/-- What an attempt that is not given up has made of the block. -/
theorem attempt_start (h : attempt a l = .ok (some d)) :
    ∃ env, startEnv l.envType l.o l.block = .ok (some env) ∧
      draftEdits a l.envType (envLen l.block.length) (edits a.fopen l.o)
        ⟨env.data, l.working.network, 0⟩ = .ok (some d) ∧ checked l d = .ok () := by
  obtain ⟨env, hstart, h⟩ := ok_of_bind h
  cases env with
  | none => cases h
  | some env =>
    obtain ⟨draft, hedits, h⟩ := ok_of_bind h
    cases draft with
    | none => cases h
    | some draft =>
      obtain ⟨_, hchecked, h⟩ := ok_of_bind h
      cases h
      exact ⟨env, hstart, hedits, hchecked⟩

/-- A run prints what `env_printenv` prints for the data that it stores. -/
theorem withEnv_output {w : World ν} (hget : a.nvOSCfgGet = true)
    (hblock : w.working.sections l.envType = some l.block) (hworking : w.working = l.working)
    (hcmds : w.cmds = 0) (hattempt : attempt a l = .ok (some d)) :
    output a (withEnv l.envType l.o l.block.length) w =
      output a (envPrintenv l.envType l.o d.data (envLen l.block.length)) (w.withDraft d) := by
  obtain ⟨env, hstart, hedits, hchecked⟩ := attempt_start hattempt
  have hanswer : handler a (.nvOSCfgGet l.envType l.block.length) w = (some l.block, w) := by
    simp only [handler, hget, if_true, hblock, Option.map_some, List.take_length]
  have hask := ends_perform (E := Stop) (h := handler a) (.nvOSCfgGet l.envType l.block.length) w
  rw [hanswer] at hask
  have hcells : l.block ++ List.replicate (l.block.length - l.block.length) 0 = l.block := by
    rw [Nat.sub_self, List.replicate_zero, List.append_nil]
  have hcheck := @checkEnv_tells ν a l.envType l.o l.block w
  rw [hstart] at hcheck
  have hmodify := modifyEnv_modifies a l.envType (envLen l.block.length) l.o env.data w
  have hdraft : w.draft env.data = ⟨env.data, l.working.network, 0⟩ := by
    rw [World.draft, hworking, hcmds]
  rw [hdraft, hedits] at hmodify
  have hprint := envPrintenv_tells (a := a) l.envType l.o d.data (envLen l.block.length)
    (w.withDraft d)
  obtain ⟨_, hshown, -⟩ := ok_of_bind hchecked
  rw [hshown] at hprint
  unfold withEnv
  rw [output_andThen hask,
    output_silent (silent_ask (o := .nvOSCfgGet l.envType l.block.length) trivial)]
  dsimp only
  rw [hcells, output_andThen hcheck, output_silent (checkEnv_silent _ _ _ _)]
  dsimp only
  rw [output_andThen hmodify, output_silent (modifyEnv_silent _ _ _ _)]
  dsimp only [printAndSave]
  rw [output_andThen hprint, List.nil_append, List.nil_append, List.nil_append]
  have hlast : (if l.o.modifies then saveEnv l.envType d.data (envLen l.block.length)
      else pure exitSuccess : Env ℤ).Sat Silent AnyStop AnyValue := by
    split
    · exact saveEnv_silent _ _ _
    · trivial
  rw [output_silent hlast, List.append_nil]

variable {prodInfoDataSize : ℕ} {argv0 : CString} {argv : List Opt} {working flash : Store ν}

/-- The same of `main`. -/
theorem main_output (hloaded : loaded prodInfoDataSize a argv0 argv flash = some l)
    (hattempt : attempt a l = .ok (some d)) :
    ∃ w, output a (main prodInfoDataSize argv0 argv) (started working flash) =
      output a (envPrintenv l.envType l.o d.data (envLen l.block.length)) w := by
  obtain ⟨envType, htype, h⟩ := Option.bind_eq_some_iff.mp hloaded
  obtain ⟨o, ho, h⟩ := Option.bind_eq_some_iff.mp h
  obtain ⟨found, hlocated, h⟩ := Option.bind_eq_some_iff.mp h
  obtain ⟨block, hblock, h⟩ := Option.bind_eq_some_iff.mp h
  split at h
  swap
  · cases h
  rename_i hready
  rw [Bool.and_eq_true] at hready
  have hl := Option.some.inj h
  subst hl
  have hopts : Ends (handler a) (processOptions envType argv) (started working flash) (.ret o)
      (started working flash) := by
    rcases processOptions_ends a envType argv (started working flash) with
      ⟨o', ho', hends⟩ | ⟨hnone, -⟩
    · rw [Option.some.inj (ho.symm.trans ho')]
      exact hends
    · rw [ho] at hnone
      cases hnone
  have hfind := findSection_finds a envType prodInfoDataSize o.clean
    (rfl : (started working flash).finds = 0)
  obtain ⟨w, block', hworking, -, hcmds, hblock', hends⟩ :
    Finds a envType _ (started working flash) (some found) := hlocated ▸ hfind
  have hsame : block' = block := Option.some.inj (hblock'.symm.trans hblock)
  subst hsame
  have hask := ends_perform (E := Stop) (h := handler a) (.malloc block'.length) w
  have hanswer : handler a (.malloc block'.length) w = (true, w) := by
    rw [← hready.1]
    rfl
  rw [hanswer] at hask
  have hwith := withEnv_output (l := ⟨envType, o, block', found⟩) (w := w) hready.2
    (hworking ▸ hblock') hworking hcmds hattempt
  have hreturn := withEnv_concludes (l := ⟨envType, o, block', found⟩) (w := w) hready.2
    (hworking ▸ hblock') hworking hcmds
  unfold Concludes at hreturn
  rw [hattempt] at hreturn
  refine ⟨w.withDraft d, ?_⟩
  unfold main
  rw [htype]
  dsimp only [mainOf]
  rw [output_andThen hopts, output_silent (processOptions_silent _ _), output_andThen hends,
    output_silent (findSection_silent _ _ _)]
  dsimp only
  rw [output_andThen hask, output_silent (silent_ask (o := .malloc block'.length) trivial),
    if_pos rfl, output_andThen hreturn, hwith]
  have hfree : ∀ status : ℤ, (ask .free >>= fun _ => pure status : Env ℤ).Sat Silent AnyStop
      AnyValue := fun status => silent_andThen (silent_ask trivial) fun _ => trivial
  rw [output_silent (hfree _), List.nil_append, List.nil_append, List.nil_append, List.append_nil]

/-- The strings of a block are dumped in their order. -/
theorem envPrintenvDump_holds {mem : Bytes} {L : List Bytes} (h : Holds 0 mem L) :
    envPrintenvDump mem 0 mem.length = .ok L := by
  obtain ⟨rest, rfl, -⟩ := h.split
  have hleft : L.length < (flat 0 L ++ 0 :: rest).length := by
    have hlen := length_le_length_flat L
    simp only [List.length_append, List.length_cons]
    omega
  have hprint := printStrings_entries [] rest L h.entries _ hleft
  simpa [envPrintenvDump] using hprint

/-- The size of the data of a block that is large enough for a checksum. -/
theorem envLen_eq {n : ℕ} (h : 4 ≤ n) : envLen n = n - 4 := if_neg (Nat.not_lt.mpr h)

/-- A dump shows the variables that the block has after the run, and the
network settings. -/
theorem dump_prints {old : Bytes} {L : List Bytes} {w' : World ν}
    (hkind : envTypeOf argv0 = some .nvosUboot) (hdump : (optionsOf argv).dump = true)
    (hclean : (optionsOf argv).clean = false) (hold : flash.sections .nvosUboot = some old)
    (hL : Holds 0 (old.drop 4) L)
    (hrun : Ends (handler a) (main prodInfoDataSize argv0 argv) (started working flash)
      (.ret exitSuccess) w') :
    output a (main prodInfoDataSize argv0 argv) (started working flash) =
      dumpText a ((edits a.fopen (optionsOf argv)).foldl (Edit.onVars .nvosUboot) L) := by
  rcases run_cases hrun with ⟨-, l, f, -, -, hout⟩ | ⟨-, hout | hout | ⟨code, hout⟩⟩ |
    ⟨l, d, w, hloaded, hattempt, -⟩
  · cases hout
  · cases hout
  · cases hout
  · cases hout
  obtain ⟨htype, hopts, hblock, hworking, -⟩ := loaded_cases hloaded
  have hl : l.envType = .nvosUboot := (Option.some.inj (hkind.symm.trans htype)).symm
  have hsame : l.block = old := by
    rw [hl, hworking (hopts ▸ hclean), hold] at hblock
    exact (Option.some.inj hblock).symm
  obtain ⟨env, hstart, hedits, -⟩ := attempt_start hattempt
  have hdata : env.data = old.drop 4 := by
    rw [startEnv_data hstart, dataBefore, hopts, hclean, if_neg Bool.false_ne_true, hsame]
  have hsize : envLen l.block.length = (old.drop 4).length := by
    have hpos := hL.stored.length_le
    have hpacked : 0 < (packed 0 L).length := by
      unfold packed
      split
      · exact Nat.zero_lt_two
      · rw [List.length_append]
        exact Nat.succ_pos _
    rw [hsame, List.length_drop]
    rw [List.length_drop] at hpos
    exact envLen_eq (by omega)
  have happlied := applyEdits_of_draftEdits hedits
  rw [hl, hopts, hsize, hdata] at happlied
  have hnew := applyEdits_holds hL happlied
  obtain ⟨v, houtput⟩ := @main_output ν a l d prodInfoDataSize argv0 argv working flash
    hloaded hattempt
  have hall : envLen l.block.length = d.data.length := by
    rw [hsize, length_applyEdits happlied]
  rw [houtput, hall, hl, hopts]
  exact (envPrintenv_shows hdump (envPrintenvDump_holds hnew) v).2

end Dump

section Restore

/-- A list of variables that comes back from a dump: the names are different,
not too long, and none of a network setting; a line holds each variable. -/
structure Restorable (L : List Bytes) : Prop where
  /-- The strings can be stored. -/
  entries : ∀ s ∈ L, Packable 0 s
  /-- A name determines its variable. -/
  distinct : DistinctNames L
  /-- Every string is an assignment. -/
  assigned : ∀ s ∈ L, varAsign ∈ s
  /-- The names fit the arrays for them. -/
  short : ∀ s ∈ L, (s.takeWhile (· ≠ varAsign)).length < envMaxVarNameLen
  /-- They are not kept with the network settings. -/
  own : ∀ s ∈ L, ∀ vars ∈ excludeVars, vars.1 ≠ s.takeWhile (· ≠ varAsign)
  /-- A string is one line. -/
  line : ∀ s ∈ L, newline ∉ s
  /-- The buffer for lines holds it. -/
  room : ∀ s ∈ L, s.length < 308

/-- The library writes addresses as numbers with dots. -/
def Dotted (toStringIP : BitVec 32 → Bytes) : Prop :=
  ∀ ip, (toStringIP ip).length ≤ 15 ∧ (0 : UInt8) ∉ toStringIP ip ∧ newline ∉ toStringIP ip

/-- The library does what it is asked for. -/
structure Willing (a : Answers ν) : Prop where
  /-- It can be initialised. -/
  init : a.nvInit = true
  /-- The section is found. -/
  find : a.nvOSCfgFind 0 = true
  /-- Its block can be read. -/
  get : a.nvOSCfgGet = true
  /-- It can be replaced. -/
  set : a.nvOSCfgSet = true
  /-- The network settings are accepted. -/
  settings : ∀ cmds argv network, (a.nvCmdLine cmds argv network).isSome = true
  /-- Everything can be saved. -/
  save : a.nvSave = true
  /-- There is memory. -/
  memory : a.malloc = true

/-- The line of a network setting, with a short value. -/
def IsSetting (s : Bytes) : Prop :=
  ∃ vars ∈ excludeVars, ∃ value, s = vars.1 ++ varAsign :: value ∧ value.length ≤ 15 ∧
    (0 : UInt8) ∉ value ∧ newline ∉ value

/-- The lines of the network settings are short. -/
theorem settingLines_settings (hdotted : Dotted a.nvToStringIP) :
    ∀ s ∈ settingLines a, IsSetting s := by
  have hline : ∀ crit index s, settingLine a.nvToStringIP crit index = some s → IsSetting s := by
    intro crit index s h
    have hvalue : ∀ front value, (∃ vars ∈ excludeVars, front = vars.1 ++ [varAsign]) →
        value.length ≤ 15 ∧ (0 : UInt8) ∉ value ∧ newline ∉ value →
        some (front ++ value) = some s → IsSetting s := by
      rintro front value ⟨vars, hvars, rfl⟩ hclean hs
      refine ⟨vars, hvars, value, ?_, hclean⟩
      rw [← Option.some.inj hs, List.append_assoc]
      rfl
    have hip : ∀ front ip, (∃ vars ∈ excludeVars, front = vars.1 ++ [varAsign]) →
        some (front ++ a.nvToStringIP ip) = some s → IsSetting s :=
      fun front ip hfront hs => hvalue _ _ hfront (hdotted ip) hs
    have hflag : ∀ front (flag : Bool), (∃ vars ∈ excludeVars, front = vars.1 ++ [varAsign]) →
        some (front ++ if flag then text "on" else text "off") = some s → IsSetting s := by
      intro front flag hfront hs
      refine hvalue _ _ hfront ?_ hs
      cases flag
      · decide
      · decide
    match index, h with
    | 3, h | 4, h | 5, h | 6, h | 7, h | 8, h | 9, h | 10, h | 11, h | 12, h =>
      exact hip _ _ (by decide) h
    | 13, h | 14, h | 15, h => exact hflag _ _ (by decide) h
    | 0, h | 1, h | 2, h | _ + 16, h => cases h
  intro s hs
  unfold settingLines at hs
  split at hs
  · exact absurd hs List.not_mem_nil
  · obtain ⟨index, -, hindex⟩ := List.mem_filterMap.mp hs
    exact hline _ _ _ hindex

/-- A line of a file, without its newline. -/
theorem lineVar_line {s : Bytes} (hclean : (0 : UInt8) ∉ s) :
    lineVar (s ++ [newline]) = CString.ofCells s := by
  have hzero : (0 : UInt8) ∉ s ++ [newline] := by
    rw [List.mem_append, not_or]
    exact ⟨hclean, by decide⟩
  refine Subtype.ext ?_
  rw [lineVar_clean hzero, CString.ofCells_clean hclean, lineText, if_pos List.getLast?_concat,
    List.dropLast_concat]

/-- A file of lines asks for adding them one after the other. -/
theorem fileEdits_lines {lines : List Bytes} (hclean : ∀ s ∈ lines, (0 : UInt8) ∉ s)
    (hline : ∀ s ∈ lines, newline ∉ s) (hroom : ∀ s ∈ lines, s.length < 308) :
    fileEdits (.file (lines.flatMap (· ++ [newline])) true) =
      lines.map fun s => .add (CString.ofCells s) := by
  have hlines := linesWith_flatMap newline hline
  have hpieces : fileLines true (lines.flatMap (· ++ [newline])) = lines.map (· ++ [newline]) := by
    rw [fileLines, linesFrom_eq_pieces, pieces_eq_lines newline (by decide) (Nat.le_refl _), hlines]
    rw [hlines]
    intro line hmem
    obtain ⟨s, hs, rfl⟩ := List.mem_map.mp hmem
    rw [List.length_append]
    exact hroom s hs
  rw [fileEdits, hpieces, if_pos rfl, List.append_nil, List.map_map]
  refine List.map_congr_left fun s hs => ?_
  have hzero : (0 : UInt8) ∉ s ++ [newline] := by
    rw [List.mem_append, not_or]
    exact ⟨hclean s hs, by decide⟩
  have hnonempty : (CString.ofCells (s ++ [newline])).val ≠ [] := by
    rw [CString.ofCells_clean hzero]
    exact List.append_ne_nil_of_right_ne_nil _ (List.cons_ne_nil _ _)
  rw [Function.comp_apply, lineEdit, if_neg hnonempty, lineVar_line (hclean s hs)]

/-- An assignment has a name. -/
theorem nameOf_isSome {s : Bytes} (h : varAsign ∈ s) : ∃ k, nameOf s = some k := by
  refine Option.isSome_iff_exists.mp ?_
  rw [nameOf, Option.isSome_map, strchr, List.findIdx?_isSome, List.any_eq_true]
  exact ⟨varAsign, h, decide_eq_true rfl⟩

/-- A variable that is not there yet becomes the last one. -/
theorem editDraft_new {d : Draft ν} {s : Bytes} {done : List Bytes}
    (hpack : Packable 0 s) (hsign : varAsign ∈ s)
    (hshort : (s.takeWhile (· ≠ varAsign)).length < envMaxVarNameLen)
    (hown : ∀ vars ∈ excludeVars, vars.1 ≠ s.takeWhile (· ≠ varAsign))
    (hnew : ∀ e ∈ done, nameOf e ≠ nameOf s) (h : Holds 0 d.data done)
    (hfits : (packed 0 (done ++ [s])).length ≤ d.data.length) :
    ∃ data, editDraft a .nvosUboot d.data.length d (.add (CString.ofCells s)) =
        .ok (some { d with data := data }) ∧
      data.length = d.data.length ∧ Holds 0 data (done ++ [s]) := by
  have hval : (CString.ofCells s).val = s := CString.ofCells_clean hpack.clean
  have hname : (varName (CString.ofCells s)).val = s.takeWhile (· ≠ varAsign) :=
    congrArg (List.takeWhile _) hval
  have hsetting : settingOf .nvosUboot (CString.ofCells s) = none := by
    unfold settingOf envHaveToUseNvram
    rw [if_pos rfl, Option.map_eq_none_iff, List.findFinIdx?_eq_none_iff]
    intro vars hvars
    rw [hname, decide_eq_true_eq]
    exact hown vars hvars
  obtain ⟨k, v, hk, hv⟩ := eq_varString (hval.symm ▸ hsign) (hname.symm ▸ hshort)
  have hset : setVar k v done = done ++ [s] := by
    have hs : (varString k v).val = s := by rw [← hv, hval]
    have hkept : eraseVar k done = done := by
      refine List.eraseP_of_forall_not fun e he hsame => hnew e he ?_
      rw [← hs, nameOf_varString]
      exact of_decide_eq_true hsame
    rw [setVar, hkept, hs]
  obtain ⟨data, hadd, hlen, hholds⟩ := addVar_fits h k v (hset.symm ▸ hfits)
  rw [hset] at hholds
  refine ⟨data, ?_, hlen, hholds⟩
  unfold editDraft
  dsimp only
  rw [if_neg (not_not.mpr (hval.symm ▸ hsign)), if_neg (by rw [hname]; omega), hsetting]
  dsimp only
  rw [hv, hadd]
  rfl

/-- Adding the variables to a block with room for them. -/
theorem draftEdits_variables {L : List Bytes} (hL : Restorable L) (es : List Edit)
    (rest done : List Bytes) (d : Draft ν) (hsplit : done ++ rest = L) (h : Holds 0 d.data done)
    (hfits : (packed 0 L).length ≤ d.data.length) :
    ∃ data, data.length = d.data.length ∧ Holds 0 data L ∧
      draftEdits a .nvosUboot d.data.length
        ((rest.map fun s => .add (CString.ofCells s)) ++ es) d =
          draftEdits a .nvosUboot d.data.length es { d with data := data } := by
  induction rest generalizing done d with
  | nil =>
    rw [List.append_nil] at hsplit
    exact ⟨d.data, rfl, hsplit ▸ h, rfl⟩
  | cons s rest ih =>
    have hs : s ∈ L := by
      rw [← hsplit]
      exact List.mem_append_right _ (List.mem_cons_self ..)
    have hnext : (done ++ [s]) ++ rest = L := by
      rw [List.append_assoc, List.singleton_append, hsplit]
    have hfront : (packed 0 (done ++ [s])).length ≤ d.data.length := by
      refine Nat.le_trans ?_ hfits
      have hsub : (done ++ [s]).Sublist L := hnext ▸ List.sublist_append_left _ _
      have hflat := length_flat_le (z := (0 : UInt8)) hsub
      rw [packed_of_ne_nil (List.append_ne_nil_of_right_ne_nil _ (List.cons_ne_nil _ _)),
        packed_of_ne_nil (List.ne_nil_of_mem hs), List.length_append, List.length_append]
      exact Nat.add_le_add_right hflat _
    have hnew : ∀ e ∈ done, nameOf e ≠ nameOf s := by
      have hdistinct := hL.distinct
      obtain ⟨k, hk⟩ := nameOf_isSome (hL.assigned s hs)
      rw [← hsplit, DistinctNames, List.filterMap_append, List.nodup_append] at hdistinct
      intro e he hsame
      refine hdistinct.2.2 k (List.mem_filterMap.mpr ⟨e, he, hsame.trans hk⟩) k ?_ rfl
      exact List.mem_filterMap.mpr ⟨s, List.mem_cons_self .., hk⟩
    obtain ⟨data, hedit, hlen, hholds⟩ := editDraft_new (a := a) (hL.entries s hs)
      (hL.assigned s hs) (hL.short s hs) (hL.own s hs) hnew h hfront
    obtain ⟨data', hlen', hholds', hrest⟩ := ih (done ++ [s]) { d with data := data } hnext hholds
      (hlen.symm ▸ hfits)
    refine ⟨data', hlen'.trans hlen, hholds', ?_⟩
    rw [List.map_cons, List.cons_append, draftEdits, hedit]
    rw [← hlen]
    exact hrest

/-- A setting is handed to the library. -/
theorem editDraft_setting (hwilling : Willing a) (envlen : ℕ) {vars : Bytes × Bytes}
    {value : Bytes} (hvars : vars ∈ excludeVars) (hlength : value.length ≤ 15)
    (hclean : (0 : UInt8) ∉ value) (d : Draft ν) :
    ∃ network cmds, editDraft a .nvosUboot envlen d
        (.add (CString.ofCells (vars.1 ++ varAsign :: value))) =
      .ok (some ⟨d.data, network, cmds⟩) := by
  have hnames : ∀ vars ∈ excludeVars, (0 : UInt8) ∉ vars.1 ∧ varAsign ∉ vars.1 ∧
      vars.1.length < envMaxVarNameLen ∧ vars.2.length + 16 < envMaxVarNameLen := by
    decide
  obtain ⟨hzero, hplain, hshort, -⟩ := hnames vars hvars
  have hval : (CString.ofCells (vars.1 ++ varAsign :: value)).val = vars.1 ++ varAsign :: value := by
    refine CString.ofCells_clean ?_
    rw [List.mem_append, List.mem_cons, not_or, not_or]
    exact ⟨hzero, by decide, hclean⟩
  have hname : (varName (CString.ofCells (vars.1 ++ varAsign :: value))).val = vars.1 := by
    refine (congrArg (List.takeWhile _) hval).trans ?_
    have hkept : ∀ c ∈ vars.1, decide (c ≠ varAsign) = true := by
      intro c hc
      exact decide_eq_true fun hsign => hplain (hsign ▸ hc)
    rw [List.takeWhile_append_of_pos hkept, List.takeWhile_cons_of_neg (by simp),
      List.append_nil]
  obtain ⟨j, hj⟩ : ∃ j, envHaveToUseNvram .nvosUboot
      (varName (CString.ofCells (vars.1 ++ varAsign :: value))) = some j := by
    refine Option.isSome_iff_exists.mp ?_
    rw [envHaveToUseNvram, if_pos rfl, List.isSome_findFinIdx?, List.any_eq_true]
    exact ⟨vars, hvars, decide_eq_true hname.symm⟩
  have hsign : varAsign ∈ (CString.ofCells (vars.1 ++ varAsign :: value)).val := by
    rw [hval]
    exact List.mem_append_right _ (List.mem_cons_self ..)
  have hsetting : settingOf .nvosUboot (CString.ofCells (vars.1 ++ varAsign :: value)) =
      some ((excludeVars.get j).2 ++ [varAsign] ++ value) := by
    have hvalue : (vars.1 ++ varAsign :: value).drop (vars.1.length + 1) = value := by
      rw [List.drop_length_add_append, List.drop_succ_cons, List.drop_zero]
    rw [settingOf, hj, Option.map_some, hname, hval, hvalue]
  have hroom : ¬ envMaxVarNameLen ≤ ((excludeVars.get j).2 ++ [varAsign] ++ value).length := by
    have hsmall := (hnames _ (List.get_mem excludeVars j)).2.2.2
    simp only [List.length_append, List.length_singleton]
    omega
  obtain ⟨network, hnetwork⟩ := Option.isSome_iff_exists.mp (hwilling.settings d.cmds
    (settingCmd ((excludeVars.get j).2 ++ [varAsign] ++ value)) d.network)
  refine ⟨network, d.cmds + 1, ?_⟩
  unfold editDraft
  dsimp only
  rw [if_neg (not_not.mpr hsign), if_neg (by rw [hname]; omega), hsetting]
  dsimp only
  rw [if_neg hroom, hnetwork]
  rfl

/-- Settings are handed to the library. -/
theorem draftEdits_settings (hwilling : Willing a) (envlen : ℕ) {lines : List Bytes}
    (hlines : ∀ s ∈ lines, IsSetting s) (d : Draft ν) :
    ∃ network cmds, draftEdits a .nvosUboot envlen
      (lines.map fun s => .add (CString.ofCells s)) d = .ok (some ⟨d.data, network, cmds⟩) := by
  induction lines generalizing d with
  | nil => exact ⟨d.network, d.cmds, rfl⟩
  | cons s lines ih =>
    have hone : ∃ network cmds, editDraft a .nvosUboot envlen d (.add (CString.ofCells s)) =
        .ok (some ⟨d.data, network, cmds⟩) := by
      obtain ⟨vars, hvars, value, rfl, hlength, hclean, -⟩ := hlines s (List.mem_cons_self ..)
      exact editDraft_setting hwilling envlen hvars hlength hclean d
    obtain ⟨network, cmds, hedit⟩ := hone
    obtain ⟨network', cmds', hrest⟩ := ih (fun t ht => hlines t (List.mem_cons_of_mem _ ht))
      ⟨d.data, network, cmds⟩
    refine ⟨network', cmds', ?_⟩
    rw [List.map_cons, draftEdits, hedit]
    exact hrest

/-- A dump that is read as a file adds its lines one by one. -/
theorem file_dumpText {L : List Bytes} (hL : Restorable L) (hdotted : Dotted a.nvToStringIP) :
    fileEdits (.file (dumpText a L) true) =
      (L.map fun s => .add (CString.ofCells s)) ++
        (settingLines a).map fun s => .add (CString.ofCells s) := by
  have hnames : ∀ vars ∈ excludeVars, (0 : UInt8) ∉ vars.1 ∧ newline ∉ vars.1 ∧
      vars.1.length < 200 := by
    decide
  have hsettings : ∀ s ∈ settingLines a, (0 : UInt8) ∉ s ∧ newline ∉ s ∧ s.length < 308 := by
    intro s hs
    obtain ⟨vars, hvars, value, rfl, hlength, hclean, hline⟩ := settingLines_settings hdotted s hs
    obtain ⟨hzero, hone, hshort⟩ := hnames vars hvars
    refine ⟨?_, ?_, ?_⟩
    · rw [List.mem_append, List.mem_cons, not_or, not_or]
      exact ⟨hzero, by decide, hclean⟩
    · rw [List.mem_append, List.mem_cons, not_or, not_or]
      exact ⟨hone, by decide, hline⟩
    · rw [List.length_append, List.length_cons]
      omega
  rw [dumpText, fileEdits_lines, List.map_append]
  · exact List.forall_mem_append.mpr ⟨fun s hs => (hL.entries s hs).clean, fun s hs => (hsettings s hs).1⟩
  · exact List.forall_mem_append.mpr ⟨hL.line, fun s hs => (hsettings s hs).2.1⟩
  · exact List.forall_mem_append.mpr ⟨hL.room, fun s hs => (hsettings s hs).2.2⟩

end Restore

section RoundTrip

variable {ν' : Type} {a' : Answers ν'} {file : CString} {flash' : Store ν'} {block : Bytes}

/-- A packed list takes at least two bytes. -/
theorem two_le_packed {L : List Bytes} (h : ∀ s ∈ L, Packable 0 s) :
    2 ≤ (packed (0 : UInt8) L).length := by
  unfold packed
  split
  · exact Nat.le_refl 2
  · rename_i hne
    obtain ⟨s, L, rfl⟩ := List.exists_cons_of_ne_nil hne
    rw [flat_cons, List.length_append, List.length_cons, List.length_append]
    have hone := List.length_pos_iff.mpr (h s (List.mem_cons_self ..)).nonempty
    omega

/-- A cleared block holds no string. -/
theorem holds_cleared {n : ℕ} (h : 2 ≤ n) : Holds 0 (List.replicate n (0 : UInt8)) [] := by
  obtain ⟨k, rfl⟩ := Nat.exists_eq_add_of_le' h
  exact holds_nil_iff.mpr ⟨List.replicate k 0, by rw [List.replicate_succ, List.replicate_succ]⟩

/-- What a run with `--clean --fileadd` makes of a dump. -/
theorem attempt_dump {L : List Bytes} (hL : Restorable L) (hdotted : Dotted a.nvToStringIP)
    (hwilling : Willing a') (hfile : a'.fopen file.val = .file (dumpText a L) true)
    (hroom : (packed 0 L).length + 4 ≤ block.length) :
    ∃ d, attempt a' ⟨.nvosUboot, optionsOf [.clean, .fileadd file], block, flash'⟩ = .ok (some d) ∧
      d.data.length + 4 = block.length ∧ Holds 0 d.data L := by
  have hpacked := two_le_packed hL.entries
  let data := List.replicate (block.length - 4) (0 : UInt8)
  have hlen : data.length = block.length - 4 := List.length_replicate
  have hempty : Holds 0 data [] := holds_cleared (by omega)
  have hstart : startEnv .nvosUboot (optionsOf [.clean, .fileadd file]) block =
      .ok (some (EnvT.ofBlock (List.replicate block.length 0))) := rfl
  have hdata : (EnvT.ofBlock (List.replicate block.length 0)).data = data := List.drop_replicate
  have hedits : edits a'.fopen (optionsOf [.clean, .fileadd file]) =
      (L.map fun s => .add (CString.ofCells s)) ++
        (settingLines a).map fun s => .add (CString.ofCells s) := by
    rw [← file_dumpText hL hdotted, ← hfile]
    exact (List.append_nil _).trans (List.append_nil _)
  obtain ⟨data', hlen', hholds, hvars⟩ := draftEdits_variables (a := a') hL
    ((settingLines a).map fun s => .add (CString.ofCells s)) L [] ⟨data, flash'.network, 0⟩ rfl
    hempty (by rw [hlen]; omega)
  obtain ⟨network, cmds, hsettings⟩ := draftEdits_settings hwilling data.length
    (settingLines_settings hdotted) ⟨data', flash'.network, 0⟩
  rw [← hedits] at hvars
  have hall := hvars.trans hsettings
  have hinside : envLen block.length = data.length := (envLen_eq (by omega)).trans hlen.symm
  refine ⟨⟨data', network, cmds⟩, ?_, ?_, hholds⟩
  · have hchecked : checked ⟨.nvosUboot, optionsOf [.clean, .fileadd file], block, flash'⟩
        ⟨data', network, cmds⟩ = .ok () := by
      unfold checked
      dsimp only
      rw [hinside, ← hlen']
      have hcrc : crcOver data' data'.length = .ok (crc32 0 (data'.take data'.length)) :=
        if_pos (Nat.le_refl _)
      rw [hcrc]
      rfl
    rw [attempt_drafted (l := ⟨.nvosUboot, optionsOf [.clean, .fileadd file], block, flash'⟩) hstart
      (by rw [hdata, hinside]; exact hall), hchecked]
    rfl
  · rw [hlen', hlen]
    omega

variable {prodInfoDataSize prodInfoDataSize' : ℕ} {argv0 : CString} {argv : List Opt}
  {working flash : Store ν} {working' : Store ν'}

/-- A dump brings the variables back: what a run with `--dump` prints is the
content of a file that a run with `--clean --fileadd` makes the same variables
of, whatever is in the flash. -/
theorem dump_then_restore {old : Bytes} {L : List Bytes} {w₁ : World ν}
    (hkind : envTypeOf argv0 = some .nvosUboot) (hdump : (optionsOf argv).dump = true)
    (hclean : (optionsOf argv).clean = false) (hold : flash.sections .nvosUboot = some old)
    (hL : Holds 0 (old.drop 4) L)
    (hrun : Ends (handler a) (main prodInfoDataSize argv0 argv) (started working flash)
      (.ret exitSuccess) w₁)
    (hvars : Restorable ((edits a.fopen (optionsOf argv)).foldl (Edit.onVars .nvosUboot) L))
    (hdotted : Dotted a.nvToStringIP) (hwilling : Willing a')
    (hfile : a'.fopen file.val =
      .file (output a (main prodInfoDataSize argv0 argv) (started working flash)) true)
    (hblock : flash'.sections .nvosUboot = some block)
    (hroom : (packed 0 ((edits a.fopen (optionsOf argv)).foldl (Edit.onVars .nvosUboot) L)).length +
      4 ≤ block.length) :
    ∃ w₂ new, Ends (handler a') (main prodInfoDataSize' argv0 [.clean, .fileadd file])
        (started working' flash') (.ret exitSuccess) w₂ ∧
      w₂.flash.sections .nvosUboot = some (sealed new) ∧ (sealed new).length = block.length ∧
      Holds 0 new ((edits a.fopen (optionsOf argv)).foldl (Edit.onVars .nvosUboot) L) ∧
      ∀ type, type ≠ .nvosUboot → w₂.flash.sections type = flash'.sections type := by
  rw [dump_prints hkind hdump hclean hold hL hrun] at hfile
  obtain ⟨d, hattempt, hlen, hholds⟩ := @attempt_dump ν a ν' a' file flash' block _ hvars hdotted
    hwilling hfile hroom
  have hloaded : loaded prodInfoDataSize' a' argv0 [.clean, .fileadd file] flash' =
      some ⟨.nvosUboot, optionsOf [.clean, .fileadd file], block, flash'⟩ := by
    have hfound : located prodInfoDataSize' a' .nvosUboot true flash' = some flash' := by
      unfold located
      rw [hwilling.init, hwilling.find, hblock]
      rfl
    have haccepted : acceptedOptions [.clean, .fileadd file] =
        some (optionsOf [.clean, .fileadd file]) := rfl
    have hcleaned : (optionsOf [.clean, .fileadd file]).clean = true := rfl
    simp only [loaded, hkind, haccepted, hcleaned, hfound, hblock, hwilling.memory, hwilling.get,
      Option.bind_eq_bind, Option.bind_some, Bool.and_self, if_true]
  have hmain := main_concludes (a := a') prodInfoDataSize' argv0 [.clean, .fileadd file] working'
    flash'
  rw [hloaded] at hmain
  obtain ⟨w, hflash, hworking, hconcludes⟩ := hmain
  unfold Concludes at hconcludes
  rw [hattempt] at hconcludes
  have hmod : (optionsOf [.clean, .fileadd file]).modifies = true := rfl
  have hstatus : storedStatus a' = exitSuccess :=
    storedStatus_eq_success.mpr ⟨hwilling.set, hwilling.save⟩
  have hsealed : sealedBlock d.data (envLen block.length) = sealed d.data := by
    rw [sealedBlock, sealed, envLen_eq (by omega), ← hlen, Nat.add_sub_cancel, List.take_length]
  simp only [hmod, if_true, hstatus] at hconcludes
  have hstored : (concluded a' ⟨.nvosUboot, optionsOf [.clean, .fileadd file], block, flash'⟩ d
      (w.withDraft d)).flash =
      ({ flash' with network := d.network } : Store ν').setSection .nvosUboot (sealed d.data) := by
    rw [concluded, if_pos hmod, stored_flash, if_pos hwilling.save, if_pos hwilling.set, hsealed,
      World.withDraft, hworking]
  refine ⟨_, d.data, hconcludes, ?_, ?_, hholds, ?_⟩
  · rw [hstored]
    exact Function.update_self NvOsType.nvosUboot (some (sealed d.data)) flash'.sections
  · rw [sealed, sealBlock, List.length_append, ← hlen, Nat.add_comm]
    rfl
  · intro type htype
    rw [hstored]
    exact Function.update_of_ne htype (some (sealed d.data)) flash'.sections

end RoundTrip

section Example

/-- A byte in decimal digits. -/
def octetText (octet : Fin 256) : Bytes :=
  (Nat.toDigits 10 octet).map fun digit => UInt8.ofNat digit.toNat

/-- An address with its four bytes from the lowest one on. -/
def dottedText (ip : BitVec 32) : Bytes :=
  octetText (Fin.ofNat 256 ip.toNat) ++ text "." ++ octetText (Fin.ofNat 256 (ip.toNat / 256)) ++
    text "." ++ octetText (Fin.ofNat 256 (ip.toNat / 65536)) ++ text "." ++
    octetText (Fin.ofNat 256 (ip.toNat / 16777216))

/-- The usual notation of addresses is short. -/
theorem dotted_dottedText : Dotted dottedText := by
  have hoctet : ∀ octet : Fin 256, (octetText octet).length ≤ 3 ∧ (0 : UInt8) ∉ octetText octet ∧
      newline ∉ octetText octet := by
    decide +kernel
  have hdot : (text ".").length = 1 ∧ (0 : UInt8) ∉ text "." ∧ newline ∉ text "." := by decide
  intro ip
  unfold dottedText
  refine ⟨?_, ?_, ?_⟩
  · have hlen := fun octet => (hoctet octet).1
    have h0 := hlen (Fin.ofNat 256 ip.toNat)
    have h1 := hlen (Fin.ofNat 256 (ip.toNat / 256))
    have h2 := hlen (Fin.ofNat 256 (ip.toNat / 65536))
    have h3 := hlen (Fin.ofNat 256 (ip.toNat / 16777216))
    simp only [List.length_append, hdot.1]
    omega
  · simp only [List.mem_append, (hoctet _).2.1, hdot.2.1, or_self, not_false_iff]
  · simp only [List.mem_append, (hoctet _).2.2, hdot.2.2, or_self, not_false_iff]

/-- A library that does everything. -/
def plainAnswers (opened : Opened) : Answers Unit where
  nvInit := true
  nvOSCfgFind := fun _ => true
  nvOSCfgAdd := none
  nvOSCfgGet := true
  nvOSCfgSet := true
  nvCmdLine := fun _ _ network => some network
  nvSave := true
  nvCriticalGet := some
    ⟨⟨0x0100000A#32, 0x000000FF#32, true⟩, ⟨0, 0, false⟩, ⟨0, 0, false⟩, 0, 0, 0, 0⟩
  nvToStringIP := dottedText
  malloc := true
  fopen := fun _ => opened

/-- A flash with a block for the environment. -/
def ubootFlash (block : Bytes) : Store Unit where
  sections := fun type => if type = .nvosUboot then some block else none
  network := ()

/-- The name of the program. -/
def ubootenv : CString := ⟨text "ubootenv", by decide⟩

/-- A file on another system. -/
def backup : CString := ⟨text "backup", by decide⟩

/-- A block with one variable and room for another one. -/
def roomyBlock : Bytes := sealed (packed 0 [text "a=1"] ++ List.replicate 9 0)

/-- `ubootenv --dump --set b=2`. -/
def dumpRun : Env ℤ := main 0 ubootenv [.dump, .set ⟨text "b=2", by decide⟩]

/-- What it prints. -/
def dumped : Bytes :=
  output (plainAnswers (.file [] true)) dumpRun (started (ubootFlash []) (ubootFlash roomyBlock))

set_option maxRecDepth 16000 in
/-- Two variables are brought back into a block with eight cells behind the
checksum. -/
theorem dump_then_restore_example :
    ∃ w₂ new, Ends (handler (plainAnswers (.file dumped true)))
        (main 0 ubootenv [.clean, .fileadd backup])
        (started (ubootFlash []) (ubootFlash (List.replicate 13 255))) (.ret exitSuccess) w₂ ∧
      w₂.flash.sections .nvosUboot = some (sealed new) ∧ (sealed new).length = 13 ∧
      Holds 0 new [text "a=1", text "b=2"] ∧
      ∀ type, type ≠ .nvosUboot → w₂.flash.sections type = none := by
  obtain ⟨w₁, hrun⟩ : ∃ w₁, Ends (handler (plainAnswers (.file [] true))) dumpRun
      (started (ubootFlash []) (ubootFlash roomyBlock)) (.ret exitSuccess) w₁ :=
    ⟨_, rfl, rfl⟩
  have hclean : ∀ s ∈ [text "a=1", text "b=2"], s ≠ [] ∧ (0 : UInt8) ∉ s := by decide
  have hpack : ∀ s ∈ [text "a=1", text "b=2"], Packable 0 s :=
    fun s hs => ⟨(hclean s hs).1, (hclean s hs).2⟩
  have hold : Holds 0 (roomyBlock.drop 4) [text "a=1"] :=
    ⟨fun s hs => hpack s (List.mem_singleton.mp hs ▸ List.mem_cons_self ..),
      List.prefix_append _ _⟩
  have hdistinct : DistinctNames [text "a=1", text "b=2"] := by
    unfold DistinctNames
    decide
  have hvars : Restorable [text "a=1", text "b=2"] :=
    ⟨hpack, hdistinct, by decide, by decide, by decide, by decide, by decide⟩
  obtain ⟨w₂, new, hends, hsealed, hlen, hholds, hothers⟩ := @dump_then_restore Unit
    (plainAnswers (.file [] true)) Unit (plainAnswers (.file dumped true)) backup
    (ubootFlash (List.replicate 13 255)) _ 0 0 ubootenv [.dump, .set ⟨text "b=2", by decide⟩]
    (ubootFlash []) (ubootFlash roomyBlock) (ubootFlash []) _ [text "a=1"] w₁ rfl rfl rfl rfl hold
    hrun hvars dotted_dottedText ⟨rfl, rfl, rfl, rfl, fun _ _ _ => rfl, rfl, rfl⟩ rfl rfl (by decide)
  exact ⟨w₂, new, hends, hsealed, hlen, hholds, fun type htype => (hothers type htype).trans
    (if_neg htype)⟩

end Example

end MetaDigi.EnvRestore
