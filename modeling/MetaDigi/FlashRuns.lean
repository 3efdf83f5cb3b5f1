import MetaDigi.FlashEffects
import MetaDigi.FlashWorld

/-!
# When flash is touched

The parts of the tool put together. A dry run leaves flash alone as long as no
partition is flashed by an external program, and only then. A run that rejects
its input has not touched flash; what can still go wrong once flash is touched
lies in the devices and in the files changing under the tool.
-/

namespace MetaDigi.FlashRuns

open CStrings SystemProgram FlashTypes FlashInit FlashTransfer FlashMain FlashEffects
open FlashWorld Prog

section Mounts

variable (g : Globals) (pMtd : MtdPartition)

/-- Finding the root device is quiet. -/
theorem getRootDevice_sat (szRootDev : RootDev) :
    (getRootDevice szRootDev).Sat Plain Device AnyResult := by
  unfold getRootDevice
  split
  · trivial
  · refine sat_sys_andThen rfl fun szCmdLine => ?_
    refine sat_sysOrFail_andThen rfl rfl fun _ _ _ => ?_
    refine sat_sysOrFail_andThen rfl rfl fun _ bytes _ => ?_
    exact sat_sysOrFail_andThen rfl rfl fun _ _ _ => trivial

/-- Remounting is quiet. -/
theorem remountReadOnly_sat (ent : MntEnt) :
    (remountReadOnly ent).Sat Plain Device AnyResult := by
  unfold remountReadOnly
  refine sat_sys_andThen rfl fun reply => ?_
  split
  · trivial
  · exact sat_exit rfl
  · exact sat_exit rfl

/-- Dealing with a mount is quiet. -/
theorem releaseMount_sat (szRootDev : RootDev) (acMtdBlock : Bytes) (ent : MntEnt) :
    (releaseMount szRootDev acMtdBlock ent).Sat Plain Device AnyResult := by
  unfold releaseMount
  dsimp only
  split
  · exact remountReadOnly_sat ent
  · split
    · refine sat_sys_andThen rfl fun unmounted => ?_
      split
      · trivial
      · exact remountReadOnly_sat ent
    · trivial

/-- Walking through the mount table is quiet. -/
theorem remountLoop_sat (szRootDev : RootDev) (acMtdBlock : Bytes) (fuel : ℕ) :
    (Prog.loop (remountPass szRootDev acMtdBlock) fuel ()).Sat Plain Device AnyResult := by
  refine Sat.loop (I := AnyResult) (fun _ _ => ?_) fuel trivial
  unfold remountPass
  refine sat_sys_andThen rfl fun ent => ?_
  split
  · trivial
  · exact Sat.andThen (releaseMount_sat szRootDev _ _) fun _ _ => trivial

/-- Dealing with the mounts of a partition is quiet. -/
theorem mtdPartRemountAllReadOnly_sat (szRootDev : RootDev) :
    (mtdPartRemountAllReadOnly g szRootDev pMtd).Sat Plain Device
      (fun r => Continues pMtd r.2) := by
  unfold mtdPartRemountAllReadOnly
  refine Sat.andThen (getRootDevice_sat szRootDev) fun szRootDev _ => ?_
  split
  · exact sat_ret (.refl pMtd)
  · refine sat_sysOrFail_andThen rfl rfl fun _ _ _ => ?_
    refine Sat.andThen (remountLoop_sat szRootDev _ _) fun _ _ => ?_
    exact sat_sys_andThen rfl fun _ => sat_ret ⟨rfl, fun _ => rfl⟩

/-- Dealing with all mounts is quiet and keeps the records. -/
theorem remountAll_sat (szRootDev : RootDev) (parts : List MtdPartition) :
    (remountAll g szRootDev parts).Sat Plain Device (List.Forall₂ Continues parts) := by
  induction parts generalizing szRootDev with
  | nil => exact List.Forall₂.nil
  | cons pMtd parts ih =>
    refine Sat.andThen (mtdPartRemountAllReadOnly_sat g pMtd szRootDev) fun r hr => ?_
    exact Sat.andThen (ih r.1) fun qs hqs => List.Forall₂.cons hr hqs

end Mounts

section Update

variable (g : Globals) (pMtd : MtdPartition)

/-- An external program flashes the partition: `ubiformat` for an UBI image,
`kobs-ng` for a boot stream. -/
def FlashedExternally (pMtd : MtdPartition) : Prop :=
  pMtd.eFileType = .ftUBI ∨ pMtd.ePartType = .ptBootstream

instance : Decidable (FlashedExternally pMtd) := inferInstanceAs (Decidable (_ ∨ _))

/-- A later state of a record is flashed in the same way. -/
theorem flashedExternally_of_settled {q : MtdPartition} (h : settled q = settled pMtd) :
    FlashedExternally q ↔ FlashedExternally pMtd := by
  have hfile : q.eFileType = pMtd.eFileType := congrArg (fun r => r.eFileType) h
  have hpart : q.ePartType = pMtd.ePartType := congrArg (fun r => r.ePartType) h
  unfold FlashedExternally
  rw [hfile, hpart]

/-- Looking at the temporary directory is a single call. -/
theorem verifyTmpDir_sat (szTmpDir : Path) :
    (verifyTmpDir szTmpDir).Sat (fun o => o = .statfs szTmpDir) AnyReason AnyResult := by
  unfold verifyTmpDir
  refine sat_sysOrFail_andThen rfl trivial fun _ f_type _ => ?_
  split
  · exact sat_exit trivial
  · split
    · exact sat_exit trivial
    · trivial

/-- Copying or summing the images leaves flash alone and keeps the records. -/
theorem checkFiles_sat (parts : List MtdPartition) :
    (checkFiles g parts).Sat Filing AnyReason (List.Forall₂ Continues parts) := by
  unfold checkFiles
  split
  · rename_i szTmpDir _
    have hlook : ∀ o, o = .statfs szTmpDir → Filing o := fun o ho => by
      rw [ho]
      exact .inl (.inl rfl)
    refine Sat.andThen ((verifyTmpDir_sat szTmpDir).mono hlook (fun _ h => h) fun _ h => h)
      fun _ _ => ?_
    refine Sat.mapList fun pMtd _ => ?_
    exact Sat.andThen (mtdPartCopyFile_sat g pMtd _) fun q hq => hq.trans ⟨rfl, fun _ => rfl⟩
  · split
    · exact sat_file (Sat.mapList fun pMtd _ => mtdPartVerifyFile_sat g pMtd)
    · exact List.forall₂_same.mpr fun pMtd _ => .refl pMtd

/-- A call that may be made while a partition is flashed: never a reboot, and
in a dry run one that leaves flash alone, unless an external program does the
work. -/
def MayUpdate (o : Op) : Prop :=
  callKind o ≠ .reboot ∧
    (g.cDryRun = true → ¬ FlashedExternally pMtd → changesFlash o = false)

/-- A quiet call may be made at any time. -/
theorem not_reboot_of_quiet {o : Op} (h : Quiet o) : callKind o ≠ .reboot := by
  rcases h with h | h
  · rw [h]
    decide
  · rw [h]
    decide

/-- A call for a file leaves flash alone. -/
theorem unchanged_of_filing {o : Op} (h : Filing o) : changesFlash o = false := by
  rcases h with (h | h) | h
  · rw [changesFlash, h]
    decide
  · rw [changesFlash, h]
    decide
  · rw [changesFlash, h]
    decide

/-- A quiet call leaves flash alone. -/
theorem unchanged_of_quiet {o : Op} (h : Quiet o) : changesFlash o = false :=
  unchanged_of_filing (.inl h)

/-- A call that spares flash in a dry run. -/
theorem mayUpdate_of_flashing {o : Op} (h : Flashing g o) : MayUpdate g pMtd o := by
  have hquiet : Quiet o → MayUpdate g pMtd o := fun h =>
    ⟨not_reboot_of_quiet h, fun _ _ => unchanged_of_quiet h⟩
  rcases h with (h | ⟨hflash, hdry⟩) | h
  · exact hquiet (.inl h)
  · refine ⟨?_, fun h _ => absurd h hdry⟩
    rw [hflash]
    decide
  · exact hquiet (.inr h)

/-- A program that spares flash in a dry run. -/
theorem sat_mayUpdate {X : ExitReason → Prop} {α : Type} {R : α → Prop} {p : Flash α}
    (hp : p.Sat (Flashing g) X R) : p.Sat (MayUpdate g pMtd) X R :=
  hp.mono (fun _ h => mayUpdate_of_flashing g pMtd h) (fun _ h => h) (fun _ h => h)

/-- A plain program may be part of an update. -/
theorem sat_mayUpdate_of_plain {X : ExitReason → Prop} {α : Type} {R : α → Prop} {p : Flash α}
    (hp : p.Sat Plain X R) : p.Sat (MayUpdate g pMtd) X R :=
  sat_mayUpdate g pMtd (sat_flashing g (sat_spare g hp))

/-- An external program may change flash. -/
theorem mayUpdate_of_external (hext : FlashedExternally pMtd) {o : Op}
    (h : callKind o = .external) : MayUpdate g pMtd o := by
  refine ⟨?_, fun _ hraw => absurd hext hraw⟩
  rw [h]
  decide

/-- `kobs-ng` is an external program. -/
theorem runKobs_sat :
    (runKobs g pMtd).Sat (fun o => callKind o = .external) Device AnyResult := by
  unfold runKobs
  dsimp only
  split
  · refine sat_sys_andThen rfl fun status => ?_
    split
    · trivial
    · exact sat_exit rfl
  · exact sat_exit rfl

/-- `ubiformat` is an external program. -/
theorem mtdPartWriteUbi_sat :
    (mtdPartWriteUbi pMtd).Sat (fun o => callKind o = .external) Device AnyResult := by
  unfold mtdPartWriteUbi
  refine sat_sys_andThen rfl fun status => ?_
  split
  · exact sat_exit rfl
  · split
    · trivial
    · exact sat_exit rfl

/-- Comparing and telling the result. -/
theorem mtdPartVerify_sat (q : MtdPartition) :
    (mtdPartVerify g q).Sat (MayUpdate g pMtd) Device (fun r => settled r.2 = settled q) := by
  unfold mtdPartVerify
  refine Sat.andThen (sat_mayUpdate g pMtd (comparePart_sat g q)) fun ⟨cRes, q⟩ hq => ?_
  exact sat_sys_andThen ⟨CallKind.noConfusion, fun _ _ => rfl⟩ fun _ => sat_ret hq

/-- Writing an image and checking it. -/
theorem writeAndCheck_sat (q : MtdPartition) :
    (writeAndCheck g q).Sat (MayUpdate g pMtd) Device (fun r => settled r = settled q) := by
  unfold writeAndCheck
  refine Sat.andThen (sat_mayUpdate g pMtd (mtdPartWrite_sat g q)) fun q₁ hq₁ => ?_
  refine Sat.andThen (R := fun r => settled r = settled q) ?_ fun q₂ hq₂ => ?_
  · split
    · refine Sat.andThen (mtdPartVerify_sat g pMtd q₁) fun ⟨cRes, q₂⟩ hq₂ => ?_
      dsimp only
      split
      · exact sat_ret (hq₂.trans hq₁)
      · exact sat_exit rfl
    · split
      · exact (sat_mayUpdate_of_plain g pMtd (mtdPartCheckCRC32_sat g q₁)).mono
          (fun _ h => h) (fun _ h => h) fun _ h => h.trans hq₁
      · exact sat_ret hq₁
  · exact (sat_mayUpdate_of_plain g pMtd (mtdPartClose_sat q₂)).mono
      (fun _ h => h) (fun _ h => h) fun r hr => by
        rw [hr]
        exact hq₂

/-- Flashing a partition: no input is judged any more, and the record stays
the same but for its handle and its checksum. -/
theorem updatePart_sat :
    (updatePart g pMtd).Sat (MayUpdate g pMtd) Device (fun q => settled q = settled pMtd) := by
  have hopen := sat_mayUpdate_of_plain g pMtd (mtdPartOpen_sat g pMtd false)
  unfold updatePart
  refine Sat.andThen hopen fun q hq => ?_
  rw [hq]
  refine Sat.andThen (R := AnyResult) ?_ fun _ _ => ?_
  · split
    · exact sat_mayUpdate g pMtd (sat_flashing g (mtdPartErase_sat g _))
    · trivial
  have hclose := sat_mayUpdate_of_plain g pMtd (mtdPartClose_sat
    { pMtd with acName := g.szMtdPrefix ++ decimal pMtd.uiPartition, isOpen := true })
  split
  · rename_i hboot
    refine Sat.andThen hclose fun q hq => ?_
    refine Sat.andThen (R := AnyResult) ?_ fun _ _ => sat_ret (by rw [hq]; rfl)
    exact (runKobs_sat g q).mono (fun _ h => mayUpdate_of_external g pMtd (.inr hboot) h)
      (fun _ h => h) (fun _ h => h)
  · split
    · rename_i hubi
      refine Sat.andThen hclose fun q hq => ?_
      refine Sat.andThen (R := AnyResult) ?_ fun _ _ => sat_ret (by rw [hq]; rfl)
      exact (mtdPartWriteUbi_sat q).mono (fun _ h => mayUpdate_of_external g pMtd (.inl hubi) h)
        (fun _ h => h) (fun _ h => h)
    · exact writeAndCheck_sat g pMtd _

/-- Flashing a partition externally runs a program that changes flash. -/
theorem updatePart_mustCall (hext : FlashedExternally pMtd) :
    (updatePart g pMtd).MustCall (fun o => changesFlash o = true) := by
  unfold updatePart
  refine Sat.andThen_mustCall (mtdPartOpen_sat g pMtd false) fun q hq => ?_
  rw [hq]
  refine Sat.andThen_mustCall (sat_any _) fun _ _ => ?_
  split
  · refine Sat.andThen_mustCall (sat_any _) fun q _ => MustCall.andThen ?_
    unfold runKobs
    dsimp only
    split
    · exact .inl rfl
    · trivial
  · rename_i hboot
    have hubi : pMtd.eFileType = .ftUBI := hext.resolve_right hboot
    rw [if_pos hubi]
    exact Sat.andThen_mustCall (sat_any _) fun q _ => MustCall.andThen (.inl rfl)

/-- Deleting the copies leaves flash alone. -/
theorem unlinkTmpFiles_sat (parts : List MtdPartition) :
    (unlinkTmpFiles g parts).Sat Filing Device AnyResult := by
  unfold unlinkTmpFiles
  split
  · refine Sat.andThen (Sat.mapList (T := fun _ _ => True) fun pMtd _ => ?_) fun _ _ => trivial
    unfold unlinkTmpFile
    refine sat_sys_andThen (.inr rfl) fun reply => ?_
    split
    · exact sat_exit rfl
    · trivial
  · trivial

/-- A program that works on files leaves flash alone. -/
theorem sat_unchanged {X : ExitReason → Prop} {α : Type} {R : α → Prop} {p : Flash α}
    (hp : p.Sat Filing X R) : p.Sat (fun o => changesFlash o = false) X R :=
  hp.mono (fun _ h => unchanged_of_filing h) (fun _ h => h) (fun _ h => h)

/-- In a dry run without external programs no call changes flash. -/
theorem doMtdUpdate_sat (parts : List MtdPartition) (hdry : g.cDryRun = true)
    (hraw : ∀ pMtd ∈ parts, ¬ FlashedExternally pMtd) :
    (doMtdUpdate g parts).Sat (fun o => changesFlash o = false) AnyReason AnyResult := by
  unfold doMtdUpdate
  refine Sat.andThen (sat_unchanged (checkFiles_sat g parts)) fun qs hqs => ?_
  have hremount := sat_file (sat_quiet (sat_relax (remountAll_sat g noRootDev qs)))
  refine Sat.andThen (sat_unchanged hremount) fun rs hrs => ?_
  refine Sat.andThen (R := AnyResult) ?_ fun ps _ => ?_
  · refine sat_forget (Sat.mapList (T := fun _ _ => True) fun r hr => ?_)
    obtain ⟨q, hq, hqr⟩ := forall₂_result hrs hr
    obtain ⟨pMtd, hp, hpq⟩ := forall₂_result hqs hq
    have hext : ¬ FlashedExternally r := by
      rw [flashedExternally_of_settled q hqr.1, flashedExternally_of_settled pMtd hpq.1]
      exact hraw pMtd hp
    exact (updatePart_sat g r).mono (fun o h => h.2 hdry hext) (fun _ _ => trivial)
      (fun _ _ => trivial)
  · exact sat_unchanged (sat_relax (unlinkTmpFiles_sat g ps))

/-- An update with an external program runs it before it returns. -/
theorem doMtdUpdate_mustCall (parts : List MtdPartition) {pMtd : MtdPartition}
    (hp : pMtd ∈ parts) (hext : FlashedExternally pMtd) :
    (doMtdUpdate g parts).MustCall (fun o => changesFlash o = true) := by
  unfold doMtdUpdate
  refine Sat.andThen_mustCall (checkFiles_sat g parts) fun qs hqs => ?_
  refine Sat.andThen_mustCall (remountAll_sat g _ qs) fun rs hrs => ?_
  obtain ⟨q, hq, hpq⟩ := forall₂_element hqs hp
  obtain ⟨r, hr, hqr⟩ := forall₂_element hrs hq
  have hr_ext : FlashedExternally r := by
    rw [flashedExternally_of_settled q hqr.1, flashedExternally_of_settled pMtd hpq.1]
    exact hext
  exact MustCall.andThen (MustCall.mapList hr (updatePart_mustCall g r hr_ext))

/-- What `--dry-run` promises, and for which lists: a run of `DoMtdUpdate`
makes no call that changes flash when nothing is flashed externally, and a run
that gets to its end makes none just in that case. -/
theorem dryRun_spares_flash {σ : Type} (h : Handler Op Resp σ) (s : σ) (parts : List MtdPartition)
    (hdry : g.cDryRun = true) :
    ((∀ pMtd ∈ parts, ¬ FlashedExternally pMtd) →
      ∀ o ∈ (exec h everyCall (doMtdUpdate g parts) s).calls, changesFlash o = false) ∧
    ((exec h everyCall (doMtdUpdate g parts) s).outcome = .ret () →
      ((∀ o ∈ (exec h everyCall (doMtdUpdate g parts) s).calls, changesFlash o = false) ↔
        ∀ pMtd ∈ parts, ¬ FlashedExternally pMtd)) := by
  have hsafe : (∀ pMtd ∈ parts, ¬ FlashedExternally pMtd) →
      ∀ o ∈ (exec h everyCall (doMtdUpdate g parts) s).calls, changesFlash o = false :=
    fun hraw => ((doMtdUpdate_sat g parts hdry hraw).exec h everyCall s).1
  refine ⟨hsafe, fun hret => ⟨fun hquiet pMtd hp hext => ?_, hsafe⟩⟩
  obtain ⟨o, ho, hchanges⟩ := (doMtdUpdate_mustCall g parts hp hext).exec h s hret
  rw [hquiet o ho] at hchanges
  exact absurd hchanges Bool.false_ne_true

/-- The small system with a kernel and a root file system that do not fit into
the first block. -/
def smallStocked : World :=
  smallWorld [(text "uImage-x", text "123456789012345678"),
    (text "rootfs.squashfs", text "12345678901234567890")]

set_option maxRecDepth 8000 in
/-- A dry run with both, with the records that `MtdPartInit` makes of them. -/
theorem dryRun_spares_flash_example :
    (exec (system smallEnv) everyCall
        (mtdPartInit { cDryRun := true, fuel := 20 } 0 (text "uImage-x"))
        smallStocked).outcome = .ret (smallKernel 18) ∧
      (exec (system smallEnv) everyCall
        (mtdPartInit { cDryRun := true, fuel := 20 } 1 (text "rootfs.squashfs"))
        smallStocked).outcome = .ret (smallRoot 20) ∧
      ∀ o ∈ (exec (system smallEnv) everyCall
        (doMtdUpdate { cDryRun := true, fuel := 20 } [smallKernel 18, smallRoot 20])
        smallStocked).calls, changesFlash o = false := by
  refine ⟨rfl, rfl, ?_⟩
  have hall := dryRun_spares_flash { cDryRun := true, fuel := 20 } (system smallEnv) smallStocked
    [smallKernel 18, smallRoot 20] rfl
  exact (hall.2 rfl).mpr (by decide)

set_option maxRecDepth 8000 in
/-- `ubiformat` runs in a dry run. -/
theorem dryRun_runs_ubiformat :
    ∃ o ∈ (exec (system smallEnv) everyCall
      (main { cDryRun := true } [text "root.ubi", text "1"] 20)
      (smallWorld [(text "root.ubi", text "12")])).calls, changesFlash o = true :=
  List.any_eq_true.mp rfl

end Update

section Order

variable (g : Globals)

/-- An update judges its images before the first partition is flashed. -/
theorem doMtdUpdate_guards (parts : List MtdPartition) :
    (doMtdUpdate g parts).Guards Filing Device := by
  unfold doMtdUpdate
  refine Sat.andThen_guards (checkFiles_sat g parts) fun qs _ => ?_
  refine Sat.andThen_guards (sat_file (sat_quiet (remountAll_sat g _ qs))) fun rs _ => ?_
  have hpart : ∀ r, (updatePart g r).Sat (fun _ => True) Device AnyResult := fun r =>
    (updatePart_sat g r).mono (fun _ _ => trivial) (fun _ h => h) (fun _ _ => trivial)
  refine Sat.guards_of_exits (Sat.andThen (R := AnyResult) ?_ fun ps _ => ?_)
  · exact sat_forget (Sat.mapList (T := fun _ _ => True) fun r _ => hpart r)
  · exact (unlinkTmpFiles_sat g ps).mono (fun _ _ => trivial) (fun _ h => h) (fun _ h => h)

/-- Comparing the flash with the images judges no input. -/
theorem doMtdVerify_sat (parts : List MtdPartition) :
    (doMtdVerify g parts).Sat (fun o => callKind o ≠ .reboot) Device AnyResult := by
  unfold doMtdVerify
  refine Sat.andThen (Sat.mapList (T := fun _ _ => True) fun pMtd _ => ?_) fun _ _ => trivial
  have hquiet : ∀ {α : Type} {R : α → Prop} {p : Flash α}, p.Sat Quiet Device R →
      p.Sat (fun o => callKind o ≠ .reboot) Device R := fun hp =>
    hp.mono (fun _ h => not_reboot_of_quiet h) (fun _ h => h) (fun _ h => h)
  unfold verifyPart
  refine Sat.andThen (hquiet (sat_quiet (mtdPartOpen_sat g pMtd true))) fun q _ => ?_
  refine Sat.andThen (R := AnyResult) ?_ fun ⟨_, q⟩ _ =>
    hquiet (sat_quiet (sat_forget (mtdPartClose_sat q)))
  exact (mtdPartVerify_sat g q q).mono (fun _ h => h.1) (fun _ h => h) (fun _ _ => trivial)

/-- Summing the images is quiet. -/
theorem doPrintChecksums_sat (parts : List MtdPartition) :
    (doPrintChecksums g parts).Sat Quiet AnyReason AnyResult := by
  unfold doPrintChecksums
  refine Sat.andThen (Sat.mapList (T := fun _ _ => True) fun pMtd _ => ?_) fun _ _ => trivial
  unfold printChecksum
  refine Sat.andThen (calcCRC32OfFile_sat g _) fun uiCRC32 _ => ?_
  split
  · exact sat_quiet (mtdPartCompareCRC32_sat pMtd _ _)
  · trivial

/-- Whatever the command, flash is touched only when the input has been
judged. -/
theorem main_guards (opts : Options) (args : List Bytes) (fuel : ℕ) :
    (main opts args fuel).Guards Filing Device := by
  unfold main
  refine Sat.andThen_guards (sat_file (prepare_sat opts fuel)) fun g _ => ?_
  refine Sat.andThen_guards (sat_file (nameParts_sat g _ args)) fun parts _ => ?_
  have hlast : ∀ _ : Unit, (finish g).Sat (fun _ => True) Device (fun _ => True) := by
    intro _
    unfold finish
    split
    · exact ⟨trivial, fun _ => trivial⟩
    · trivial
  unfold runCommand
  split
  · exact Sat.andThen_guards (sat_file (doPrintChecksums_sat g parts))
      fun _ _ => Sat.guards_of_exits (hlast ())
  · split
    · refine Guards.andThen_sat (Sat.guards_of_exits ?_) hlast
      exact (doMtdVerify_sat g parts).mono (fun _ _ => trivial) (fun _ h => h) (fun _ h => h)
    · exact (doMtdUpdate_guards g parts).andThen_sat hlast

/-- A run that rejects its input has not touched flash. -/
theorem rejected_before_flash {σ : Type} (h : Handler Op Resp σ) (s : σ) (opts : Options)
    (args : List Bytes) (fuel : ℕ) {e : ExitReason}
    (he : (exec h everyCall (main opts args fuel) s).outcome = .exit e)
    (hrejected : rejectsInput e = true) :
    ∀ o ∈ (exec h everyCall (main opts args fuel) s).calls, changesFlash o = false := by
  intro o ho
  refine unchanged_of_filing ((main_guards opts args fuel).exec h s he (fun hdevice => ?_) o ho)
  rw [Device, hrejected] at hdevice
  exact absurd hdevice Bool.noConfusion

set_option maxRecDepth 8000 in
/-- The second image is too big, and the first partition is untouched. -/
theorem rejected_before_flash_example :
    (exec (system smallEnv) everyCall
      (main {} [text "uImage-x", text "0", text "root.squashfs", text "1"] 20)
      (smallWorld [(text "uImage-x", text "12"), (text "root.squashfs", List.replicate 49 7)])
      ).calls.all (fun o => !changesFlash o) = true :=
  List.all_eq_true.mpr fun o ho => Bool.not_eq_true' _ |>.mpr <|
    rejected_before_flash (system smallEnv)
      (smallWorld [(text "uImage-x", text "12"), (text "root.squashfs", List.replicate 49 7)])
      {} [text "uImage-x", text "0", text "root.squashfs", text "1"] 20
      (e := .fileTooBig (text "root.squashfs") 49 1 48) rfl rfl o ho

/-- A driver that erases but loses what is written. -/
def losesWrites (_ : ℕ) (effect : Effect) (mem : FlashMem) : FlashMem :=
  match effect with
  | .erase part start length => eraseMem mem part start length
  | _ => mem

set_option maxRecDepth 8000 in
/-- A checksum that does not match what is in flash is only found once flash
has been written. -/
theorem flash_mismatch_after_write :
    (exec (system { smallEnv with alter := losesWrites }) everyCall
      (main { cHasChecksum := true } [text "uImage-x", text "0", text "0x4f5344cd"] 20)
      (smallWorld [(text "uImage-x", text "12")])).outcome =
        .exit (.crcMismatch .mtdPartCheckCRC32 (text "uImage-x") 0x4f5344cd 0xffff0000) ∧
    ∃ o ∈ (exec (system { smallEnv with alter := losesWrites }) everyCall
      (main { cHasChecksum := true } [text "uImage-x", text "0", text "0x4f5344cd"] 20)
      (smallWorld [(text "uImage-x", text "12")])).calls, changesFlash o = true :=
  ⟨rfl, List.any_eq_true.mp rfl⟩

end Order

end MetaDigi.FlashRuns
