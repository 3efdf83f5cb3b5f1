import MetaDigi.FlashRuns
import MetaDigi.FlashVerifying

/-!
# What the exit status tells about a comparison

After flashing, a partition that differs from its image ends the run with a
failure. When only comparisons are asked for, their results are dropped: such
a run that gets to its end tells the truth just when every partition of the
list holds its image.
-/

namespace MetaDigi.FlashVerdicts

open CStrings SystemProgram SystemRuns FlashTypes FlashInit FlashTransfer FlashMain FlashWorld
open FlashEffects FlashRuns FlashRecords FlashDevice FlashChecksum FlashVerifying Prog

/-- Not a return of `MtdPartVerify` with 0. -/
def Agreed (o : Op) : Prop := ∀ part, o ≠ .verifyReturned part false

/-- The tool ends with success, or reboots, only when every `MtdPartVerify`
has returned 1. -/
def Truthful {σ : Type} (run : Run Op ExitReason Unit σ) : Prop :=
  run.outcome = .ret () ∨ .reboot ∈ run.calls → ∀ o ∈ run.calls, Agreed o

/-- The command is to compare only. -/
def verifiesOnly (opts : Options) : Bool := opts.cVerifyOnly && !opts.cChecksumOnly

section Returns

variable (g : Globals)

theorem agreed_of_filing {o : Op} (h : Filing o) : Agreed o := by
  rintro part rfl
  rcases h with (h | h) | h
  · exact CallKind.noConfusion h
  · exact CallKind.noConfusion h
  · exact CallKind.noConfusion h

theorem agreed_of_flashing {o : Op} (h : Flashing g o) : Agreed o := by
  rintro part rfl
  rcases h with (h | ⟨h, -⟩) | h
  · exact CallKind.noConfusion h
  · exact CallKind.noConfusion h
  · exact CallKind.noConfusion h

/-- A comparison has agreed when it has returned 1. -/
theorem agreed_verifyReturned (part : ℕ) (res : Bool) :
    Agreed (.verifyReturned part res) ↔ res = true := by
  constructor
  · intro h
    cases res with
    | true => rfl
    | false => exact absurd rfl (h part)
  · rintro rfl part' heq
    cases heq

variable {X : ExitReason → Prop} {α β : Type} {R : α → Prop} {p : Flash α}

theorem sat_agreed_filing (hp : p.Sat Filing X R) : p.Sat Agreed X R :=
  hp.mono (fun _ h => agreed_of_filing h) (fun _ h => h) (fun _ h => h)

theorem sat_agreed_quiet (hp : p.Sat Quiet X R) : p.Sat Agreed X R :=
  sat_agreed_filing (sat_file hp)

theorem sat_agreed_plain (hp : p.Sat Plain X R) : p.Sat Agreed X R :=
  sat_agreed_quiet (sat_quiet hp)

theorem sat_agreed_flashing (hp : p.Sat (Flashing g) X R) : p.Sat Agreed X R :=
  hp.mono (fun _ h => agreed_of_flashing g h) (fun _ h => h) (fun _ h => h)

theorem sat_agreed_external (hp : p.Sat (fun o => callKind o = .external) X R) : p.Sat Agreed X R :=
  hp.mono (fun o h part heq => by
    rw [heq] at h
    exact CallKind.noConfusion h) (fun _ h => h) (fun _ h => h)

/-- What follows a comparison returns only when it has agreed, provided that a
difference is not passed on. -/
theorem mtdPartVerify_returnsWith (pMtd : MtdPartition) {f : Bool × MtdPartition → Flash β}
    (hsame : ∀ q, (f (true, q)).ReturnsWith Agreed)
    (hdiffers : ∀ q, (f (false, q)).Sat (fun _ => True) (fun _ => True) (fun _ => False)) :
    (mtdPartVerify g pMtd >>= f).ReturnsWith Agreed := by
  unfold mtdPartVerify
  rw [andThen_assoc]
  refine (sat_agreed_flashing g (comparePart_sat g pMtd)).andThen_returnsWith fun ⟨cRes, q⟩ _ => ?_
  cases cRes with
  | true => exact .inl ⟨(agreed_verifyReturned _ _).mpr rfl, fun _ => hsame q⟩
  | false => exact .inr fun _ => hdiffers q

/-- Writing and checking returns only when the comparison has agreed. -/
theorem writeAndCheck_returnsWith (pMtd : MtdPartition) :
    (writeAndCheck g pMtd).ReturnsWith Agreed := by
  unfold writeAndCheck
  refine (sat_agreed_flashing g (mtdPartWrite_sat g pMtd)).andThen_returnsWith fun q _ => ?_
  refine ReturnsWith.andThen ?_ fun q => (sat_agreed_plain (mtdPartClose_sat q)).returnsWith
  split
  · refine mtdPartVerify_returnsWith g q (fun q => ?_) fun q => ?_
    · exact trivial
    · exact sat_exit trivial
  · split
    · exact (sat_agreed_plain (mtdPartCheckCRC32_sat g q)).returnsWith
    · trivial

/-- Flashing a partition returns only when the comparison has agreed. -/
theorem updatePart_returnsWith (pMtd : MtdPartition) : (updatePart g pMtd).ReturnsWith Agreed := by
  unfold updatePart
  refine (sat_agreed_plain (mtdPartOpen_sat g pMtd false)).andThen_returnsWith fun q _ => ?_
  refine ReturnsWith.andThen ?_ fun _ => ?_
  · split
    · exact (sat_agreed_flashing g (sat_flashing g (mtdPartErase_sat g q))).returnsWith
    · trivial
  have hclose := sat_agreed_plain (mtdPartClose_sat q)
  split
  · refine hclose.andThen_returnsWith fun q _ => ReturnsWith.andThen ?_ fun _ => trivial
    exact (sat_agreed_external (runKobs_sat g q)).returnsWith
  · split
    · refine hclose.andThen_returnsWith fun q _ => ReturnsWith.andThen ?_ fun _ => trivial
      exact (sat_agreed_external (mtdPartWriteUbi_sat q)).returnsWith
    · exact writeAndCheck_returnsWith g q

/-- An update returns only when every comparison has agreed. -/
theorem doMtdUpdate_returnsWith (parts : List MtdPartition) :
    (doMtdUpdate g parts).ReturnsWith Agreed := by
  unfold doMtdUpdate
  refine (sat_agreed_filing (checkFiles_sat g parts)).andThen_returnsWith fun qs _ => ?_
  refine (sat_agreed_plain (remountAll_sat g _ qs)).andThen_returnsWith fun rs _ => ?_
  refine ReturnsWith.andThen ?_ fun ps => ?_
  · exact ReturnsWith.mapList fun r _ => updatePart_returnsWith g r
  · exact (sat_agreed_filing (unlinkTmpFiles_sat g ps)).returnsWith

/-- Rebooting is no comparison. -/
theorem finish_sat : (finish g).Sat Agreed AnyReason AnyResult := by
  unfold finish
  split
  · exact sat_sys_andThen nofun fun _ => trivial
  · trivial

/-- What does more than comparing returns only when every comparison has
agreed. -/
theorem main_returnsWith (opts : Options) (args : List Bytes) (fuel : ℕ)
    (hupdates : verifiesOnly opts = false) : (main opts args fuel).ReturnsWith Agreed := by
  unfold main
  refine (sat_agreed_quiet (prepare_sat opts fuel)).andThen_returnsWith fun g hg => ?_
  refine (sat_agreed_quiet (nameParts_sat g _ args)).andThen_returnsWith fun parts _ => ?_
  refine ReturnsWith.andThen ?_ fun _ => (finish_sat g).returnsWith
  obtain ⟨-, cEraseAll, cWriteCleanMarker, hopts⟩ := hg
  have hcommand : (g.cVerifyOnly && !g.cChecksumOnly) = false := by
    rw [hopts]
    exact hupdates
  unfold runCommand
  cases hsums : g.cChecksumOnly with
  | true =>
    rw [if_pos rfl]
    exact (sat_agreed_quiet (doPrintChecksums_sat g parts)).returnsWith
  | false =>
    rw [hsums, Bool.not_false, Bool.and_true] at hcommand
    rw [if_neg Bool.false_ne_true, hcommand, if_neg Bool.false_ne_true]
    exact doMtdUpdate_returnsWith g parts

end Returns

section Reboot

variable (g : Globals)

/-- A program that works on files does not reboot. -/
theorem sat_noReboot {X : ExitReason → Prop} {α : Type} {R : α → Prop} {p : Flash α}
    (hp : p.Sat Filing X R) : p.Sat (fun o => o ≠ .reboot) AnyReason AnyResult :=
  hp.mono (fun _ h heq => by
    rw [heq] at h
    rcases h with (h | h) | h
    · exact CallKind.noConfusion h
    · exact CallKind.noConfusion h
    · exact CallKind.noConfusion h) (fun _ _ => trivial) (fun _ _ => trivial)

/-- No command reboots. -/
theorem runCommand_sat (parts : List MtdPartition) :
    (runCommand g parts).Sat (fun o => o ≠ .reboot) AnyReason AnyResult := by
  unfold runCommand
  split
  · exact sat_noReboot (sat_file (doPrintChecksums_sat g parts))
  · split
    · exact (doMtdVerify_sat g parts).mono (fun _ h heq => h (by rw [heq]; rfl))
        (fun _ _ => trivial) (fun _ h => h)
    · unfold doMtdUpdate
      refine Sat.andThen (sat_noReboot (checkFiles_sat g parts)) fun qs _ => ?_
      refine Sat.andThen (sat_noReboot (sat_file (sat_quiet (remountAll_sat g _ qs)))) fun rs _ => ?_
      refine Sat.andThen (R := AnyResult) ?_ fun ps _ => sat_noReboot (unlinkTmpFiles_sat g ps)
      refine sat_forget (Sat.mapList (T := fun _ _ => True) fun r _ => ?_)
      exact (updatePart_sat g r).mono (fun _ h heq => h.1 (by rw [heq]; rfl))
        (fun _ _ => trivial) (fun _ _ => trivial)

/-- A run that reboots has got to its end. -/
theorem main_returns_of_reboot {σ : Type} {h : Handler Op Resp σ} {s : σ} {opts : Options}
    {args : List Bytes} {fuel : ℕ}
    (hreboot : .reboot ∈ (exec h everyCall (main opts args fuel) s).calls) :
    (exec h everyCall (main opts args fuel) s).outcome = .ret () := by
  unfold main at hreboot
  obtain ⟨g, s₁, hprepare, hreboot⟩ :=
    call_after (sat_noReboot (sat_file (prepare_sat opts fuel))) hreboot
  obtain ⟨parts, s₂, hname, hreboot⟩ :=
    call_after (sat_noReboot (sat_file (nameParts_sat g _ args))) hreboot
  obtain ⟨_, s₃, hcommand, -⟩ := call_after (runCommand_sat g parts) hreboot
  have hfinish : Ends h (finish g) s₃ (.ret ()) (exec h everyCall (finish g) s₃).state := by
    unfold finish
    split
    · exact ⟨rfl, rfl⟩
    · exact ⟨rfl, rfl⟩
  exact (Ends.andThen hprepare (Ends.andThen hname (Ends.andThen hcommand hfinish))).1

end Reboot

section Compare

variable {env : Env} {g : Globals} {pMtd : MtdPartition} {w w' : World}

/-- A partition of the list is compared with its file: nothing changes, and
the comparison agrees just when the partition holds the file. -/
theorem verifyPart_inv {q : MtdPartition} (hstill : Still env)
    (hg : Geometry env pMtd.uiPartition) (hd : Describes env pMtd)
    (hfits : pMtd.iFileSize ≤ goodBytes env pMtd.uiPartition)
    (hlength : (w.files pMtd.szOrigImageFileName).map List.length = some pMtd.iFileSize)
    (hrun : Ends (system env) (verifyPart g pMtd) w (.ret q) w') :
    (w'.files = w.files ∧ w'.mem = w.mem) ∧
      (Makes (system env) Agreed (verifyPart g pMtd) w ↔
        Holds env pMtd.uiPartition pMtd.cIsJFFS2
          ((w.files pMtd.szOrigImageFileName).getD []) w.mem) := by
  unfold verifyPart mtdPartVerify at hrun ⊢
  obtain ⟨p₁, w₁, hopen, hrun⟩ := Ends.split hrun
  obtain ⟨⟨cRes, p₂⟩, w₂, hverify, hclose⟩ := Ends.split hrun
  obtain ⟨⟨cRes', p₃⟩, w₃, hcompare, hreturn⟩ := Ends.split hverify
  obtain ⟨_, w₄, htell, hlast⟩ := Ends.split hreturn
  obtain ⟨hresult, hw₂⟩ := hlast.pure_inv
  obtain ⟨rfl, rfl⟩ := Prod.mk.inj hresult
  obtain ⟨hp₁, hw₁⟩ := mtdPartOpen_inv hopen
  obtain ⟨-, hw'⟩ := mtdPartClose_inv hclose
  obtain ⟨-, hw₄⟩ := htell.perform_inv
  have hfiles₁ : w₁.files = w.files := by
    rw [hw₁]
    exact hstill _ _
  have hmem₁ : w₁.mem = w.mem := by
    rw [hw₁]
    rfl
  have hp : p₁ = reopened g pMtd := hp₁
  subst hp
  have hdq : Describes env (reopened g pMtd) := ⟨hd.info, hd.nand, hd.page⟩
  have hgq : Geometry env (reopened g pMtd).uiPartition := hg
  obtain ⟨-, hmem₃, -, hfiles₃, hexact⟩ := comparePart_inv hgq hdq (hstill.sized _) hcompare
  refine ⟨⟨?_, ?_⟩, ?_⟩
  · rw [hw', hw₂, hw₄, ← hfiles₁, ← hfiles₃ hstill]
    exact (hstill _ _).trans (hstill _ _)
  · rw [hw', hw₂, hw₄, ← hmem₁, ← hmem₃]
    rfl
  · have hanswer : cRes = true ↔ Holds env pMtd.uiPartition pMtd.cIsJFFS2
        ((w.files pMtd.szOrigImageFileName).getD []) w.mem := by
      have hsize : (w₁.files (reopened g pMtd).szOrigImageFileName).map List.length =
          some (reopened g pMtd).iFileSize := by
        rw [hfiles₁]
        exact hlength
      rw [← hmem₁, ← hfiles₁]
      exact hexact hstill hfits hsize
    have hquiet := makes_of_sat (h := system env) (s := w)
      (sat_agreed_plain (mtdPartOpen_sat g pMtd true))
    have hspared := makes_of_sat (h := system env) (s := w₁)
      (sat_agreed_flashing g (comparePart_sat g (reopened g pMtd)))
    have hlast := makes_of_sat (h := system env) (s := w₂) (sat_agreed_plain (mtdPartClose_sat p₂))
    refine (hopen.makes_andThen.trans (and_iff_right hquiet)).trans ?_
    refine (hverify.makes_andThen.trans (and_iff_left hlast)).trans ?_
    refine (hcompare.makes_andThen.trans (and_iff_right hspared)).trans ?_
    refine (htell.makes_andThen.trans (and_iff_left fun o ho => absurd ho List.not_mem_nil)).trans ?_
    exact makes_perform.trans ((agreed_verifyReturned _ _).trans hanswer)

/-- What an element of the list asks for: the partition holds the file. -/
def Stored (env : Env) (opts : Options) (w : World) (l : Listed) : Prop :=
  Holds env l.part (namesJFFS2 opts.cNoImageTypeCheck l.file) ((w.files l.file).getD []) w.mem

/-- Comparing the list tells the truth just when every partition holds its
file. -/
theorem doMtdVerify_inv {ls : List Listed} {parts : List MtdPartition} (hstill : Still env)
    (hg : ∀ l ∈ ls, Geometry env l.part)
    (hparts : List.Forall₂ (fun l p => Begins env g l p ∧
      (w.files l.file).map List.length = some p.iFileSize) ls parts)
    (hrun : Ends (system env) (doMtdVerify g parts) w (.ret ()) w') :
    Makes (system env) Agreed (doMtdVerify g parts) w ↔ ∀ l ∈ ls, Stored env g.toOptions w l := by
  unfold doMtdVerify at hrun ⊢
  obtain ⟨qs, w₁, hlist, hrun⟩ := Ends.split hrun
  obtain ⟨-, hmakes⟩ := Ends.mapList_makes (V := Agreed)
    (I := fun v => v.files = w.files ∧ v.mem = w.mem)
    (J := fun p => Holds env p.uiPartition p.cIsJFFS2
      ((w.files p.szOrigImageFileName).getD []) w.mem)
    (fun p hp v q v' hv hpart => by
      obtain ⟨l, hl, hbegins, hlength⟩ := forall₂_result hparts hp
      have hpart' := hbegins.part
      have hname := hbegins.original
      obtain ⟨hkept, hanswer⟩ := verifyPart_inv hstill (hpart'.symm ▸ hg l hl) hbegins.describes
        hbegins.fits (by rw [hv.1, hname]; exact hlength) hpart
      rw [hv.1, hv.2] at hkept hanswer
      exact ⟨hkept, hanswer⟩) ⟨rfl, rfl⟩ hlist
  refine (hlist.makes_andThen.trans (and_iff_left fun o ho => absurd ho List.not_mem_nil)).trans
    (hmakes.trans ?_)
  have hsame : ∀ l p, Begins env g l p → (Stored env g.toOptions w l ↔
      Holds env p.uiPartition p.cIsJFFS2 ((w.files p.szOrigImageFileName).getD []) w.mem) :=
    fun l p h => by rw [Stored, h.part, h.original, h.jffs2]
  constructor
  · intro hall l hl
    obtain ⟨p, hp, hbegins, -⟩ := forall₂_element hparts hl
    exact (hsame l p hbegins).mpr (hall p hp)
  · intro hall p hp
    obtain ⟨l, hl, hbegins, -⟩ := forall₂_result hparts hp
    exact (hsame l p hbegins).mp (hall l hl)

end Compare

section Status

variable (opts : Options) (args : List Bytes) (fuel : ℕ)

/-- Whether a run that compares only tells the truth. -/
theorem main_verifies_truthful {env : Env} {w : World} (hverify : verifiesOnly opts = true)
    (hstill : Still env) (hg : ∀ l ∈ listed opts.cHasChecksum args, Geometry env l.part)
    (hret : (exec (system env) everyCall (main opts args fuel) w).outcome = .ret ()) :
    Truthful (exec (system env) everyCall (main opts args fuel) w) ↔
      ∀ l ∈ listed opts.cHasChecksum args, Stored env opts w l := by
  have hrun : Ends (system env) (main opts args fuel) w (.ret ())
      (exec (system env) everyCall (main opts args fuel) w).state := ⟨hret, rfl⟩
  have hmakes : Truthful (exec (system env) everyCall (main opts args fuel) w) ↔
      Makes (system env) Agreed (main opts args fuel) w :=
    ⟨fun h => h (.inl hret), fun h _ => h⟩
  rw [hmakes]
  unfold main at hrun ⊢
  obtain ⟨g, w₁, hprepare, hrun⟩ := Ends.split hrun
  obtain ⟨parts, w₂, hname, hrun⟩ := Ends.split hrun
  obtain ⟨_, w₃, hcommand, hfinish⟩ := Ends.split hrun
  have hprepared := prepare_sat opts fuel
  have hnamed := nameParts_sat g maxMtdParts args
  obtain ⟨-, cEraseAll, cWriteCleanMarker, hopts⟩ := hprepare.result hprepared
  have hsums : g.cChecksumOnly = opts.cChecksumOnly := by rw [hopts]
  have hset : g.cHasChecksum = opts.cHasChecksum := by rw [hopts]
  have honly : g.cVerifyOnly = opts.cVerifyOnly := by rw [hopts]
  have hcheck : g.cNoImageTypeCheck = opts.cNoImageTypeCheck :=
    by rw [hopts]
  rw [verifiesOnly, Bool.and_eq_true, Bool.not_eq_true'] at hverify
  have hfiles : w₁.files = w.files := files_kept hstill hprepare hprepared
  have hfiles₂ : w₂.files = w.files := (files_kept hstill hname hnamed).trans hfiles
  have hmem : w₂.mem = w.mem :=
    (flash_kept hname (sat_file hnamed)).1.trans (flash_kept hprepare (sat_file hprepared)).1
  have hbegins := nameParts_inv (hset ▸ hg) (hsums.trans hverify.2) hname
  rw [hset] at hbegins
  have hparts : List.Forall₂ (fun l p => Begins env g l p ∧
      (w₂.files l.file).map List.length = some p.iFileSize) (listed opts.cHasChecksum args) parts :=
    hbegins.imp fun l p h => by
      refine ⟨h.1, ?_⟩
      rw [hfiles₂, ← hfiles]
      exact h.2 (hstill.sized l.file)
  have hverdict : runCommand g parts = doMtdVerify g parts := by
    rw [runCommand, hsums, hverify.2, if_neg Bool.false_ne_true, honly, hverify.1, if_pos rfl]
  rw [hverdict] at hcommand
  have hstored : ∀ l, Stored env g.toOptions w₂ l ↔ Stored env opts w l := fun l => by
    rw [Stored, Stored, hcheck, hfiles₂, hmem]
  refine (hprepare.makes_andThen.trans (and_iff_right (makes_of_sat
    (sat_agreed_quiet hprepared)))).trans ?_
  refine (hname.makes_andThen.trans (and_iff_right (makes_of_sat
    (sat_agreed_quiet hnamed)))).trans ?_
  rw [hverdict]
  refine (hcommand.makes_andThen.trans (and_iff_left (makes_of_sat (finish_sat g)))).trans ?_
  rw [doMtdVerify_inv hstill hg hparts hcommand]
  exact forall₂_congr fun l _ => hstored l

/-- When the exit status tells the truth: always when more is done than
comparing, and otherwise just when every partition holds its file. -/
theorem truthful_iff :
    (verifiesOnly opts = false → ∀ (σ : Type) (h : Handler Op Resp σ) (s : σ),
      Truthful (exec h everyCall (main opts args fuel) s)) ∧
    (verifiesOnly opts = true → ∀ env w, Still env →
      (∀ l ∈ listed opts.cHasChecksum args, Geometry env l.part) →
      (exec (system env) everyCall (main opts args fuel) w).outcome = .ret () →
      (Truthful (exec (system env) everyCall (main opts args fuel) w) ↔
        ∀ l ∈ listed opts.cHasChecksum args, Stored env opts w l)) := by
  refine ⟨fun hupdates σ h s hsuccess => ?_, fun hverify env w hstill hg hret =>
    main_verifies_truthful opts args fuel hverify hstill hg hret⟩
  have hret := hsuccess.elim id main_returns_of_reboot
  exact (main_returnsWith opts args fuel hupdates).exec h s hret

/-- The small system with an image in the first page of its first partition. -/
def smallStored : World :=
  { smallWorld [(text "uImage-x", text "12")] with
    mem := fun _ a => (text "12").getD a flashErasedByte }

set_option maxRecDepth 8000 in
/-- Comparing a partition that holds its image, and flashing it. -/
theorem truthful_iff_example :
    Truthful (exec (system smallEnv) everyCall
      (main { cVerifyOnly := true } [text "uImage-x", text "0"] 20) smallStored) ∧
    Truthful (exec (system smallEnv) everyCall
      (main { cVerify := true } [text "uImage-x", text "0"] 20) smallStored) := by
  refine ⟨?_, (truthful_iff { cVerify := true } [text "uImage-x", text "0"] 20).1 rfl _ _ _⟩
  refine ((truthful_iff { cVerifyOnly := true } [text "uImage-x", text "0"] 20).2 rfl smallEnv
    smallStored (fun _ _ => rfl) (fun l _ => smallEnv_geometry l.part) rfl).mpr ?_
  exact List.forall_mem_singleton.mpr ⟨rfl, .inr (by decide)⟩

set_option maxRecDepth 8000 in
/-- A partition that differs from its image, and success all the same. -/
theorem differs_and_succeeds :
    ¬ Truthful (exec (system smallEnv) everyCall
      (main { cVerifyOnly := true, cDoReboot := true } [text "uImage-x", text "0"] 20)
      (smallWorld [(text "uImage-x", text "12")])) := fun htruth =>
  htruth (.inl rfl) (.verifyReturned 0 false) (List.contains_iff_mem.mp rfl) 0 rfl

end Status

end MetaDigi.FlashVerdicts
