import MetaDigi.FlashAnswers
import MetaDigi.FlashOutcomes
import MetaDigi.SystemTwins

/-!
# Running the tool again

A comparison after an update asks for the same partitions again and answers
that all of them hold their images. An update that has failed at any point, or
was cut off there, has changed nothing but cells that it needs, so running it
again until it succeeds leaves the flash as if nothing had happened.
-/

namespace MetaDigi.FlashRepeats

open CStrings SystemProgram SystemRuns SystemTwins FlashTypes FlashInit FlashTransfer FlashMain
open FlashWorld FlashEffects FlashRuns FlashRecords FlashDevice FlashErasing FlashWriting
open FlashImages FlashVerifying FlashVerdicts FlashAnswers FlashStaging FlashOutcomes BlockLayout
open FlashChecksum TextScan
open Prog

section Asking

/-- The calls that name partitions and images. -/
def Asking : Op → Prop
  | .statNode _ => True
  | .statFile _ => True
  | .openMtd _ _ => True
  | .closeMtd _ => True
  | .memGetInfo _ => True
  | .memGetBadBlock _ _ => True
  | .memGetOobSel _ => True
  | .fopenProc _ => True
  | .fgetsProc _ => True
  | .fcloseProc => True
  | .isNandOobAtomic => True
  | _ => False

variable (g : Globals) (pMtd : MtdPartition)

theorem mtdPartDeterminePartType_asking :
    (mtdPartDeterminePartType pMtd).Sat Asking AnyReason AnyResult := by
  have hseek : ∀ left acBuffer, (seekProcMtdLine left acBuffer).Sat Asking AnyReason AnyResult := by
    intro left
    induction left with
    | zero => exact fun _ => trivial
    | succ left ih => exact fun _ => sat_sysOrFail_andThen trivial trivial fun _ line _ => ih _
  unfold mtdPartDeterminePartType
  refine sat_sysOrFail_andThen trivial trivial fun _ _ _ => sat_sys_andThen trivial fun _ => ?_
  refine Sat.andThen (hseek _ _) fun acBuffer _ => ?_
  split
  · exact sat_exit trivial
  · split
    · exact sat_exit trivial
    · exact sat_sysOrFail_andThen trivial trivial fun _ _ _ => trivial

theorem mtdPartReadInfo_asking : (mtdPartReadInfo g pMtd).Sat Asking AnyReason AnyResult := by
  have hcount : ∀ p, (countBadBlocks g p).Sat Asking AnyReason AnyResult := by
    intro p
    unfold countBadBlocks
    split
    · refine Sat.loop (I := AnyResult) (fun st _ => ?_) g.fuel trivial
      obtain ⟨iOffset, uiBadBlocks⟩ := st
      dsimp only [countBadBlocksPass]
      split
      · exact sat_sysOrFail_andThen trivial trivial fun _ _ _ => trivial
      · trivial
    · trivial
  unfold mtdPartReadInfo
  refine sat_sysOrFail_andThen trivial trivial fun _ xInfo _ => ?_
  refine Sat.andThen (hcount _) fun uiBadBlocks _ => ?_
  exact Sat.andThen (mtdPartDeterminePartType_asking _) fun _ _ => trivial

theorem mtdPartInitCleanMarker_asking :
    (mtdPartInitCleanMarker pMtd).Sat Asking AnyReason AnyResult := by
  unfold mtdPartInitCleanMarker
  dsimp only
  split
  · refine sat_sysOrFail_andThen trivial trivial fun _ xoobInfo _ => ?_
    split
    · split
      · exact sat_exit trivial
      · split
        · trivial
        · split
          · trivial
          · trivial
          · trivial
          · exact sat_exit trivial
    · trivial
  · trivial

theorem mtdPartUseFile_asking (szImageFileName : Path) :
    (mtdPartUseFile g pMtd szImageFileName).Sat Asking AnyReason AnyResult := by
  unfold mtdPartUseFile mtdPartDetermineAndCheckFileType
  refine sat_sysOrFail_andThen trivial trivial fun _ st_size _ => ?_
  dsimp only
  split
  · split
    · exact sat_exit trivial
    · split
      · trivial
      · split
        · trivial
        · split
          · exact sat_exit trivial
          · split
            · trivial
            · trivial
  · trivial

/-- The part of `MtdPartInit` behind opening and in front of the flags. -/
def mtdPartDescribe (pMtd : MtdPartition) (szImageFileName : Path) : Flash MtdPartition := do
  let pMtd ← mtdPartReadInfo g pMtd
  let pMtd ← (do
    if ← sys .isNandOobAtomic then return pMtd else mtdPartInitCleanMarker pMtd)
  let pMtd ← mtdPartUseFile g pMtd szImageFileName
  mtdPartClose pMtd

theorem mtdPartDescribe_asking (szImageFileName : Path) :
    (mtdPartDescribe g pMtd szImageFileName).Sat Asking AnyReason AnyResult := by
  unfold mtdPartDescribe
  refine Sat.andThen (mtdPartReadInfo_asking g pMtd) fun p₂ _ => ?_
  refine Sat.andThen (R := AnyResult) ?_ fun p₃ _ => ?_
  · refine sat_sys_andThen trivial fun atomic => ?_
    split
    · trivial
    · exact mtdPartInitCleanMarker_asking p₂
  refine Sat.andThen (mtdPartUseFile_asking g p₃ _) fun p₄ _ => ?_
  exact sat_sysOrFail_andThen trivial trivial fun _ _ _ => trivial

theorem prepare_asking (opts : Options) (fuel : ℕ) :
    (prepare opts fuel).Sat Asking AnyReason AnyResult := by
  have hcount : ∀ szMtdPrefix left uiMtdPartsCount,
      (countMtdParts szMtdPrefix left uiMtdPartsCount).Sat Asking AnyReason AnyResult := by
    intro szMtdPrefix left
    induction left with
    | zero => exact fun _ => trivial
    | succ left ih =>
      refine fun uiMtdPartsCount => sat_sys_andThen trivial fun found => ?_
      split
      · exact ih _
      · trivial
  unfold prepare
  refine Sat.andThen (R := AnyResult) ?_ fun opts _ => ?_
  · split
    · refine sat_sys_andThen trivial fun atomic => ?_
      split
      · trivial
      · trivial
    · trivial
  dsimp only
  split
  · trivial
  · unfold mtdInit
    refine Sat.andThen (R := AnyResult) ?_ fun g _ => ?_
    · refine sat_sys_andThen trivial fun found => ?_
      split
      · trivial
      · refine sat_sys_andThen trivial fun found => ?_
        split
        · trivial
        · exact sat_exit trivial
    refine Sat.andThen (hcount _ _ _) fun uiMtdPartsCount _ => ?_
    split
    · exact sat_exit trivial
    · trivial

end Asking

section Again

variable {env : Env} {g : Globals} {w v w' : World}

/-- Two states that answer alike as long as partitions and images are named. -/
structure Alike (w v : World) : Prop where
  /-- The files are the same. -/
  files : v.files = w.files
  /-- The same is left of the file below `/proc`. -/
  proc : v.proc = w.proc

/-- The answers do not depend on the flash, nor on what has been before. -/
theorem asking_alike (hworks : Works env) (o : Op) (w v : World) (ho : Asking o)
    (h : Alike w v) :
    (system env o w).1 = (system env o v).1 ∧ Alike (system env o w).2 (system env o v).2 := by
  obtain ⟨hfiles, hproc⟩ := h
  rw [system_works hworks, system_works hworks]
  cases o <;> first
    | exact ho.elim
    | exact ⟨rfl, hfiles, hproc⟩
    | skip
  case statFile path =>
    dsimp only [respond]
    rw [hfiles]
    exact ⟨rfl, rfl, hproc⟩
  case fopenProc path => exact ⟨rfl, hfiles, rfl⟩
  case fgetsProc size =>
    dsimp only [respond]
    rw [hproc]
    split
    · exact ⟨rfl, hfiles, rfl⟩
    · exact ⟨rfl, hfiles, rfl⟩

/-- Asking again brings the same answer. -/
theorem asked_again (hworks : Works env) {α : Type} {p : Flash α} {X : ExitReason → Prop}
    {R : α → Prop} {a : α} (hp : p.Sat Asking X R) (hwv : v.files = w.files)
    (hproc : v.proc = w.proc) (hrun : Ends (system env) p w (.ret a) w') :
    ∃ v', Ends (system env) p v (.ret a) v' ∧ v'.files = w'.files ∧ v'.proc = w'.proc := by
  obtain ⟨hout, hstate⟩ := outcome_alike hp (fun o s t => asking_alike hworks o s t)
    (⟨hwv, hproc⟩ : Alike w v)
  refine ⟨_, ⟨hout.symm.trans hrun.1, rfl⟩, ?_, ?_⟩
  · rw [hstate.files, hrun.2]
  · rw [hstate.proc, hrun.2]

/-- The variables of the tool when it only compares. -/
abbrev comparing (g : Globals) : Globals := { g with cVerifyOnly := true }

theorem mtdPartInit_eq (g : Globals) (uiPartition : ℕ) (szImageFileName : Path) :
    mtdPartInit g uiPartition szImageFileName =
      mtdPartOpen g { cleared with uiPartition := uiPartition } false >>= fun pMtd =>
        mtdPartDescribe g pMtd szImageFileName >>= fun pMtd =>
          if !g.cVerifyOnly && pMtd.cIsJFFS2 then do
            let pMtd := { pMtd with cEraseAll := true }
            if ← sys .isNandOobAtomic then return pMtd
            else return { pMtd with cWriteCleanMarker := true }
          else return pMtd := by
  unfold mtdPartInit mtdPartDescribe
  simp only [andThen_assoc]

/-- A partition that could be named for an update can be named for a comparison. -/
theorem mtdPartInit_again (hworks : Works env) {uiPartition : ℕ} {szImageFileName : Path}
    {p : MtdPartition} (hfiles : v.files = w.files) (hproc : v.proc = w.proc)
    (hrun : Ends (system env) (mtdPartInit g uiPartition szImageFileName) w (.ret p) w') :
    ∃ q v', Ends (system env) (mtdPartInit (comparing g) uiPartition szImageFileName) v
      (.ret q) v' ∧ v'.files = w'.files ∧ v'.proc = w'.proc := by
  rw [mtdPartInit_eq] at hrun
  rw [mtdPartInit_eq]
  have hclosed : ({ cleared with uiPartition := uiPartition } : MtdPartition).isOpen = false := rfl
  generalize ({ cleared with uiPartition := uiPartition } : MtdPartition) = p₀ at hclosed hrun ⊢
  obtain ⟨p₁, w₁, hopen, hrun⟩ := Ends.split hrun
  obtain ⟨p₂, w₂, hdescribe, hrun⟩ := Ends.split hrun
  obtain ⟨hp₁, hw₁⟩ := mtdPartOpen_inv hopen
  rw [enter_works hworks] at hw₁
  have hopen' : Ends (system env) (mtdPartOpen (comparing g) p₀ false) v (.ret p₁)
      { v with time := v.time + 1 } := by
    rw [hp₁]
    exact mtdPartOpen_ends hworks p₀ v (comparing g) false hclosed
  have hfiles₁ : ({ v with time := v.time + 1 } : World).files = w₁.files := by
    rw [hw₁]
    exact hfiles
  have hproc₁ : ({ v with time := v.time + 1 } : World).proc = w₁.proc := by
    rw [hw₁]
    exact hproc
  obtain ⟨v₂, hdescribe', hfiles₂, hproc₂⟩ := asked_again hworks
    (mtdPartDescribe_asking g p₁ szImageFileName) hfiles₁ hproc₁ hdescribe
  have hlast : w'.files = w₂.files ∧ w'.proc = w₂.proc := by
    split at hrun
    · obtain ⟨atomic, w₃, hasks, hrun⟩ := Ends.split hrun
      have hw₃ := hasks.perform_inv.2
      rw [system_works hworks] at hw₃
      have hw' : w' = w₃ := by
        split at hrun
        · exact hrun.pure_inv.2
        · exact hrun.pure_inv.2
      rw [hw', hw₃]
      exact ⟨rfl, rfl⟩
    · rw [hrun.pure_inv.2]
      exact ⟨rfl, rfl⟩
  have hsame : mtdPartDescribe (comparing g) p₁ szImageFileName =
      mtdPartDescribe g p₁ szImageFileName := rfl
  rw [← hsame] at hdescribe'
  refine ⟨p₂, v₂, Ends.andThen hopen' (Ends.andThen hdescribe' ?_), hfiles₂.trans hlast.1.symm,
    hproc₂.trans hlast.2.symm⟩
  exact ends_pure _ _

/-- Taking a checksum depends on the arguments only. -/
theorem nameChecksum_again {p q r : MtdPartition} {args rest : List Bytes}
    (hrun : Ends (system env) (nameChecksum g p args) w (.ret (r, rest)) w') (v : World) :
    w' = w ∧ ∃ x, Ends (system env) (nameChecksum (comparing g) q args) v (.ret (x, rest)) v := by
  unfold nameChecksum at hrun ⊢
  cases hset : g.cHasChecksum with
  | false =>
    rw [hset, if_neg Bool.false_ne_true] at hrun
    rw [if_neg Bool.false_ne_true]
    obtain ⟨hresult, hw'⟩ := hrun.pure_inv
    rw [(Prod.mk.inj hresult).2]
    exact ⟨hw', q, ends_pure _ _⟩
  | true =>
    rw [hset, if_pos rfl] at hrun
    rw [if_pos rfl]
    cases args with
    | nil => exact hrun.exit_inv.elim
    | cons szCRC32 args =>
      dsimp only at hrun ⊢
      cases hscan : scanHex 32 szCRC32 with
      | none =>
        rw [hscan] at hrun
        exact hrun.exit_inv.elim
      | some scanned =>
        rw [hscan] at hrun
        obtain ⟨hresult, hw'⟩ := hrun.pure_inv
        rw [(Prod.mk.inj hresult).2]
        exact ⟨hw', _, ends_pure _ _⟩

/-- A list that could be named for an update can be named for a comparison. -/
theorem nameParts_again (hworks : Works env) (hparts : g.cChecksumOnly = false) {left : ℕ}
    {args : List Bytes} {ps : List MtdPartition} (hfiles : v.files = w.files)
    (hproc : v.proc = w.proc)
    (hrun : Ends (system env) (nameParts g left args) w (.ret ps) w') :
    ∃ qs v', Ends (system env) (nameParts (comparing g) left args) v (.ret qs) v' ∧
      v'.files = w'.files := by
  induction left generalizing args ps w v w' with
  | zero =>
    cases args with
    | nil => exact ⟨[], v, ends_pure _ _, by rw [hrun.pure_inv.2, hfiles]⟩
    | cons file rest => exact hrun.exit_inv.elim
  | succ left ih =>
    cases args with
    | nil => exact ⟨[], v, ends_pure _ _, by rw [hrun.pure_inv.2, hfiles]⟩
    | cons file rest =>
      unfold nameParts at hrun ⊢
      have hcount : argsPerPart (comparing g) = argsPerPart g := rfl
      rw [hcount]
      split at hrun
      · exact hrun.exit_inv.elim
      rename_i henough
      rw [if_neg henough]
      obtain ⟨⟨p, args₁⟩, w₁, hname, hrun⟩ := Ends.split hrun
      obtain ⟨⟨q, args₂⟩, w₂, hcrc, hrun⟩ := Ends.split hrun
      obtain ⟨ps', w₃, hrest, hrun⟩ := Ends.split hrun
      have hone : ∃ p' v₁, Ends (system env) (namePart (comparing g) (file :: rest)) v
          (.ret (p', args₁)) v₁ ∧ v₁.files = w₁.files ∧ v₁.proc = w₁.proc := by
        unfold namePart at hname ⊢
        dsimp only at hname ⊢
        rw [if_neg (by rw [hparts]; exact Bool.false_ne_true)] at hname ⊢
        cases rest with
        | nil => exact hname.exit_inv.elim
        | cons number rest =>
          dsimp only at hname ⊢
          cases hnumber : scanUnsigned 32 number with
          | none =>
            rw [hnumber] at hname
            exact hname.exit_inv.elim
          | some scanned =>
            rw [hnumber] at hname
            dsimp only at hname ⊢
            split at hname
            · exact hname.exit_inv.elim
            · rename_i hfew
              rw [if_neg hfew]
              obtain ⟨x, w₄, hinit, hname⟩ := Ends.split hname
              obtain ⟨hresult, hw₁⟩ := hname.pure_inv
              obtain ⟨y, v₄, hinit', hfiles₄, hproc₄⟩ := mtdPartInit_again hworks hfiles hproc hinit
              rw [(Prod.mk.inj hresult).2, hw₁]
              exact ⟨y, v₄, Ends.andThen hinit' (ends_pure _ _), hfiles₄, hproc₄⟩
      obtain ⟨p', v₁, hname', hfiles₁, hproc₁⟩ := hone
      obtain ⟨hw₂, x, hcrc'⟩ := nameChecksum_again (q := p') hcrc v₁
      obtain ⟨qs, v₃, hrest', hfiles₃⟩ := ih (hw₂ ▸ hfiles₁) (hw₂ ▸ hproc₁) hrest
      refine ⟨_, v₃, Ends.andThen hname' (Ends.andThen hcrc' (Ends.andThen hrest' (ends_pure _ _))),
        ?_⟩
      rw [hfiles₃, hrun.pure_inv.2]

/-- Preparing a comparison is preparing an update. -/
theorem prepare_comparing (opts : Options) (fuel : ℕ) :
    prepare { opts with cVerifyOnly := true } fuel =
      prepare opts fuel >>= fun g => pure (comparing g) := by
  have hcounted : ∀ g : Globals,
      (countMtdParts g.szMtdPrefix maxMtdParts 0 >>= fun uiMtdPartsCount =>
        if uiMtdPartsCount = 0 then fail .noMtdPartitions
        else return { comparing g with uiMtdPartsCount }) =
      (countMtdParts g.szMtdPrefix maxMtdParts 0 >>= fun uiMtdPartsCount =>
        if uiMtdPartsCount = 0 then fail .noMtdPartitions
        else return { g with uiMtdPartsCount }) >>= fun g => pure (comparing g) := by
    intro g
    rw [andThen_assoc]
    refine congrArg (_ >>= ·) (funext fun uiMtdPartsCount => ?_)
    split
    · rfl
    · rfl
  have hinit : ∀ opts : Options, mtdInit { opts with cVerifyOnly := true } fuel =
      mtdInit opts fuel >>= fun g => pure (comparing g) := by
    intro opts
    refine congrArg (Prog.call _) (funext fun found => ?_)
    cases found with
    | true => exact hcounted { opts with fuel := fuel }
    | false =>
      refine congrArg (Prog.call _) (funext fun found => ?_)
      cases found with
      | true =>
        exact hcounted { opts with
          fuel := fuel, szMtdPrefix := text "/dev/mtd", szMtdBlockPrefix := text "/dev/mtdblock" }
      | false => rfl
  have hlast : ∀ opts : Options,
      (if opts.cChecksumOnly then pure { { opts with cVerifyOnly := true } with fuel := fuel }
        else mtdInit { opts with cVerifyOnly := true } fuel) =
      (if opts.cChecksumOnly then pure { opts with fuel := fuel }
        else mtdInit opts fuel) >>= fun g => pure (comparing g) := by
    intro opts
    split
    · rfl
    · exact hinit opts
  unfold prepare
  rw [andThen_assoc]
  dsimp only
  rcases Bool.eq_false_or_eq_true opts.cWriteCleanMarker with hmarker | hmarker
  · rw [if_pos hmarker, if_pos hmarker]
    refine congrArg (Prog.call _) (funext fun atomic => ?_)
    cases atomic with
    | true => exact hlast { opts with cWriteCleanMarker := false, cEraseAll := opts.cEraseAll || false }
    | false => exact hlast { opts with cEraseAll := opts.cEraseAll || opts.cWriteCleanMarker }
  · rw [if_neg (ne_true_of_eq_false hmarker), if_neg (ne_true_of_eq_false hmarker)]
    exact hlast { opts with cEraseAll := opts.cEraseAll || opts.cWriteCleanMarker }

end Again

section Compare

variable {env : Env} {g : Globals} {w w' : World}

/-- A comparison comes to its end. -/
theorem verifyPart_returns {p : MtdPartition} (hworks : Works env)
    (hg : Geometry env p.uiPartition) (hd : Describes env p) (hclosed : p.isOpen = false)
    (hfile : w.files p.szOrigImageFileName ≠ none) (hfuel : pageCount env p.uiPartition < g.fuel) :
    ∃ q w', Ends (system env) (verifyPart g p) w (.ret q) w' ∧ True := by
  unfold verifyPart mtdPartVerify
  refine returns_andThen (mtdPartOpen_ends hworks p w g true hclosed) ?_
  have hgq : Geometry env (reopened g p).uiPartition := hg
  have hdq : Describes env (reopened g p) := ⟨hd.info, hd.nand, hd.page⟩
  obtain ⟨⟨cRes, q⟩, w₁, hcompare, -⟩ := comparePart_returns (w := { w with time := w.time + 1 })
    hgq hdq hworks hfile hfuel
  refine returns_andThen (Ends.andThen hcompare (Ends.andThen (ends_perform _ _) (ends_pure _ _))) ?_
  exact ⟨_, _, mtdPartClose_ends hworks q _, trivial⟩

/-- Comparing the list comes to its end. -/
theorem doMtdVerify_returns {ls : List Listed} {parts : List MtdPartition} (hworks : Works env)
    (hg : ∀ l ∈ ls, Geometry env l.part) (hfuel : ∀ l ∈ ls, pageCount env l.part < g.fuel)
    (hclosed : ∀ p ∈ parts, p.isOpen = false)
    (hparts : List.Forall₂ (fun l p => Begins env g l p ∧
      (w.files l.file).map List.length = some p.iFileSize) ls parts) :
    ∃ w', Ends (system env) (doMtdVerify g parts) w (.ret ()) w' := by
  have hstill : Still env := hworks.interfere
  obtain ⟨qs, w', hlist, -⟩ := Ends.mapList_returns (h := system env) (f := verifyPart g)
    (I := fun v => v.files = w.files) (s := w) (fun p hp v hv => by
      obtain ⟨l, hl, hbegins, hlength⟩ := forall₂_result hparts hp
      have hpart := hbegins.part
      have hgp : Geometry env p.uiPartition := hpart.symm ▸ hg l hl
      have hsize : (v.files p.szOrigImageFileName).map List.length = some p.iFileSize := by
        rw [hv, hbegins.original]
        exact hlength
      have hfile : v.files p.szOrigImageFileName ≠ none := by
        intro hnone
        rw [hnone] at hsize
        cases hsize
      obtain ⟨q, v', hends, -⟩ := verifyPart_returns hworks hgp hbegins.describes (hclosed p hp)
        hfile (hpart.symm ▸ hfuel l hl)
      have hkept := (verifyPart_inv hstill hgp hbegins.describes hbegins.fits hsize hends).1.1
      exact ⟨q, v', hends, hkept.trans hv⟩) rfl
  exact ⟨w', Ends.andThen hlist (ends_pure _ _)⟩

end Compare

section Repeat

variable {env : Env} {opts : Options} {program : UInt8 → UInt8 → UInt8} {args : List Bytes}
  {fuel : ℕ} {w w' v : World}

/-- The images of a list that could be named fit their partitions. -/
theorem main_fits (hopts : Updates opts) (hstill : Still env)
    (hg : ∀ l ∈ listed opts.cHasChecksum args, Geometry env l.part)
    (hmarks : MarksOutside env opts (listed opts.cHasChecksum args))
    (hrun : Ends (system env) (main opts args fuel) w (.ret ()) w') :
    ∀ l ∈ listed opts.cHasChecksum args,
      (contents w.files l.file).length ≤ goodBytes env l.part := by
  obtain ⟨g, w₁, hprepare, hrun⟩ := Ends.split hrun
  obtain ⟨parts, w₂, hname, -⟩ := Ends.split hrun
  obtain ⟨-, -, hready⟩ := named_ready hopts hstill hg hmarks hprepare hname
  intro l hl
  obtain ⟨p, -, hp⟩ := forall₂_element hready hl
  rw [hp.content.2, ← hp.part]
  exact hp.fits

/-- A comparison can be done after every update. -/
theorem main_compares (hopts : Updates opts) (hworks : Works env)
    (hg : ∀ l ∈ listed opts.cHasChecksum args, Geometry env l.part)
    (hfuel : ∀ l ∈ listed opts.cHasChecksum args, pageCount env l.part < fuel)
    (hrun : Ends (system env) (main opts args fuel) w (.ret ()) w')
    (hfiles : v.files = w.files) (hproc : v.proc = w.proc) :
    (exec (system env) everyCall (main { opts with cVerifyOnly := true } args fuel) v).outcome =
      .ret () := by
  have hstill : Still env := hworks.interfere
  obtain ⟨g, w₁, hprepare, hrun⟩ := Ends.split hrun
  obtain ⟨parts, w₂, hname, -⟩ := Ends.split hrun
  obtain ⟨hfuel', cEraseAll, cWriteCleanMarker, hsame⟩ := hprepare.result (prepare_sat opts fuel)
  have hsums : g.cChecksumOnly = false := by rw [hsame, ← hopts.sums]
  have hset : g.cHasChecksum = opts.cHasChecksum := by rw [hsame]
  obtain ⟨v₁, hprepare', hfiles₁, hproc₁⟩ := asked_again hworks (prepare_asking opts fuel) hfiles
    hproc hprepare
  obtain ⟨qs, v₂, hname', -⟩ := nameParts_again hworks hsums hfiles₁ hproc₁ hname
  have hfiles₂ : v₂.files = v₁.files := files_kept hstill hname' (nameParts_sat _ maxMtdParts args)
  have hbegins := nameParts_inv (g := comparing g) (hset ▸ hg) hsums hname'
  have hflags := hname'.result (nameParts_flagged (comparing g) hsums maxMtdParts args)
  have hlist : listed (comparing g).cHasChecksum args = listed opts.cHasChecksum args :=
    congrArg (listed · args) hset
  rw [hlist] at hbegins
  have hparts : List.Forall₂ (fun l p => Begins env (comparing g) l p ∧
      (v₂.files l.file).map List.length = some p.iFileSize) (listed opts.cHasChecksum args) qs :=
    hbegins.imp fun l p h => by
      refine ⟨h.1, ?_⟩
      rw [hfiles₂]
      exact h.2 (hstill.sized l.file)
  obtain ⟨v₃, hverify⟩ := doMtdVerify_returns hworks hg
    (fun l hl => hfuel'.symm ▸ hfuel l hl) (fun p hp => (hflags p hp).closed) hparts
  have hcommand : runCommand (comparing g) qs = doMtdVerify (comparing g) qs := by
    have hsums' : (comparing g).cChecksumOnly = false := hsums
    rw [runCommand, hsums', if_neg Bool.false_ne_true, if_pos rfl]
  have hfinish : ∃ v', Ends (system env) (finish (comparing g)) v₃ (.ret ()) v' := by
    unfold finish
    split
    · exact ⟨_, ends_perform _ _⟩
    · exact ⟨_, ends_pure _ _⟩
  obtain ⟨v', hlast⟩ := hfinish
  have hall : Ends (system env) (main { opts with cVerifyOnly := true } args fuel) v (.ret ()) v' := by
    unfold main
    rw [prepare_comparing]
    refine Ends.andThen (Ends.andThen hprepare' (ends_pure _ _)) (Ends.andThen hname' ?_)
    rw [hcommand]
    exact Ends.andThen hverify hlast
  exact hall.1

/-- A comparison after an update that got to its end: every partition holds
its image, other blocks are as they were, and the comparison says so. -/
theorem update_then_compare (hopts : Updates opts) (hworks : Works env)
    (hprog : Programs env program) (herased : ∀ b, program flashErasedByte b = b)
    (hg : ∀ l ∈ listed opts.cHasChecksum args, Geometry env l.part)
    (hmarks : MarksOutside env opts (listed opts.cHasChecksum args))
    (hfuel : ∀ l ∈ listed opts.cHasChecksum args, pageCount env l.part < fuel)
    (hdistinct : ((listed opts.cHasChecksum args).map Listed.part).Nodup)
    (hraw : Makes (system env) Internal (main opts args fuel) w)
    (hrun : Ends (system env) (main opts args fuel) w (.ret ()) w')
    (hmem : v.mem = w'.mem) (hfiles : v.files = w'.files) (hproc : v.proc = w.proc) :
    (∀ part a, ¬Needed env opts w.files (listed opts.cHasChecksum args) part a →
      v.mem part a = w.mem part a) ∧
    (∀ l ∈ listed opts.cHasChecksum args, Stored env opts v l) ∧
    (exec (system env) everyCall (main { opts with cVerifyOnly := true } args fuel) v).outcome =
      .ret () ∧
    Truthful (exec (system env) everyCall (main { opts with cVerifyOnly := true } args fuel) v) := by
  have hstill : Still env := hworks.interfere
  obtain ⟨hmem', hfiles'⟩ := main_updates hopts hworks hprog herased hg hmarks hfuel hraw hrun
  have hstored : ∀ l ∈ listed opts.cHasChecksum args, Stored env opts v l := by
    intro l hl
    rw [Stored, hfiles, hfiles', hmem, hmem']
    exact updated_holds hg (main_fits hopts hstill hg hmarks hrun) hdistinct _ l hl
  have hreturns := main_compares hopts hworks hg hfuel hrun (hfiles.trans hfiles') hproc
  refine ⟨fun part a ha => ?_, hstored, hreturns, ?_⟩
  · rw [hmem, hmem']
    exact updated_outside hg ha
  · have hverify : verifiesOnly { opts with cVerifyOnly := true } = true := by
      rw [verifiesOnly, hopts.sums]
      rfl
    exact (main_verifies_truthful { opts with cVerifyOnly := true } args fuel hverify hstill hg
      hreturns).mpr hstored

set_option maxRecDepth 16000 in
/-- Comparing the small system after an update. -/
theorem update_then_compare_example :
    ∃ w', Ends (system smallEnv) (main {} [text "uImage-x", text "0"] 20) smallErased (.ret ()) w' ∧
      Truthful (exec (system smallEnv) everyCall
        (main { cVerifyOnly := true } [text "uImage-x", text "0"] 20)
        { mem := w'.mem, files := w'.files }) := by
  obtain ⟨w', hrun⟩ : ∃ w', Ends (system smallEnv) (main {} [text "uImage-x", text "0"] 20)
      smallErased (.ret ()) w' := ⟨_, rfl, rfl⟩
  exact ⟨w', hrun, (@update_then_compare smallEnv {} _ [text "uImage-x", text "0"] 20 _ _
    { mem := w'.mem, files := w'.files } ⟨rfl, rfl, rfl, rfl⟩ smallEnv_works
    smallEnv_programs erased_and (fun l _ => smallEnv_geometry l.part) (smallEnv_marks _ _)
    (fun l _ => smallEnv_pages l.part) (List.nodup_singleton _) smallUpdate_internal hrun rfl rfl
    rfl).2.2.2⟩

end Repeat

end MetaDigi.FlashRepeats
