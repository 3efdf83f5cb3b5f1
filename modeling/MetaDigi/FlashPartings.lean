import MetaDigi.FlashOutcomes
import MetaDigi.FlashTwins
import MetaDigi.SystemPartings

/-!
# Flashing other bytes

An update that flashes a copy and one that flashes the image keep in step as
long as the copy begins with the image. At the first page that differs they
write different bytes, and what has been done to flash is never the same again.
-/

namespace MetaDigi.FlashPartings

open CStrings SystemProgram SystemRuns SystemTwins SystemPartings FlashTypes FlashInit
open FlashTransfer FlashMain FlashWorld FlashEffects FlashDevice FlashRecords FlashRuns
open FlashStaging FlashTwins FlashOutcomes FlashChecksum Prog

/-- Different things have been done to flash, and neither is the beginning of
the other. -/
def LogsApart (w w' : World) : Prop := ¬ w.log <+: w'.log ∧ ¬ w'.log <+: w.log

section Logs

variable {env env' : Env} {w w' v v' : World}

end Logs

section Reading

/-- The states of two runs in step that read different files, or none. -/
structure Reading (files files' : Files) (src src' : Option (Path × ℕ)) (t t' : ℕ) (w w' : World) :
    Prop extends Beside t t' w w' where
  /-- The files of the one system. -/
  files : w.files = files
  /-- The files of the other. -/
  files' : w'.files = files'
  /-- How far the one has read. -/
  src : w.src = src
  /-- How far the other has. -/
  src' : w'.src = src'

variable {M : Path → Path → Prop} {env env' : Env} {files files' : Files}
  {src src' : Option (Path × ℕ)} {t t' : ℕ} {w w' v v' : World} {α : Type}

/-- A call without a file keeps two runs in step. -/
theorem Reading.call (hstill : Still env) (hstill' : Still env') (halike : Alike M env env' t t')
    (h : Reading files files' src src' t t' w w') {o : Op} (ho : Fileless o) :
    (system env o w).1 = (system env' o w').1 ∧
      Reading files files' src src' t t' (system env o w).2 (system env' o w').2 := by
  unfold system
  rw [h.toBeside.fails halike (.same o)]
  obtain ⟨hanswer, hbeside⟩ := respond_fileless halike
    (h.toBeside.enter env env') (env'.fails w'.time o) ho
  obtain ⟨hfiles, hsrc⟩ := respond_fileless_kept env (env'.fails w'.time o) (w.enter env) ho
  obtain ⟨hfiles', hsrc'⟩ := respond_fileless_kept env' (env'.fails w'.time o) (w'.enter env') ho
  exact ⟨hanswer, hbeside, hfiles.trans ((files_enter hstill w).trans h.files),
    hfiles'.trans ((files_enter hstill' w').trans h.files'), hsrc.trans h.src, hsrc'.trans h.src'⟩

/-- So does a program of such calls. -/
theorem Reading.run (hstill : Still env) (hstill' : Still env') (halike : Alike M env env' t t')
    (h : Reading files files' src src' t t' w w') {p : Flash α} {X : ExitReason → Prop}
    {R : α → Prop} (hp : p.Sat Fileless X R) {a a' : α} (hrun : Ends (system env) p w (.ret a) v)
    (hrun' : Ends (system env') p w' (.ret a') v') :
    a = a' ∧ Reading files files' src src' t t' v v' := by
  obtain ⟨hout, hstates⟩ := outcome_alike (I := Reading files files' src src' t t') hp
    (fun o _ _ ho hst => hst.call hstill hstill' halike ho) h
  rw [hrun.1, hrun'.1, hrun.2, hrun'.2] at *
  exact ⟨Outcome.ret.inj hout, hstates⟩

end Reading

section Writing

variable {M : Path → Path → Prop} {env env' : Env} {g : Globals} {q q' : MtdPartition}
  {files files' : Files} {t t' : ℕ} {w w' v v' : World}

/-- Two runs of `MtdPartWrite` that have written the same so far: the copy and
the image agree as far as they have been read. -/
structure Abreast (g : Globals) (files files' : Files) (copy image : Path) (t t' : ℕ)
    (st st' : WriteState) (w w' : World) : Prop where
  /-- The loop variables are the same. -/
  place : SamePlace g st st'
  /-- The systems are in step. -/
  reading : Reading files files' (some (copy, st.iBytesReadTotal))
    (some (image, st.iBytesReadTotal)) t t' w w'
  /-- What has been read is the same. -/
  agree : (contents files' image).take st.iBytesReadTotal =
    (contents files copy).take st.iBytesReadTotal
  /-- It is not more than the image holds. -/
  total_le : st.iBytesReadTotal ≤ (contents files' image).length

/-- Where two runs of `MtdPartWrite` can be after a pass: they have written the
same so far, or different bytes, or the one has read more than the image
holds. -/
def AfterPass (g : Globals) (files files' : Files) (copy image : Path) (t t' : ℕ)
    (w w' : World) (step step' : WriteState ⊕ WriteState) : Prop :=
  Sum.LiftRel (fun st st' => Abreast g files files' copy image t t' st st' w w')
      (fun st st' => Abreast g files files' copy image t t' st st' w w') step step' ∨
    (LogsApart w w' ∧ ¬ contents files' image <+: contents files copy) ∨
    (contents files' image).length < Sum.elim (·.iBytesReadTotal) (·.iBytesReadTotal) step

section Pieces

variable {c c' : Bytes} {pos size : ℕ}

end Pieces

/-- The end of a pass leaves two runs abreast. -/
theorem Abreast.step (h : Mirrors g M q q') {copy image : Path} {st st' : WriteState}
    (hst : Abreast g files files' copy image t t' st st' w w') :
    AfterPass g files files' copy image t t' w w' (st.step q) (st'.step q') := by
  obtain ⟨x, hx⟩ := h.record
  have hnext : Abreast g files files' copy image t t'
      { st with iCurrentOffs := st.iCurrentOffs + q'.iPageSize }
      { st' with iCurrentOffs := st'.iCurrentOffs + q'.iPageSize } w w' :=
    ⟨⟨congrArg (· + q'.iPageSize) hst.place.offs, hst.place.total, hst.place.sum⟩, hst.reading,
      hst.agree, hst.total_le⟩
  have hsizes : q.iPageSize = q'.iPageSize ∧ q.xInfo.size = q'.xInfo.size := by
    rw [hx]
    exact ⟨rfl, rfl⟩
  refine .inl ?_
  unfold WriteState.step
  dsimp only
  rw [hsizes.1, hsizes.2, hst.place.offs]
  split
  · exact .inl (hst.place.offs ▸ hnext)
  · exact .inr (hst.place.offs ▸ hnext)

section Bytes

variable {copy image : Path} {st st' : WriteState} {bytes bytes' : Bytes}
  {step step' : WriteState ⊕ WriteState}

end Bytes

end Writing

section Parts

variable {M : Path → Path → Prop} {env env' : Env} {g : Globals} {q q' : MtdPartition}
  {files files' : Files} {t t' : ℕ} {w w' : World}

/-- Two records of one image that the tool flashes itself, the first one with
the name of a copy that is not shorter than the image. -/
structure Copied (g : Globals) (M : Path → Path → Prop) (files files' : Files)
    (q q' : MtdPartition) : Prop extends Mirrors g M q q' where
  /-- The size in the records is that of the image. -/
  size : q'.iFileSize = (contents files' q'.szImageFileName).length
  /-- The copy is not shorter. -/
  longer : (contents files' q'.szImageFileName).length ≤ (contents files q.szImageFileName).length
  /-- No external program flashes the image. -/
  raw : ¬ FlashedExternally q'

end Parts

end MetaDigi.FlashPartings
