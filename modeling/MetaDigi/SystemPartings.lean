import MetaDigi.SystemTwins

/-!
# Two programs that keep in step or part for good

Two runs that begin in related states and both return either end in related
states, or they have parted: they are in states that nothing brings together
again. A condition that is known beforehand decides which of the two it is. The
states in which runs have parted are a parameter that every call has to keep on
either side.
-/

namespace MetaDigi.SystemPartings

open SystemProgram SystemRuns SystemTwins

variable {Op : Type} {Resp : Op → Type} {E α α' β β' γ γ' σ τ : Type}

/-- States that two systems cannot leave together. -/
structure Lasting (h : Handler Op Resp σ) (h' : Handler Op Resp τ) (A : σ → τ → Prop) : Prop where
  /-- A call on the one side leaves them apart. -/
  left : ∀ o s t, A s t → A (h o s).2 t
  /-- So does one on the other side. -/
  right : ∀ o s t, A s t → A s (h' o t).2

/-- Runs of two programs that both return keep their states related under a
condition, and have parted without it. -/
def Parting (h : Handler Op Resp σ) (h' : Handler Op Resp τ) (I A : σ → τ → Prop) (Q : Prop)
    (R : α → α' → Prop) (p : Prog Op Resp E α) (p' : Prog Op Resp E α') : Prop :=
  ∀ s t, I s t → ∀ a s' a' t', Ends h p s (.ret a) s' → Ends h' p' t (.ret a') t' →
    (Q → R a a' ∧ I s' t') ∧ (¬ Q → A s' t')

section Rules

variable {h : Handler Op Resp σ} {h' : Handler Op Resp τ} {I A : σ → τ → Prop} {Q Q' : Prop}
  {R : α → α' → Prop} {S : β → β' → Prop}

/-- Runs that have parted stay so, whatever is done on either side. -/
theorem Lasting.runs (hA : Lasting h h' A) {p : Prog Op Resp E α} {p' : Prog Op Resp E α'}
    {s s' : σ} {t t' : τ} {o : Outcome E α} {o' : Outcome E α'} (hst : A s t)
    (hrun : Ends h p s o s') (hrun' : Ends h' p' t o' t') : A s' t' := by
  have hone : A s' t := hrun.keeps (I := fun v => A v t) (Prog.sat_any p)
    (fun q v _ hv => hA.left q v t hv) hst
  exact hrun'.keeps (I := fun v => A s' v) (Prog.sat_any p') (fun q v _ hv => hA.right q s' v hv) hone

/-- Related results. -/
theorem parting_ret {a : α} {a' : α'} (ha : R a a') :
    Parting h h' I A True R (.ret a : Prog Op Resp E α) (.ret a') := by
  intro s t hst b s' b' t' hrun hrun'
  obtain ⟨rfl, rfl⟩ := hrun.ret_inv
  obtain ⟨rfl, rfl⟩ := hrun'.ret_inv
  exact ⟨fun _ => ⟨ha, hst⟩, fun hfalse => absurd trivial hfalse⟩

/-- Programs that part at one of two points. -/
theorem Parting.andThen (Q' : Prop) (hA : Lasting h h' A)
    {p : Prog Op Resp E α} {p' : Prog Op Resp E α'}
    {f : α → Prog Op Resp E β} {f' : α' → Prog Op Resp E β'} (hp : Parting h h' I A Q R p p')
    (hf : ∀ a a', R a a' → Parting h h' I A Q' S (f a) (f' a')) :
    Parting h h' I A (Q ∧ Q') S (p >>= f) (p' >>= f') := by
  intro s t hst b s' b' t' hrun hrun'
  obtain ⟨a, s₁, hfirst, hrest⟩ := Ends.split hrun
  obtain ⟨a', t₁, hfirst', hrest'⟩ := Ends.split hrun'
  obtain ⟨htogether, hapart⟩ := hp s t hst a s₁ a' t₁ hfirst hfirst'
  by_cases hQ : Q
  · obtain ⟨hR, hst₁⟩ := htogether hQ
    obtain ⟨hmore, hparted⟩ := hf a a' hR s₁ t₁ hst₁ b s' b' t' hrest hrest'
    exact ⟨fun hboth => hmore hboth.2, fun hnot => hparted fun hQ' => hnot ⟨hQ, hQ'⟩⟩
  · exact ⟨fun hboth => absurd hboth.1 hQ, fun _ => hA.runs (hapart hQ) hrest hrest'⟩

/-- A condition that says the same. -/
theorem Parting.iff {p : Prog Op Resp E α} {p' : Prog Op Resp E α'}
    (hp : Parting h h' I A Q R p p') (hQ : Q ↔ Q') : Parting h h' I A Q' R p p' := by
  rw [← propext hQ]
  exact hp

/-- Lists whose elements are related one by one: the runs part at the first
element without the condition. -/
theorem Parting.mapList (hA : Lasting h h' A) {K L : γ → γ' → Prop} {f : γ → Prog Op Resp E α}
    {f' : γ' → Prog Op Resp E α'} (hf : ∀ c c', K c c' → Parting h h' I A (L c c') R (f c) (f' c'))
    {cs : List γ} {cs' : List γ'} (hcs : List.Forall₂ K cs cs') :
    Parting h h' I A (List.Forall₂ L cs cs') (List.Forall₂ R) (Prog.mapList f cs)
      (Prog.mapList f' cs') := by
  induction hcs with
  | nil => exact (parting_ret .nil).iff (by simp)
  | cons hc _ ih =>
    refine Parting.iff (Parting.andThen _ hA (hf _ _ hc) fun a a' ha =>
      Parting.andThen _ hA ih fun as as' has => parting_ret (.cons ha has)) ?_
    simp

end Rules

end MetaDigi.SystemPartings
