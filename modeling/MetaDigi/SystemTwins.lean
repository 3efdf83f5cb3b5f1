import MetaDigi.SystemRuns

/-!
# Two programs that keep in step

Two programs keep in step when the one issues a counterpart of what the other
issues, and related answers take them on together. What is a counterpart, and
which answers are related, is a parameter. On two systems that treat
counterparts alike the runs of the two programs pass through related states.
-/

namespace MetaDigi.SystemTwins

open SystemProgram SystemRuns

variable {Op : Type} {Resp : Op → Type} {E α α' β β' γ γ' σ τ : Type}

/-- Which operations are counterparts, with the answers that go together. -/
abbrev Pairing (Op : Type) (Resp : Op → Type) := (o o' : Op) → (Resp o → Resp o' → Prop) → Prop

/-- Two programs that issue counterparts, one pair after the other, and return
related results. They may be left for different reasons. -/
inductive Twins (C : Pairing Op Resp) (R : α → α' → Prop) :
    Prog Op Resp E α → Prog Op Resp E α' → Prop where
  /-- Both return. -/
  | ret {a : α} {a' : α'} (h : R a a') : Twins C R (.ret a) (.ret a')
  /-- Both are left. -/
  | exit (e e' : E) : Twins C R (.exit e) (.exit e')
  /-- Both have used up the passes of a loop. -/
  | hang : Twins C R .hang .hang
  /-- Both issue an operation, and go on together. -/
  | call {o o' : Op} {T : Resp o → Resp o' → Prop} {next : Resp o → Prog Op Resp E α}
    {next' : Resp o' → Prog Op Resp E α'} (ho : C o o' T)
    (hnext : ∀ r r', T r r' → Twins C R (next r) (next' r')) :
    Twins C R (.call o next) (.call o' next')

section Rules

variable {C : Pairing Op Resp} {R R' : α → α' → Prop} {S : β → β' → Prop}

/-- Results that are known to be related in another way. -/
theorem Twins.mono {p : Prog Op Resp E α} {p' : Prog Op Resp E α'} (hp : Twins C R p p')
    (hR : ∀ a a', R a a' → R' a a') : Twins C R' p p' := by
  induction hp with
  | ret h => exact .ret (hR _ _ h)
  | exit e e' => exact .exit e e'
  | hang => exact .hang
  | call ho _ ih => exact .call ho ih

/-- What follows twins are twins, for related results. -/
theorem Twins.andThen {p : Prog Op Resp E α} {p' : Prog Op Resp E α'}
    {f : α → Prog Op Resp E β} {f' : α' → Prog Op Resp E β'} (hp : Twins C R p p')
    (hf : ∀ a a', R a a' → Twins C S (f a) (f' a')) : Twins C S (p >>= f) (p' >>= f') := by
  induction hp with
  | ret h => exact hf _ _ h
  | exit e e' => exact .exit e e'
  | hang => exact .hang
  | call ho _ ih => exact .call ho ih

/-- Loops whose passes are twins for related loop states. -/
theorem Twins.loop {I : β → β' → Prop} {body : β → Prog Op Resp E (β ⊕ α)}
    {body' : β' → Prog Op Resp E (β' ⊕ α')}
    (hbody : ∀ b b', I b b' → Twins C (Sum.LiftRel I R) (body b) (body' b')) (fuel : ℕ)
    {b : β} {b' : β'} (hb : I b b') :
    Twins C R (Prog.loop body fuel b) (Prog.loop body' fuel b') := by
  induction fuel generalizing b b' with
  | zero => exact .hang
  | succ fuel ih =>
    refine (hbody b b' hb).andThen fun step step' hstep => ?_
    cases hstep with
    | inl h => exact ih h
    | inr h => exact .ret h

/-- Lists whose elements are related one by one. -/
theorem Twins.mapList {T : γ → γ' → Prop} {f : γ → Prog Op Resp E α}
    {f' : γ' → Prog Op Resp E α'} (hf : ∀ c c', T c c' → Twins C R (f c) (f' c'))
    {cs : List γ} {cs' : List γ'} (hcs : List.Forall₂ T cs cs') :
    Twins C (List.Forall₂ R) (Prog.mapList f cs) (Prog.mapList f' cs') := by
  induction hcs with
  | nil => exact .ret .nil
  | cons hc _ ih =>
    exact (hf _ _ hc).andThen fun a a' ha => ih.andThen fun as as' has => .ret (.cons ha has)

/-- On systems that treat counterparts alike, twins end in related states. -/
theorem Twins.exec {I : σ → τ → Prop} {h : Handler Op Resp σ} {h' : Handler Op Resp τ}
    {p : Prog Op Resp E α} {p' : Prog Op Resp E α'} (hp : Twins C R p p')
    (hstep : ∀ o o' T s t, C o o' T → I s t → T (h o s).1 (h' o' t).1 ∧ I (h o s).2 (h' o' t).2)
    {s : σ} {t : τ} (hs : I s t) :
    I (exec h everyCall p s).state (exec h' everyCall p' t).state := by
  induction hp generalizing s t with
  | ret _ => exact hs
  | exit e e' => exact hs
  | hang => exact hs
  | call ho _ ih =>
    obtain ⟨hanswer, hnext⟩ := hstep _ _ _ s t ho hs
    exact ih _ _ hanswer hnext

/-- Two systems that answer the calls of a program alike bring it to the same
end. -/
theorem outcome_alike {I : σ → τ → Prop} {h : Handler Op Resp σ} {h' : Handler Op Resp τ}
    {P : Op → Prop} {X : E → Prop} {T : α → Prop} {p : Prog Op Resp E α} (hp : p.Sat P X T)
    (hstep : ∀ o s t, P o → I s t → (h o s).1 = (h' o t).1 ∧ I (h o s).2 (h' o t).2)
    {s : σ} {t : τ} (hs : I s t) :
    (exec h everyCall p s).outcome = (exec h' everyCall p t).outcome ∧
      I (exec h everyCall p s).state (exec h' everyCall p t).state := by
  induction p generalizing s t with
  | ret a => exact ⟨rfl, hs⟩
  | exit e => exact ⟨rfl, hs⟩
  | hang => exact ⟨rfl, hs⟩
  | call o next ih =>
    obtain ⟨hanswer, hnext⟩ := hstep o s t hp.1 hs
    obtain ⟨hout, hstate⟩ := ih (h o s).1 (hp.2 _) hnext
    rw [hanswer] at hout hstate
    refine ⟨?_, ?_⟩
    · exact (congrArg (fun r => (exec h everyCall (next r) (h o s).2).outcome) hanswer).trans hout
    · have hsame : (exec h everyCall (.call o next) s).state =
          (exec h everyCall (next (h' o t).1) (h o s).2).state :=
        congrArg (fun r => (exec h everyCall (next r) (h o s).2).state) hanswer
      rw [hsame]
      exact hstate

end Rules

end MetaDigi.SystemTwins
