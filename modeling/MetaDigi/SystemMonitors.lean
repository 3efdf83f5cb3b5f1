import MetaDigi.SystemHistories

/-!
# Programs under a monitor

A monitor follows the calls of a program with their answers, and tells for
each call whether it may be made now. A program heeds the monitor when it makes
only calls that may be made, whatever the system answers. The rules follow the
shape of a program; a loop is judged by an invariant of the monitor and of the
loop state. What is heeded by a program is heeded in every run.
-/

namespace MetaDigi.SystemMonitors

open SystemProgram SystemRuns SystemHistories

variable {Op : Type} {Resp : Op → Type} {E α β γ σ τ : Type}

/-- An observer of calls that judges each of them beforehand. -/
structure Monitor (Op : Type) (Resp : Op → Type) (τ : Type) where
  /-- What the observer knows after a call with its answer. -/
  note : τ → Event Op Resp → τ
  /-- Whether a call may be made, as far as the observer knows. -/
  allows : τ → Op → Prop

variable (m : Monitor Op Resp τ)

/-- The program makes only calls that the monitor allows; with a result, `Q`
holds of what the monitor knows then. -/
def Heeds (Q : τ → α → Prop) : Prog Op Resp E α → τ → Prop
  | .ret a, t => Q t a
  | .exit _, _ => True
  | .hang, _ => True
  | .call o next, t => m.allows t o ∧ ∀ r, Heeds Q (next r) (m.note t ⟨o, r⟩)

/-- Every call of a history was allowed when it was made. -/
def Heeded : τ → List (Event Op Resp) → Prop
  | _, [] => True
  | t, e :: es => m.allows t e.1 ∧ Heeded (m.note t e) es

variable {m}

section Rules

variable {Q Q' : τ → α → Prop} {R : τ → β → Prop} {t : τ}

theorem heeds_pure {a : α} (hQ : Q t a) : Heeds m Q (pure a : Prog Op Resp E α) t := hQ

theorem heeds_exit (e : E) : Heeds m Q (.exit e : Prog Op Resp E α) t := trivial

/-- A call that is allowed, before the rest of the program. -/
theorem heeds_call {o : Op} {f : Resp o → Prog Op Resp E α} (ho : m.allows t o)
    (hf : ∀ r, Heeds m Q (f r) (m.note t ⟨o, r⟩)) : Heeds m Q (.perform o >>= f) t :=
  ⟨ho, hf⟩

theorem Heeds.andThen {p : Prog Op Resp E α} {f : α → Prog Op Resp E β} (hp : Heeds m Q p t)
    (hf : ∀ t a, Q t a → Heeds m R (f a) t) : Heeds m R (p >>= f) t := by
  induction p generalizing t with
  | ret a => exact hf t a hp
  | exit e => trivial
  | hang => trivial
  | call o next ih => exact ⟨hp.1, fun r => ih r (hp.2 r)⟩

theorem Heeds.mono {p : Prog Op Resp E α} (hp : Heeds m Q p t) (hQ : ∀ t a, Q t a → Q' t a) :
    Heeds m Q' p t := by
  induction p generalizing t with
  | ret a => exact hQ t a hp
  | exit e => trivial
  | hang => trivial
  | call o next ih => exact ⟨hp.1, fun r => ih r (hp.2 r)⟩

/-- What is known of the results for another reason may be used. -/
theorem Heeds.and_sat {P : Op → Prop} {X : E → Prop} {T : α → Prop} {p : Prog Op Resp E α}
    (hp : Heeds m Q p t) (hsat : p.Sat P X T) : Heeds m (fun t a => Q t a ∧ T a) p t := by
  induction p generalizing t with
  | ret a => exact ⟨hp, hsat⟩
  | exit e => trivial
  | hang => trivial
  | call o next ih => exact ⟨hp.1, fun r => ih r (hp.2 r) (hsat.2 r)⟩

/-- Calls that are allowed and mean nothing to the monitor. -/
theorem heeds_of_sat {P : Op → Prop} {X : E → Prop} {T : α → Prop} {p : Prog Op Resp E α}
    (hsat : p.Sat P X T) (hP : ∀ o, P o → m.allows t o ∧ Unmoved m.note o) :
    Heeds m (fun t' a => t' = t ∧ T a) p t := by
  induction p with
  | ret a => exact ⟨rfl, hsat⟩
  | exit e => trivial
  | hang => trivial
  | call o next ih =>
    obtain ⟨hallows, hunmoved⟩ := hP o hsat.1
    refine ⟨hallows, fun r => ?_⟩
    rw [hunmoved r t]
    exact ih r (hsat.2 r)

/-- A loop whose passes keep an invariant. -/
theorem Heeds.loop {I : τ → β → Prop} {body : β → Prog Op Resp E (β ⊕ α)}
    (hbody : ∀ t b, I t b → Heeds m (fun t step => Sum.elim (I t) (Q t) step) (body b) t)
    (fuel : ℕ) {b : β} (hb : I t b) : Heeds m Q (Prog.loop body fuel b) t := by
  induction fuel generalizing b t with
  | zero => trivial
  | succ fuel ih =>
    refine (hbody t b hb).andThen fun t step hstep => ?_
    cases step with
    | inl b => exact ih hstep
    | inr a => exact hstep

/-- A body that keeps what the monitor knows, run for every element of a list. -/
theorem Heeds.mapList {I : τ → Prop} {T : γ → α → Prop} {f : γ → Prog Op Resp E α} {cs : List γ}
    (hf : ∀ c ∈ cs, ∀ t, I t → Heeds m (fun t a => I t ∧ T c a) (f c) t) (ht : I t) :
    Heeds m (fun t as => I t ∧ List.Forall₂ T cs as) (Prog.mapList f cs) t := by
  induction cs generalizing t with
  | nil => exact ⟨ht, .nil⟩
  | cons c cs ih =>
    refine (hf c (List.mem_cons_self ..) t ht).andThen fun t a ha => ?_
    refine (ih (fun d hd => hf d (List.mem_cons_of_mem _ hd)) ha.1).andThen fun t as has => ?_
    exact ⟨has.1, .cons ha.2 has.2⟩

end Rules

section Runs

variable {Q : τ → α → Prop} {t : τ}

/-- A run of a program that heeds the monitor. -/
theorem Heeds.run {p : Prog Op Resp E α} (hp : Heeds m Q p t) (h : Handler Op Resp σ) (s : σ) :
    Heeded m t (history h p s) ∧
      ∀ a, (exec h everyCall p s).outcome = .ret a → Q ((history h p s).foldl m.note t) a := by
  induction p generalizing t s with
  | ret b =>
    refine ⟨trivial, fun a ha => ?_⟩
    rw [← Outcome.ret.inj ha]
    exact hp
  | exit e =>
    refine ⟨trivial, fun a ha => ?_⟩
    cases ha
  | hang =>
    refine ⟨trivial, fun a ha => ?_⟩
    cases ha
  | call o next ih =>
    obtain ⟨hrest, hret⟩ := ih _ (hp.2 (h o s).1) (h o s).2
    exact ⟨⟨hp.1, hrest⟩, hret⟩

end Runs

end MetaDigi.SystemMonitors
