import MetaDigi.SystemRuns

/-!
# Programs that return

`Returns` says of a run that it returns, and what holds of the value and of
the state then. Its rules follow the program. A program over some operations
is also one over more operations, and its runs are the same; where it is left,
the larger program may have something to do yet.
-/

namespace MetaDigi.SystemReturns

open SystemProgram SystemRuns Prog

variable {Op : Type} {Resp : Op → Type} {E α β γ σ : Type} {h : Handler Op Resp σ}

/-- A run returns with a value and in a state that are related. -/
def Returns (h : Handler Op Resp σ) (p : Prog Op Resp E α) (s : σ) (Q : α → σ → Prop) : Prop :=
  ∃ a s', Ends h p s (.ret a) s' ∧ Q a s'

section Rules

variable {p : Prog Op Resp E α} {f : α → Prog Op Resp E β} {s : σ} {Q Q' : α → σ → Prop}
  {R : β → σ → Prop}

/-- A result. -/
theorem returns_pure {a : α} (hQ : Q a s) : Returns h (pure a : Prog Op Resp E α) s Q :=
  ⟨a, s, ends_pure a s, hQ⟩

/-- A call goes on with its answer in the state after it. -/
theorem returns_call {o : Op} {f : Resp o → Prog Op Resp E β}
    (hf : Returns h (f (h o s).1) (h o s).2 R) : Returns h (.perform o >>= f) s R :=
  hf

/-- What follows from the condition holds as well. -/
theorem Returns.mono (hp : Returns h p s Q) (hQ : ∀ a s', Q a s' → Q' a s') :
    Returns h p s Q' := by
  obtain ⟨a, s', hends, ha⟩ := hp
  exact ⟨a, s', hends, hQ a s' ha⟩

/-- One program after the other. -/
theorem Returns.andThen (hp : Returns h p s Q) (hf : ∀ a s', Q a s' → Returns h (f a) s' R) :
    Returns h (p >>= f) s R := by
  obtain ⟨a, s₁, hends, ha⟩ := hp
  obtain ⟨b, s₂, hrest, hb⟩ := hf a s₁ ha
  exact ⟨b, s₂, hends.andThen hrest, hb⟩

/-- A first part that returns, in front of one that may be left. -/
theorem Returns.leaves {S : Outcome E β → σ → Prop} (hp : Returns h p s Q)
    (hf : ∀ a s', Q a s' → Leaves h (f a) s' S) : Leaves h (p >>= f) s S := by
  obtain ⟨a, s₁, hends, ha⟩ := hp
  exact hends.leaves (hf a s₁ ha)

/-- A loop whose passes return, keep an invariant and lower a measure. -/
theorem Returns.loop {I : β → σ → Prop} {measure : β → ℕ} {body : β → Prog Op Resp E (β ⊕ α)}
    (hbody : ∀ b s, I b s → Returns h (body b) s fun step s' =>
      Sum.elim (fun b' => I b' s' ∧ measure b' < measure b) (fun a => Q a s') step)
    {fuel : ℕ} {b : β} (hfuel : measure b < fuel) (hb : I b s) :
    Returns h (Prog.loop body fuel b) s Q := by
  induction fuel generalizing b s with
  | zero => exact absurd hfuel (Nat.not_lt_zero _)
  | succ fuel ih =>
    refine (hbody b s hb).andThen fun step s' hstep => ?_
    cases step with
    | inl b' => exact ih (Nat.lt_of_lt_of_le hstep.2 (Nat.le_of_lt_succ hfuel)) hstep.1
    | inr a => exact returns_pure hstep

/-- Where one pass of a loop may end: with an invariant and a lower measure, or
where the loop may end. -/
def Passes (I : β → σ → Prop) (measure : β → σ → ℕ) (T : Outcome E α → σ → Prop) (b : β) (s : σ) :
    Outcome E (β ⊕ α) → σ → Prop
  | .ret (.inl b'), s' => I b' s' ∧ measure b' s' < measure b s
  | .ret (.inr a), s' => T (.ret a) s'
  | .exit e, s' => T (.exit e) s'
  | .hang, s' => T .hang s'

/-- A loop that may be left in any of its passes. -/
theorem leaves_loop (I : β → σ → Prop) (measure : β → σ → ℕ) {T : Outcome E α → σ → Prop}
    {body : β → Prog Op Resp E (β ⊕ α)}
    (hbody : ∀ b s, I b s → Leaves h (body b) s (Passes I measure T b s))
    {fuel : ℕ} {b : β} (hfuel : measure b s < fuel) (hb : I b s) :
    Leaves h (Prog.loop body fuel b) s T := by
  induction fuel generalizing b s with
  | zero => exact absurd hfuel (Nat.not_lt_zero _)
  | succ fuel ih =>
    refine Leaves.andThen ((hbody b s hb).mono fun out s' hout => ?_)
    match out, hout with
    | .ret (.inl b'), hstep =>
      exact ih (Nat.lt_of_lt_of_le hstep.2 (Nat.le_of_lt_succ hfuel)) hstep.1
    | .ret (.inr a), hlast => exact hlast
    | .exit e, hexit => exact hexit
    | .hang, hhang => exact hhang

/-- A list: what is known of the elements done so far is carried along. -/
theorem Returns.mapList {f : γ → Prog Op Resp E α} {I : List γ → List α → σ → Prop}
    (hstep : ∀ done as c s, I done as s →
      Returns h (f c) s fun a s' => I (done ++ [c]) (as ++ [a]) s')
    {cs done : List γ} {as : List α} (hs : I done as s) :
    Returns h (Prog.mapList f cs) s fun as' s' => I (done ++ cs) (as ++ as') s' := by
  induction cs generalizing done as s with
  | nil => exact returns_pure (by rw [List.append_nil, List.append_nil]; exact hs)
  | cons c cs ih =>
    refine (hstep done as c s hs).andThen fun a s₁ ha => (ih ha).andThen fun as' s₂ has => ?_
    refine returns_pure ?_
    rw [List.append_assoc, List.append_assoc] at has
    exact has

end Rules

section Embedding

variable {Op' : Type} {Resp' : Op' → Type} (ι : Op → Op') (back : ∀ o, Resp' (ι o) → Resp o)

/-- A system as it is seen through some of its operations. -/
def narrow (h : Handler Op' Resp' σ) : Handler Op Resp σ := fun o s =>
  (back o (h (ι o) s).1, (h (ι o) s).2)

/-- A program over more operations, with a sequel for each reason to leave it. -/
def embedOr {E' : Type} (leave : E → Prog Op' Resp' E' α) : Prog Op Resp E α → Prog Op' Resp' E' α
  | .ret a => .ret a
  | .exit e => leave e
  | .hang => .hang
  | .call o next => .call (ι o) fun r => embedOr leave (next (back o r))

variable {ι back} {h' : Handler Op' Resp' σ} {p : Prog Op Resp E α} {s : σ}

section Rescues

variable {E' : Type} {leave : E → Prog Op' Resp' E' α} {R : Outcome E' α → σ → Prop}

/-- A program that returns is not left. -/
theorem Returns.embedOr {Q : α → σ → Prop} (hp : Returns (narrow ι back h') p s Q) :
    Returns h' (SystemReturns.embedOr ι back leave p) s Q := by
  obtain ⟨a, s', ⟨hout, hs'⟩, ha⟩ := hp
  refine ⟨a, s', ?_, ha⟩
  induction p generalizing s with
  | ret b =>
    cases hout
    exact ⟨rfl, hs'⟩
  | exit e => cases hout
  | hang => cases hout
  | call o next ih => exact ih _ hout hs'

/-- What has to hold where a program with sequels ends. -/
def Rescues (h' : Handler Op' Resp' σ) (leave : E → Prog Op' Resp' E' α)
    (R : Outcome E' α → σ → Prop) : Outcome E α → σ → Prop
  | .ret a, s => R (.ret a) s
  | .exit e, s => Leaves h' (leave e) s R
  | .hang, s => R .hang s

/-- A result is passed on. -/
theorem rescues_ret {a : α} : Rescues h' leave R (.ret a) s = R (.ret a) s := rfl

/-- An exit is handled. -/
theorem rescues_exit {e : E} : Rescues h' leave R (.exit e) s = Leaves h' (leave e) s R := rfl

/-- A program over fewer calls, with its exits handled. -/
theorem leaves_embedOr (hp : Leaves (narrow ι back h') p s (Rescues h' leave R)) :
    Leaves h' (embedOr ι back leave p) s R := by
  induction p generalizing s with
  | ret a => exact hp
  | exit e => exact hp
  | hang => exact hp
  | call o next ih => exact ih _ hp

end Rescues

end Embedding

end MetaDigi.SystemReturns
