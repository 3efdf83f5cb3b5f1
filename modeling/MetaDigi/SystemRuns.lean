import MetaDigi.SystemProgram

/-!
# Runs of programs on one system

`Ends` says how a run ends and in which state. Its rules follow the shape of a
program in both directions: a run of a composition is put together from runs of
the parts, and a run that has returned is taken apart into them. For a loop the
first direction goes pass by pass, the second one by an invariant.
-/

namespace MetaDigi.SystemRuns

open SystemProgram

variable {Op : Type} {Resp : Op → Type} {E α β γ σ : Type} {h : Handler Op Resp σ}

/-- The run of a program from a state ends in this way, in this state. -/
def Ends (h : Handler Op Resp σ) (p : Prog Op Resp E α) (s : σ) (o : Outcome E α) (s' : σ) :
    Prop :=
  (exec h everyCall p s).outcome = o ∧ (exec h everyCall p s).state = s'

/-- A run ends in one way only. -/
theorem Ends.unique {p : Prog Op Resp E α} {s s₁ s₂ : σ} {o₁ o₂ : Outcome E α}
    (h₁ : Ends h p s o₁ s₁) (h₂ : Ends h p s o₂ s₂) : o₁ = o₂ ∧ s₁ = s₂ :=
  ⟨h₁.1.symm.trans h₂.1, h₁.2.symm.trans h₂.2⟩

/-- A result. -/
theorem ends_ret (a : α) (s : σ) : Ends h (.ret a : Prog Op Resp E α) s (.ret a) s := ⟨rfl, rfl⟩

/-- A result. -/
theorem ends_pure (a : α) (s : σ) : Ends h (pure a : Prog Op Resp E α) s (.ret a) s := ⟨rfl, rfl⟩

/-- An exit. -/
theorem ends_exit (e : E) (s : σ) : Ends h (.exit e : Prog Op Resp E α) s (.exit e) s := ⟨rfl, rfl⟩

/-- An endless loop. -/
theorem ends_hang (s : σ) : Ends h (.hang : Prog Op Resp E α) s .hang s := ⟨rfl, rfl⟩

/-- A single call. -/
theorem ends_perform (o : Op) (s : σ) :
    Ends h (.perform o : Prog Op Resp E (Resp o)) s (.ret (h o s).1) (h o s).2 := ⟨rfl, rfl⟩

/-- A run goes on with the answer of a call in the state after it. -/
theorem ends_call {o : Op} {f : Resp o → Prog Op Resp E β} {s s' : σ} {out : Outcome E β}
    (hf : Ends h (f (h o s).1) (h o s).2 out s') : Ends h (.perform o >>= f) s out s' :=
  hf

section Compose

variable {p : Prog Op Resp E α} {f : α → Prog Op Resp E β} {s s₁ s₂ : σ}

/-- A first part that returns is continued by the second part. -/
theorem Ends.andThen {a : α} {o : Outcome E β} (hp : Ends h p s (.ret a) s₁)
    (hf : Ends h (f a) s₁ o s₂) : Ends h (p >>= f) s o s₂ := by
  obtain ⟨ho, hs⟩ := hp
  rw [← hs] at hf
  unfold Ends
  rw [exec_monadBind, Run.andThen]
  simp only [ho]
  exact hf

/-- A first part that is left leaves the whole. -/
theorem Ends.andThen_exit {e : E} (hp : Ends h p s (.exit e) s₁) :
    Ends h (p >>= f) s (.exit e) s₁ := by
  obtain ⟨ho, hs⟩ := hp
  unfold Ends
  rw [exec_monadBind, Run.andThen]
  simp only [ho]
  exact ⟨trivial, hs⟩

/-- A first part that does not end is the whole. -/
theorem Ends.andThen_hang (hp : Ends h p s .hang s₁) : Ends h (p >>= f) s .hang s₁ := by
  obtain ⟨ho, hs⟩ := hp
  unfold Ends
  rw [exec_monadBind, Run.andThen]
  simp only [ho]
  exact ⟨trivial, hs⟩

/-- Behind a first part that returns, the composition runs as the second part. -/
theorem Ends.rest {a : α} {o : Outcome E β} (hp : Ends h p s (.ret a) s₁)
    (hpf : Ends h (p >>= f) s o s₂) : Ends h (f a) s₁ o s₂ := by
  have hf : Ends h (f a) s₁ (exec h everyCall (f a) s₁).outcome (exec h everyCall (f a) s₁).state :=
    ⟨rfl, rfl⟩
  obtain ⟨ho, hs⟩ := hpf.unique (hp.andThen hf)
  rw [ho, hs]
  exact hf

/-- A composition that has returned consists of two runs that have. -/
theorem Ends.split {b : β} (hpf : Ends h (p >>= f) s (.ret b) s₂) :
    ∃ a s₁, Ends h p s (.ret a) s₁ ∧ Ends h (f a) s₁ (.ret b) s₂ := by
  obtain ⟨ho, hs⟩ := hpf
  rw [exec_monadBind, Run.andThen] at ho hs
  cases hp : (exec h everyCall p s).outcome with
  | ret a =>
    simp only [hp] at ho hs
    exact ⟨a, _, ⟨hp, rfl⟩, ho, hs⟩
  | exit e =>
    simp only [hp] at ho
    cases ho
  | hang =>
    simp only [hp] at ho
    cases ho

end Compose

/-- The program comes to an end, whatever is answered. -/
def Halts : Prog Op Resp E α → Prop
  | .ret _ => True
  | .exit _ => True
  | .hang => False
  | .call _ next => ∀ r, Halts (next r)

/-- A run of a program that comes to an end does not go on for ever. -/
theorem Halts.not_hang {p : Prog Op Resp E α} {s s' : σ} (hp : Halts p) :
    ¬Ends h p s .hang s' := by
  rintro ⟨ho, -⟩
  induction p generalizing s with
  | ret a => cases ho
  | exit e => cases ho
  | hang => exact hp
  | call o next ih => exact ih _ (hp _) ho

/-- A result has returned itself. -/
theorem Ends.ret_inv {a b : α} {s s' : σ} (hr : Ends h (.ret a : Prog Op Resp E α) s (.ret b) s') :
    b = a ∧ s' = s := by
  obtain ⟨ho, hs⟩ := hr
  cases ho
  exact ⟨rfl, hs.symm⟩

/-- A result has returned itself. -/
theorem Ends.pure_inv {a b : α} {s s' : σ}
    (hr : Ends h (pure a : Prog Op Resp E α) s (.ret b) s') : b = a ∧ s' = s :=
  hr.ret_inv

/-- An exit does not return. -/
theorem Ends.exit_inv {e : E} {b : α} {s s' : σ}
    (hr : Ends h (.exit e : Prog Op Resp E α) s (.ret b) s') : False := by
  obtain ⟨ho, _⟩ := hr
  cases ho

/-- A call has returned its answer. -/
theorem Ends.perform_inv {o : Op} {r : Resp o} {s s' : σ}
    (hr : Ends h (.perform o : Prog Op Resp E (Resp o)) s (.ret r) s') :
    r = (h o s).1 ∧ s' = (h o s).2 := by
  obtain ⟨ho, hs⟩ := hr
  cases ho
  exact ⟨rfl, hs.symm⟩

section Allowed

variable {P : Op → Prop} {X : E → Prop} {R : α → Prop} {p : Prog Op Resp E α} {s s' : σ}

/-- A run returns what the program can return. -/
theorem Ends.result {a : α} (hrun : Ends h p s (.ret a) s') (hp : p.Sat P X R) : R a :=
  (hp.exec h everyCall s).2.1 a hrun.1

/-- What the operations of a program keep is kept by its runs. -/
theorem Ends.keeps {I : σ → Prop} {o : Outcome E α} (hrun : Ends h p s o s') (hp : p.Sat P X R)
    (hstep : ∀ q t, P q → I t → I (h q t).2) (hs : I s) : I s' := by
  obtain ⟨-, hs'⟩ := hrun
  rw [← hs']
  clear hs'
  induction p generalizing s with
  | ret a => exact hs
  | exit e => exact hs
  | hang => exact hs
  | call q next ih => exact ih _ (hp.2 _) (hstep q s hp.1 hs)

end Allowed

section Leaves

variable {p : Prog Op Resp E α} {f : α → Prog Op Resp E β} {s : σ}
  {Q Q' : Outcome E α → σ → Prop} {R : Outcome E β → σ → Prop}

/-- What holds of the outcome of a run and of the state in which it ends,
however it ends. -/
def Leaves (h : Handler Op Resp σ) (p : Prog Op Resp E α) (s : σ) (Q : Outcome E α → σ → Prop) :
    Prop :=
  Q (exec h everyCall p s).outcome (exec h everyCall p s).state

/-- What follows holds as well. -/
theorem Leaves.mono (hp : Leaves h p s Q) (hQ : ∀ out s', Q out s' → Q' out s') :
    Leaves h p s Q' :=
  hQ _ _ hp

/-- A call goes on with its answer in the state after it. -/
theorem leaves_call {o : Op} {f : Resp o → Prog Op Resp E α}
    (hf : Leaves h (f (h o s).1) (h o s).2 Q) : Leaves h (.perform o >>= f) s Q :=
  hf

/-- A result. -/
theorem leaves_pure {a : α} (hQ : Q (.ret a) s) : Leaves h (pure a : Prog Op Resp E α) s Q := hQ

/-- An exit. -/
theorem leaves_exit {e : E} (hQ : Q (.exit e) s) : Leaves h (.exit e : Prog Op Resp E α) s Q := hQ

/-- What has to hold where the first part of a composition ends. -/
def Resumes (h : Handler Op Resp σ) (f : α → Prog Op Resp E β) (R : Outcome E β → σ → Prop) :
    Outcome E α → σ → Prop
  | .ret a, s => Leaves h (f a) s R
  | .exit e, s => R (.exit e) s
  | .hang, s => R .hang s

/-- After a result the next program runs. -/
theorem resumes_ret {a : α} : Resumes h f R (.ret a) s = Leaves h (f a) s R := rfl

/-- The second part goes on where the first one has returned. -/
theorem Leaves.andThen (hp : Leaves h p s (Resumes h f R)) : Leaves h (p >>= f) s R := by
  induction p generalizing s with
  | ret a => exact hp
  | exit e => exact hp
  | hang => exact hp
  | call o next ih => exact ih (h o s).1 hp

/-- A run whose end is known. -/
theorem Ends.left {out : Outcome E α} {s' : σ} (hp : Ends h p s out s') (hQ : Q out s') :
    Leaves h p s Q := by
  unfold Leaves
  rw [hp.1, hp.2]
  exact hQ

/-- The end of a run is as it was proved to be. -/
theorem Ends.meets {out : Outcome E α} {s' : σ} (hends : Ends h p s out s')
    (hp : Leaves h p s Q) : Q out s' := by
  obtain ⟨rfl, rfl⟩ := hends
  exact hp

/-- A first part that is known to return. -/
theorem Ends.leaves {a : α} {s₁ : σ} (hp : Ends h p s (.ret a) s₁) (hf : Leaves h (f a) s₁ R) :
    Leaves h (p >>= f) s R := by
  obtain ⟨ho, hs⟩ := hp.andThen (⟨rfl, rfl⟩ : Ends h (f a) s₁ _ _)
  unfold Leaves
  rw [ho, hs]
  exact hf

/-- What the operations of a program keep holds however it ends. -/
theorem leaves_keeps {P : Op → Prop} {X : E → Prop} {T : α → Prop} {I : σ → Prop}
    (hp : p.Sat P X T) (hstep : ∀ q t, P q → I t → I (h q t).2) (hs : I s) :
    Leaves h p s fun _ s' => I s' := by
  have hends : Ends h p s (exec h everyCall p s).outcome (exec h everyCall p s).state := ⟨rfl, rfl⟩
  exact hends.keeps hp hstep hs

end Leaves

section Loop

variable {body : β → Prog Op Resp E (β ⊕ α)} {fuel : ℕ} {b b' : β} {s s₁ s₂ : σ}

/-- A pass that goes on is followed by the rest of the loop. -/
theorem Ends.loop_next {o : Outcome E α} (hbody : Ends h (body b) s (.ret (.inl b')) s₁)
    (hrest : Ends h (Prog.loop body fuel b') s₁ o s₂) :
    Ends h (Prog.loop body (fuel + 1) b) s o s₂ :=
  Ends.andThen hbody hrest

/-- A pass with a result ends the loop. -/
theorem Ends.loop_last {a : α} (hbody : Ends h (body b) s (.ret (.inr a)) s₁) :
    Ends h (Prog.loop body (fuel + 1) b) s (.ret a) s₁ :=
  Ends.andThen hbody (ends_ret a s₁)

/-- A pass that decides whether to go on, as at the end of a `do` loop. -/
theorem Ends.loop_test {c : Prop} [Decidable c] {a : α} {o : Outcome E α}
    (hbody : Ends h (body b) s (.ret (if c then .inl b' else .inr a)) s₁)
    (hrest : Ends h (if c then Prog.loop body fuel b' else .ret a) s₁ o s₂) :
    Ends h (Prog.loop body (fuel + 1) b) s o s₂ := by
  by_cases hc : c
  · rw [if_pos hc] at hbody hrest
    exact hbody.loop_next hrest
  · rw [if_neg hc] at hbody hrest
    exact Ends.andThen hbody hrest

/-- What every pass keeps holds at the end of a loop that has returned. -/
theorem Ends.loop_invariant {I : β → σ → Prop} {Q : α → σ → Prop}
    (hpass : ∀ b s, I b s → ∀ step s', Ends h (body b) s (.ret step) s' →
      Sum.elim (fun b' => I b' s') (fun a => Q a s') step)
    (hb : I b s) {a : α} (hloop : Ends h (Prog.loop body fuel b) s (.ret a) s₂) : Q a s₂ := by
  induction fuel generalizing b s with
  | zero => cases hloop.1
  | succ fuel ih =>
    obtain ⟨step, s₁, hbody, hrest⟩ := Ends.split hloop
    have hstep := hpass b s hb step s₁ hbody
    cases step with
    | inl b' => exact ih hstep hrest
    | inr a' =>
      obtain ⟨ha, hs⟩ := hrest.ret_inv
      rw [ha, hs]
      exact hstep

/-- A loop whose passes return, keep an invariant and lower a measure returns. -/
theorem Ends.loop_returns {I : β → σ → Prop} {measure : β → ℕ}
    (hpass : ∀ b s, I b s → ∃ step s', Ends h (body b) s (.ret step) s' ∧
      Sum.elim (fun b' => I b' s' ∧ measure b' < measure b) (fun _ => True) step)
    (hfuel : measure b < fuel) (hb : I b s) :
    ∃ a s', Ends h (Prog.loop body fuel b) s (.ret a) s' := by
  induction fuel generalizing b s with
  | zero => exact absurd hfuel (Nat.not_lt_zero _)
  | succ fuel ih =>
    obtain ⟨step, s₁, hbody, hstep⟩ := hpass b s hb
    cases step with
    | inl b' =>
      have hlower := Nat.lt_of_lt_of_le hstep.2 (Nat.le_of_lt_succ hfuel)
      obtain ⟨a, s', hrest⟩ := ih hlower hstep.1
      exact ⟨a, s', hbody.loop_next hrest⟩
    | inr a => exact ⟨a, s₁, hbody.loop_last⟩

end Loop

section Lists

variable {f : γ → Prog Op Resp E α}

/-- The run over a list begins with the run for its first element. -/
theorem Ends.mapList_cons {c : γ} {cs : List γ} {a : α} {as : List α} {s s₁ s₂ : σ}
    (hc : Ends h (f c) s (.ret a) s₁) (hcs : Ends h (Prog.mapList f cs) s₁ (.ret as) s₂) :
    Ends h (Prog.mapList f (c :: cs)) s (.ret (a :: as)) s₂ :=
  Ends.andThen hc (Ends.andThen hcs (ends_ret _ _))

/-- A list is run to its end when the run for every element returns. -/
theorem Ends.mapList_returns {I : σ → Prop} {cs : List γ} {s : σ}
    (hpass : ∀ c ∈ cs, ∀ s, I s → ∃ a s', Ends h (f c) s (.ret a) s' ∧ I s') (hs : I s) :
    ∃ as s', Ends h (Prog.mapList f cs) s (.ret as) s' ∧ I s' := by
  induction cs generalizing s with
  | nil => exact ⟨[], s, ends_ret _ _, hs⟩
  | cons c cs ih =>
    obtain ⟨a, s₁, hc, hs₁⟩ := hpass c (List.mem_cons_self ..) s hs
    obtain ⟨as, s₂, hcs, hs₂⟩ := ih (fun d hd => hpass d (List.mem_cons_of_mem _ hd)) hs₁
    exact ⟨a :: as, s₂, Ends.mapList_cons hc hcs, hs₂⟩

/-- The last element of a list is run last. -/
theorem Ends.mapList_last {cs : List γ} {c : γ} {as : List α} {s s' : σ}
    (hlist : Ends h (Prog.mapList f (cs ++ [c])) s (.ret as) s') :
    ∃ a s₁, as.getLast? = some a ∧ Ends h (f c) s₁ (.ret a) s' := by
  induction cs generalizing s as s' with
  | nil =>
    obtain ⟨a, s₁, hc, hrest⟩ := Ends.split hlist
    obtain ⟨has, hs'⟩ := hrest.ret_inv
    rw [has, hs']
    exact ⟨a, s, rfl, hc⟩
  | cons d cs ih =>
    obtain ⟨b, s₁, -, hrest⟩ := Ends.split hlist
    obtain ⟨bs, s₂, hcs, hlast⟩ := Ends.split hrest
    obtain ⟨has, hs'⟩ := hlast.ret_inv
    rw [has, hs']
    obtain ⟨a, s₃, hbs, hc⟩ := ih hcs
    refine ⟨a, s₃, ?_, hc⟩
    rw [List.getLast?_cons, hbs, Option.getD_some]

end Lists

section Calls

variable {P V : Op → Prop} {X : E → Prop} {R : α → Prop} {p : Prog Op Resp E α}
  {f : α → Prog Op Resp E β} {s s₁ : σ}

/-- Every operation of a run satisfies `V`. -/
def Makes (h : Handler Op Resp σ) (V : Op → Prop) (p : Prog Op Resp E α) (s : σ) : Prop :=
  ∀ o ∈ (exec h everyCall p s).calls, V o

/-- A run makes the operations that the program may issue. -/
theorem makes_of_sat (hp : p.Sat V X R) : Makes h V p s := (hp.exec h everyCall s).1

/-- A single call. -/
theorem makes_perform {o : Op} :
    Makes h V (.perform o : Prog Op Resp E (Resp o)) s ↔ V o := by
  unfold Makes
  rw [exec_perform]
  exact List.forall_mem_singleton

/-- The operations of a composition are those of its parts. -/
theorem Ends.calls_andThen {a : α} (hp : Ends h p s (.ret a) s₁) :
    (exec h everyCall (p >>= f) s).calls =
      (exec h everyCall p s).calls ++ (exec h everyCall (f a) s₁).calls := by
  obtain ⟨ho, hs⟩ := hp
  rw [exec_monadBind, Run.andThen]
  simp only [ho, hs]

/-- The calls of two programs one after the other. -/
theorem Ends.makes_andThen {a : α} (hp : Ends h p s (.ret a) s₁) :
    Makes h V (p >>= f) s ↔ Makes h V p s ∧ Makes h V (f a) s₁ := by
  unfold Makes
  rw [hp.calls_andThen]
  exact List.forall_mem_append

/-- The operations of a composition whose first part may be left. -/
theorem makes_seq (hp : Makes h V p s)
    (hf : ∀ a s₁, Ends h p s (.ret a) s₁ → Makes h V (f a) s₁) : Makes h V (p >>= f) s := by
  unfold Makes
  rw [exec_monadBind, Run.andThen]
  cases hout : (exec h everyCall p s).outcome with
  | ret a => exact List.forall_mem_append.mpr ⟨hp, hf a _ ⟨hout, rfl⟩⟩
  | exit e => exact hp
  | hang => exact hp

/-- The operations of a loop are those of its passes, which keep an invariant. -/
theorem makes_loop {I : β → σ → Prop} {body : β → Prog Op Resp E (β ⊕ α)} {fuel : ℕ} {b : β}
    (hpass : ∀ b s, I b s → Makes h V (body b) s ∧
      ∀ b' s', Ends h (body b) s (.ret (.inl b')) s' → I b' s')
    (hb : I b s) : Makes h V (Prog.loop body fuel b) s := by
  induction fuel generalizing b s with
  | zero => exact fun o ho => absurd ho List.not_mem_nil
  | succ fuel ih =>
    refine makes_seq (hpass b s hb).1 fun step s' hbody => ?_
    cases step with
    | inl b' => exact ih ((hpass b s hb).2 b' s' hbody)
    | inr a => exact fun o ho => absurd ho List.not_mem_nil

/-- The operations of a run over a list are those of its elements, which keep
an invariant. -/
theorem makes_mapList {I : σ → Prop} {f : γ → Prog Op Resp E α} {cs : List γ}
    (hpass : ∀ c ∈ cs, ∀ s, I s → Makes h V (f c) s ∧
      ∀ a s', Ends h (f c) s (.ret a) s' → I s')
    (hs : I s) : Makes h V (Prog.mapList f cs) s := by
  induction cs generalizing s with
  | nil => exact fun o ho => absurd ho List.not_mem_nil
  | cons c cs ih =>
    have hfirst := hpass c (List.mem_cons_self ..) s hs
    refine makes_seq hfirst.1 fun a s₁ hc => makes_seq ?_ fun as s₂ _ o ho =>
      absurd ho List.not_mem_nil
    exact ih (fun d hd => hpass d (List.mem_cons_of_mem _ hd)) (hfirst.2 a s₁ hc)

/-- What the operations of a run keep is kept by the run. -/
theorem Makes.keeps {I : σ → Prop} (hp : Makes h V p s)
    (hstep : ∀ o t, V o → I t → I (h o t).2) (hs : I s) : I (exec h everyCall p s).state := by
  induction p generalizing s with
  | ret a => exact hs
  | exit e => exact hs
  | hang => exact hs
  | call o next ih =>
    have hall : ∀ q ∈ o :: (exec h everyCall (next (h o s).1) (h o s).2).calls, V q := hp
    obtain ⟨ho, hrest⟩ := List.forall_mem_cons.mp hall
    exact ih _ hrest (hstep o s ho hs)

/-- An operation that the first part does not issue is issued by the second
part, and the first part has returned. -/
theorem call_after {o : Op} (hp : p.Sat (fun q => q ≠ o) X R)
    (ho : o ∈ (exec h everyCall (p >>= f) s).calls) :
    ∃ a s', Ends h p s (.ret a) s' ∧ o ∈ (exec h everyCall (f a) s').calls := by
  have hfirst : o ∉ (exec h everyCall p s).calls := fun hmem =>
    (hp.exec h everyCall s).1 o hmem rfl
  rw [exec_monadBind, Run.andThen] at ho
  cases hout : (exec h everyCall p s).outcome with
  | ret a =>
    simp only [hout] at ho
    exact ⟨a, _, ⟨hout, rfl⟩, (List.mem_append.mp ho).resolve_left hfirst⟩
  | exit e =>
    simp only [hout] at ho
    exact absurd ho hfirst
  | hang =>
    simp only [hout] at ho
    exact absurd ho hfirst

/-- What the operations for one element depend on, carried over a list. -/
theorem Ends.mapList_makes {I : σ → Prop} {J : γ → Prop} {f : γ → Prog Op Resp E α} {cs : List γ}
    (hpass : ∀ c ∈ cs, ∀ s a s', I s → Ends h (f c) s (.ret a) s' →
      I s' ∧ (Makes h V (f c) s ↔ J c))
    {s s' : σ} {as : List α} (hs : I s) (hlist : Ends h (Prog.mapList f cs) s (.ret as) s') :
    I s' ∧ (Makes h V (Prog.mapList f cs) s ↔ ∀ c ∈ cs, J c) := by
  induction cs generalizing s s' as with
  | nil =>
    obtain ⟨-, hs'⟩ := hlist.ret_inv
    rw [hs']
    exact ⟨hs, fun _ c hc => absurd hc List.not_mem_nil, fun _ o ho => absurd ho List.not_mem_nil⟩
  | cons c cs ih =>
    obtain ⟨a, s₁, hc, hrest⟩ := Ends.split hlist
    obtain ⟨as', s₂, hcs, hlast⟩ := Ends.split hrest
    obtain ⟨-, hs'⟩ := hlast.ret_inv
    obtain ⟨hs₁, hfirst⟩ := hpass c (List.mem_cons_self ..) s a s₁ hs hc
    obtain ⟨hs₂, htail⟩ := ih (fun d hd => hpass d (List.mem_cons_of_mem _ hd)) hs₁ hcs
    have hnone : Makes h V (.ret (a :: as') : Prog Op Resp E (List α)) s₂ := fun o ho =>
      absurd ho List.not_mem_nil
    rw [hs', List.forall_mem_cons, ← hfirst, ← htail]
    refine ⟨hs₂, (Ends.makes_andThen hc).trans (and_congr_right fun _ => ?_)⟩
    exact (Ends.makes_andThen hcs).trans (and_iff_left hnone)

end Calls

/-- A program is the beginning of another one: cut off where it returns, and
the same as the other one up to there. -/
inductive Starts : Prog Op Resp E α → Prog Op Resp E β → Prop where
  /-- The rest is cut off. -/
  | ret (a : α) (q : Prog Op Resp E β) : Starts (.ret a) q
  /-- Both are left. -/
  | exit (e : E) : Starts (.exit e) (.exit e)
  /-- Both have used up the passes of a loop. -/
  | hang : Starts .hang .hang
  /-- Both issue the same operation and go on in the same way. -/
  | call (o : Op) {next : Resp o → Prog Op Resp E α} {next' : Resp o → Prog Op Resp E β}
    (hnext : ∀ r, Starts (next r) (next' r)) : Starts (.call o next) (.call o next')

section Starts

variable {P : Op → Prop} {X : E → Prop} {R : α → Prop}

/-- After the same first part, whose results are known. -/
theorem Starts.after {f : α → Prog Op Resp E β} {k : α → Prog Op Resp E γ}
    {p : Prog Op Resp E α} (hp : p.Sat P X R) (hf : ∀ a, R a → Starts (f a) (k a)) :
    Starts (p >>= f) (p >>= k) := by
  induction p with
  | ret a => exact hf a hp
  | exit e => exact .exit e
  | hang => exact .hang
  | call o next ih => exact .call o fun r => ih r (hp.2 r)

/-- What begins the first part of a composition begins the composition. -/
theorem Starts.andThen {p : Prog Op Resp E α} {q : Prog Op Resp E β} (h : Starts p q)
    (f : β → Prog Op Resp E γ) : Starts p (q >>= f) := by
  induction h with
  | ret a q => exact .ret a _
  | exit e => exact .exit e
  | hang => exact .hang
  | call o hnext ih => exact .call o ih

/-- A result that is passed on in another form is cut off as well. -/
theorem Starts.result {p : Prog Op Resp E α} {q : Prog Op Resp E β} (h : Starts p q)
    (f : α → γ) : Starts (p >>= fun a => pure (f a)) q := by
  induction h with
  | ret a q => exact .ret _ _
  | exit e => exact .exit e
  | hang => exact .hang
  | call o hnext ih => exact .call o ih

/-- The front of a list is run first. -/
theorem starts_mapList (f : γ → Prog Op Resp E α) (n : ℕ) (cs : List γ) :
    Starts (Prog.mapList f (cs.take n)) (Prog.mapList f cs) := by
  induction cs generalizing n with
  | nil =>
    rw [List.take_nil]
    exact .ret _ _
  | cons c cs ih =>
    cases n with
    | zero => exact .ret _ _
    | succ n =>
      refine Starts.after (R := fun _ => True) (Prog.sat_any (f c)) fun a _ => ?_
      exact Starts.andThen (Starts.result (ih n) _) _

/-- The run of a beginning is a beginning of the run. -/
theorem Starts.exec {p : Prog Op Resp E α} {q : Prog Op Resp E β} (hpq : Starts p q)
    (h : Handler Op Resp σ) (vis : Op → Bool) (s : σ) :
    (exec h vis p s).calls <+: (exec h vis q s).calls ∧
      ((∃ b, (exec h vis q s).outcome = .ret b) → ∃ a, (exec h vis p s).outcome = .ret a) := by
  induction hpq generalizing s with
  | ret a q => exact ⟨List.nil_prefix, fun _ => ⟨a, rfl⟩⟩
  | exit e => exact ⟨List.prefix_refl _, fun ⟨b, hb⟩ => nomatch hb⟩
  | hang => exact ⟨List.prefix_refl _, fun ⟨b, hb⟩ => nomatch hb⟩
  | call o hnext ih =>
    obtain ⟨hcalls, hret⟩ := ih (h o s).1 (h o s).2
    exact ⟨(List.prefix_append_right_inj _).mpr hcalls, hret⟩

end Starts

section Blocks

variable {vis : Op → Bool} {block : γ → List Op}

/-- The operations of a run are those of some items in turn. The last ones are
missing when the run does not return. -/
def InBlocks (block : γ → List Op) (r : Run Op E α σ) : Prop :=
  ∃ items : List γ, r.calls <+: items.flatMap block ∧
    ∀ a, r.outcome = .ret a → r.calls = items.flatMap block

/-- A run without operations. -/
theorem inBlocks_of_nil {r : Run Op E α σ} (hnone : r.calls = []) : InBlocks block r :=
  ⟨[], hnone ▸ List.nil_prefix, fun _ _ => hnone⟩

/-- The operations of a continued run are those of the parts. -/
theorem InBlocks.andThen {r : Run Op E α σ} {f : α → σ → Run Op E β σ} (hr : InBlocks block r)
    (hf : ∀ a, InBlocks block (f a r.state)) : InBlocks block (r.andThen f) := by
  obtain ⟨items, hpre, hall⟩ := hr
  unfold Run.andThen
  cases hout : r.outcome with
  | ret a =>
    obtain ⟨more, hmore, hlast⟩ := hf a
    have hfirst := hall a hout
    refine ⟨items ++ more, ?_, fun b hb => ?_⟩
    · rw [List.flatMap_append, hfirst]
      exact (List.prefix_append_right_inj _).mpr hmore
    · have hrest := hlast b hb
      rw [List.flatMap_append, hfirst, ← hrest]
  | exit e => exact ⟨items, hpre, nofun⟩
  | hang => exact ⟨items, hpre, nofun⟩

/-- The operations of a loop are those of its passes. -/
theorem inBlocks_loop {body : β → Prog Op Resp E (β ⊕ α)}
    (hbody : ∀ b s, InBlocks block (exec h vis (body b) s)) (fuel : ℕ) (b : β) (s : σ) :
    InBlocks block (exec h vis (Prog.loop body fuel b) s) := by
  induction fuel generalizing b s with
  | zero => exact inBlocks_of_nil rfl
  | succ fuel ih =>
    rw [exec_loop]
    refine (hbody b s).andThen fun step => ?_
    cases step with
    | inl b' => exact ih b' _
    | inr a => exact inBlocks_of_nil rfl

end Blocks

end MetaDigi.SystemRuns
