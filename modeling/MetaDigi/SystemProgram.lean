import Mathlib.Data.List.Forall2

/-!
# Programs that talk to a system

A program issues operations one after the other, and goes on with whatever
the system answers. It ends by returning a value, by leaving with a reason,
or by using up the passes allowed to one of its loops. Two views of it are
given: what holds for every answer of every system, and the run on one
particular system. The operations, the answers and the reasons are parameters.
-/

namespace MetaDigi.SystemProgram

/-- A program over operations `Op`, answered in `Resp`, left with a reason
in `E` or with a result. -/
inductive Prog (Op : Type) (Resp : Op → Type) (E α : Type) where
  /-- The program returns. -/
  | ret (a : α)
  /-- The program is left at once, from inside any nesting of calls. -/
  | exit (e : E)
  /-- A loop has used up its passes. -/
  | hang
  /-- Issue an operation and go on with its answer. -/
  | call (o : Op) (next : Resp o → Prog Op Resp E α)

variable {Op : Type} {Resp : Op → Type} {E α β γ σ : Type}

namespace Prog

/-- Sequential composition: a program that does not return has no sequel. -/
def bind (p : Prog Op Resp E α) (f : α → Prog Op Resp E β) : Prog Op Resp E β :=
  match p with
  | ret a => f a
  | exit e => exit e
  | hang => hang
  | call o next => call o (fun r => (next r).bind f)

instance : Monad (Prog Op Resp E) where
  pure := ret
  bind := bind

/-- A program that has returned goes on with its result. -/
theorem ret_andThen (a : α) (f : α → Prog Op Resp E β) : (ret a : Prog Op Resp E α) >>= f = f a :=
  rfl

/-- A program that has been left does not go on. -/
theorem exit_andThen (e : E) (f : α → Prog Op Resp E β) :
    (exit e : Prog Op Resp E α) >>= f = exit e :=
  rfl

/-- Sequential composition does not depend on the grouping. -/
theorem andThen_assoc (p : Prog Op Resp E α) (f : α → Prog Op Resp E β) (g : β → Prog Op Resp E γ) :
    (p >>= f) >>= g = p >>= fun a => f a >>= g := by
  induction p with
  | ret a => rfl
  | exit e => rfl
  | hang => rfl
  | call o next ih => exact congrArg (call o) (funext fun r => ih r)

/-- A single operation as a program. -/
def perform (o : Op) : Prog Op Resp E (Resp o) := call o ret

/-- Repeat a body on a loop state until it yields a result, for at most the
given number of passes. -/
def loop (body : β → Prog Op Resp E (β ⊕ α)) : ℕ → β → Prog Op Resp E α
  | 0, _ => hang
  | fuel + 1, b => (body b).bind fun
    | .inl b => loop body fuel b
    | .inr a => ret a

/-- A body run for every element of a list in turn, collecting the results. -/
def mapList (f : γ → Prog Op Resp E α) : List γ → Prog Op Resp E (List α)
  | [] => ret []
  | c :: cs => (f c).bind fun a => (mapList f cs).bind fun as => ret (a :: as)

/-- Every operation the program can issue satisfies `P`, every reason it can
be left with satisfies `X`, and every result satisfies `R`, whatever the
system answers. -/
def Sat (P : Op → Prop) (X : E → Prop) (R : α → Prop) : Prog Op Resp E α → Prop
  | ret a => R a
  | exit e => X e
  | hang => True
  | call o next => P o ∧ ∀ r, (next r).Sat P X R

section Sat

variable {P P' : Op → Prop} {X X' : E → Prop} {R R' : α → Prop} {S : β → Prop}

/-- A result. -/
theorem sat_ret {a : α} (h : R a) : (ret a : Prog Op Resp E α).Sat P X R := h

/-- An exit. -/
theorem sat_exit {e : E} (h : X e) : (exit e : Prog Op Resp E α).Sat P X R := h

/-- A single call. -/
theorem sat_perform {o : Op} {T : Resp o → Prop} (ho : P o) (hr : ∀ r, T r) :
    (perform o : Prog Op Resp E (Resp o)).Sat P X T :=
  ⟨ho, hr⟩

/-- What holds of the parts holds of their composition. -/
theorem Sat.bind {p : Prog Op Resp E α} {f : α → Prog Op Resp E β} (hp : p.Sat P X R)
    (hf : ∀ a, R a → (f a).Sat P X S) : (p.bind f).Sat P X S := by
  induction p with
  | ret a => exact hf a hp
  | exit e => exact hp
  | hang => trivial
  | call o next ih => exact ⟨hp.1, fun r => ih r (hp.2 r)⟩

/-- More may be allowed, and less promised. -/
theorem Sat.mono {p : Prog Op Resp E α} (hp : p.Sat P X R) (hP : ∀ o, P o → P' o)
    (hX : ∀ e, X e → X' e) (hR : ∀ a, R a → R' a) : p.Sat P' X' R' := by
  induction p with
  | ret a => exact hR a hp
  | exit e => exact hX e hp
  | hang => trivial
  | call o next ih => exact ⟨hP o hp.1, fun r => ih r (hp.2 r)⟩

/-- Two properties together. -/
theorem Sat.and {p : Prog Op Resp E α} (hp : p.Sat P X R) (hp' : p.Sat P' X' R') :
    p.Sat (fun o => P o ∧ P' o) (fun e => X e ∧ X' e) (fun a => R a ∧ R' a) := by
  induction p with
  | ret a => exact ⟨hp, hp'⟩
  | exit e => exact ⟨hp, hp'⟩
  | hang => trivial
  | call o next ih => exact ⟨⟨hp.1, hp'.1⟩, fun r => ih r (hp.2 r) (hp'.2 r)⟩

/-- A loop whose body keeps an invariant of the loop state. -/
theorem Sat.loop {I : β → Prop} {body : β → Prog Op Resp E (β ⊕ α)}
    (hbody : ∀ b, I b → (body b).Sat P X (Sum.elim I R)) (fuel : ℕ) {b : β} (hb : I b) :
    (Prog.loop body fuel b).Sat P X R := by
  induction fuel generalizing b with
  | zero => trivial
  | succ fuel ih =>
    refine (hbody b hb).bind fun step hstep => ?_
    cases step with
    | inl b => exact ih hstep
    | inr a => exact hstep

/-- A body that is fine for every element is fine for the list, and every
result is related to its element. -/
theorem Sat.mapList {f : γ → Prog Op Resp E α} {T : γ → α → Prop} {cs : List γ}
    (hf : ∀ c ∈ cs, (f c).Sat P X (T c)) : (Prog.mapList f cs).Sat P X (List.Forall₂ T cs) := by
  induction cs with
  | nil => exact List.Forall₂.nil
  | cons c cs ih =>
    have hc := hf c (List.mem_cons_self ..)
    have hcs := ih fun d hd => hf d (List.mem_cons_of_mem _ hd)
    exact hc.bind fun a ha => hcs.bind fun as has => List.Forall₂.cons ha has

/-- Every result of a list has an element it came from. -/
theorem forall₂_result {T : γ → α → Prop} {cs : List γ} {as : List α}
    (h : List.Forall₂ T cs as) {a : α} (ha : a ∈ as) : ∃ c ∈ cs, T c a := by
  induction h with
  | nil => exact absurd ha List.not_mem_nil
  | cons hT _ ih =>
    rcases List.mem_cons.mp ha with ha | ha
    · rw [ha]
      exact ⟨_, List.mem_cons_self .., hT⟩
    · obtain ⟨c, hc, hca⟩ := ih ha
      exact ⟨c, List.mem_cons_of_mem _ hc, hca⟩

/-- Every element of a list has a result. -/
theorem forall₂_element {T : γ → α → Prop} {cs : List γ} {as : List α}
    (h : List.Forall₂ T cs as) {c : γ} (hc : c ∈ cs) : ∃ a ∈ as, T c a :=
  forall₂_result (T := fun a c => T c a) h.flip hc

/-- The element at a place of a list has the result at that place. -/
theorem forall₂_at {T : γ → α → Prop} {cs : List γ} {as : List α} (h : List.Forall₂ T cs as)
    {k : ℕ} {c : γ} (hc : cs[k]? = some c) : ∃ a, as[k]? = some a ∧ T c a := by
  induction h generalizing k with
  | nil => exact absurd hc nofun
  | cons hT _ ih =>
    cases k with
    | zero => exact ⟨_, rfl, Option.some.inj hc ▸ hT⟩
    | succ k => exact ih hc

/-- Nothing is asked of a program. -/
theorem sat_any (p : Prog Op Resp E α) :
    p.Sat (fun _ => True) (fun _ => True) (fun _ => True) := by
  induction p with
  | ret a => trivial
  | exit e => trivial
  | hang => trivial
  | call o next ih => exact ⟨trivial, ih⟩

/-- The rule for a composition that is written in `do` notation. -/
theorem Sat.andThen {p : Prog Op Resp E α} {f : α → Prog Op Resp E β} (hp : p.Sat P X R)
    (hf : ∀ a, R a → (f a).Sat P X S) : (p >>= f).Sat P X S :=
  hp.bind hf

end Sat

/-- While the program can still be left for a reason outside `X`, it has only
issued operations that satisfy `P`. -/
def Guards (P : Op → Prop) (X : E → Prop) : Prog Op Resp E α → Prop
  | ret _ => True
  | exit _ => True
  | hang => True
  | call o next =>
    (P o ∧ ∀ r, (next r).Guards P X) ∨ ∀ r, (next r).Sat (fun _ => True) X (fun _ => True)

/-- Whatever is issued, the program returns only after an operation that
satisfies `P`. -/
def MustCall (P : Op → Prop) : Prog Op Resp E α → Prop
  | ret _ => False
  | exit _ => True
  | hang => True
  | call o next => P o ∨ ∀ r, (next r).MustCall P

/-- A program that returns has only issued operations that satisfy `P`. -/
def ReturnsWith (P : Op → Prop) : Prog Op Resp E α → Prop
  | ret _ => True
  | exit _ => True
  | hang => True
  | call o next =>
    (P o ∧ ∀ r, (next r).ReturnsWith P) ∨
      ∀ r, (next r).Sat (fun _ => True) (fun _ => True) (fun _ => False)

section Order

variable {P : Op → Prop} {X : E → Prop} {R : α → Prop}

/-- A program without reasons outside `X` has nothing to guard. -/
theorem Sat.guards_of_exits {p : Prog Op Resp E α}
    (hp : p.Sat (fun _ => True) X (fun _ => True)) : p.Guards P X := by
  cases p with
  | ret a => trivial
  | exit e => trivial
  | hang => trivial
  | call o next => exact .inr hp.2

/-- A first part with operations in `P` only may be left for any reason. -/
theorem Sat.andThen_guards {Y : E → Prop} {p : Prog Op Resp E α} {f : α → Prog Op Resp E β}
    (hp : p.Sat P Y R) (hf : ∀ a, R a → (f a).Guards P X) : (p >>= f).Guards P X := by
  induction p with
  | ret a => exact hf a hp
  | exit e => trivial
  | hang => trivial
  | call o next ih => exact .inl ⟨hp.1, fun r => ih r (hp.2 r)⟩

/-- A last part may do anything when it is left for reasons in `X` only. -/
theorem Guards.andThen_sat {p : Prog Op Resp E α} {f : α → Prog Op Resp E β} (hp : p.Guards P X)
    (hf : ∀ a, (f a).Sat (fun _ => True) X (fun _ => True)) : (p >>= f).Guards P X := by
  induction p with
  | ret a => exact (hf a).guards_of_exits
  | exit e => trivial
  | hang => trivial
  | call o next ih =>
    rcases hp with hp | hp
    · exact .inl ⟨hp.1, fun r => ih r (hp.2 r)⟩
    · exact .inr fun r => (hp r).bind fun a _ => hf a

/-- A call that comes first comes anyway. -/
theorem MustCall.andThen {p : Prog Op Resp E α} {f : α → Prog Op Resp E β} (hp : p.MustCall P) :
    (p >>= f).MustCall P := by
  induction p with
  | ret a => exact absurd hp id
  | exit e => trivial
  | hang => trivial
  | call o next ih =>
    rcases hp with hp | hp
    · exact .inl hp
    · exact .inr fun r => ih r (hp r)

/-- A call that comes later comes before the result. -/
theorem Sat.andThen_mustCall {Y : E → Prop} {Q : Op → Prop} {p : Prog Op Resp E α}
    {f : α → Prog Op Resp E β} (hp : p.Sat Q Y R) (hf : ∀ a, R a → (f a).MustCall P) :
    (p >>= f).MustCall P := by
  induction p with
  | ret a => exact hf a hp
  | exit e => trivial
  | hang => trivial
  | call o next ih => exact .inr fun r => ih r (hp.2 r)

/-- One element that must issue an operation is enough for the list. -/
theorem MustCall.mapList {f : γ → Prog Op Resp E α} {cs : List γ} {c : γ} (hc : c ∈ cs)
    (hf : (f c).MustCall P) : (Prog.mapList f cs).MustCall P := by
  induction cs with
  | nil => exact absurd hc List.not_mem_nil
  | cons d cs ih =>
    rcases List.mem_cons.mp hc with hd | hcs
    · rw [hd] at hf
      exact hf.andThen
    · exact (sat_any (f d)).andThen_mustCall fun a _ => (ih hcs).andThen

/-- A program all of whose calls are of this kind. -/
theorem Sat.returnsWith {Y : E → Prop} {p : Prog Op Resp E α} (hp : p.Sat P Y R) :
    p.ReturnsWith P := by
  induction p with
  | ret a => trivial
  | exit e => trivial
  | hang => trivial
  | call o next ih => exact .inl ⟨hp.1, fun r => ih r (hp.2 r)⟩

/-- A first part with operations in `P` only, whose results are known. -/
theorem Sat.andThen_returnsWith {Y : E → Prop} {p : Prog Op Resp E α} {f : α → Prog Op Resp E β}
    (hp : p.Sat P Y R) (hf : ∀ a, R a → (f a).ReturnsWith P) : (p >>= f).ReturnsWith P := by
  induction p with
  | ret a => exact hf a hp
  | exit e => trivial
  | hang => trivial
  | call o next ih => exact .inl ⟨hp.1, fun r => ih r (hp.2 r)⟩

/-- One program after the other. -/
theorem ReturnsWith.andThen {p : Prog Op Resp E α} {f : α → Prog Op Resp E β}
    (hp : p.ReturnsWith P) (hf : ∀ a, (f a).ReturnsWith P) : (p >>= f).ReturnsWith P := by
  induction p with
  | ret a => exact hf a
  | exit e => trivial
  | hang => trivial
  | call o next ih =>
    rcases hp with hp | hp
    · exact .inl ⟨hp.1, fun r => ih r (hp.2 r)⟩
    · exact .inr fun r => (hp r).bind fun a ha => ha.elim

/-- A list of programs. -/
theorem ReturnsWith.mapList {f : γ → Prog Op Resp E α} {cs : List γ}
    (hf : ∀ c ∈ cs, (f c).ReturnsWith P) : (Prog.mapList f cs).ReturnsWith P := by
  induction cs with
  | nil => trivial
  | cons c cs ih =>
    have hc := hf c (List.mem_cons_self ..)
    have hcs := ih fun d hd => hf d (List.mem_cons_of_mem _ hd)
    exact hc.andThen fun a => hcs.andThen fun as => trivial

end Order

end Prog

/-- How a run ends. -/
inductive Outcome (E α : Type) where
  /-- The program returned this result. -/
  | ret (a : α)
  /-- The program was left for this reason. -/
  | exit (e : E)
  /-- A loop used up its passes. -/
  | hang
  deriving DecidableEq, Repr

/-- A system answers every operation and changes its state. -/
abbrev Handler (Op : Type) (Resp : Op → Type) (σ : Type) := (o : Op) → σ → Resp o × σ

/-- A finished run: how it ended, the system afterwards, and the visible
operations in the order in which they were issued. -/
structure Run (Op E α σ : Type) where
  /-- How the program ended. -/
  outcome : Outcome E α
  /-- The state of the system at that point. -/
  state : σ
  /-- The visible operations, the first one in front. -/
  calls : List Op

namespace Run

/-- Continue a run that returned; any other run stays as it is. -/
def andThen (r : Run Op E α σ) (f : α → σ → Run Op E β σ) : Run Op E β σ :=
  match r.outcome with
  | .ret a => ⟨(f a r.state).outcome, (f a r.state).state, r.calls ++ (f a r.state).calls⟩
  | .exit e => ⟨.exit e, r.state, r.calls⟩
  | .hang => ⟨.hang, r.state, r.calls⟩

/-- Put operations in front of a run. -/
def prepend (os : List Op) (r : Run Op E α σ) : Run Op E α σ :=
  ⟨r.outcome, r.state, os ++ r.calls⟩

/-- After a result the next program runs. -/
@[simp] theorem andThen_ret (a : α) (s : σ) (os : List Op) (f : α → σ → Run Op E β σ) :
    (Run.mk (.ret a) s os).andThen f = (f a s).prepend os := rfl

/-- After an exit it does not. -/
@[simp] theorem andThen_exit (e : E) (s : σ) (os : List Op) (f : α → σ → Run Op E β σ) :
    (Run.mk (.exit e) s os).andThen f = ⟨.exit e, s, os⟩ := rfl

/-- Nor does it after an endless loop. -/
@[simp] theorem andThen_hang (s : σ) (os : List Op) (f : α → σ → Run Op E β σ) :
    (Run.mk .hang s os).andThen f = ⟨.hang, s, os⟩ := rfl

/-- No calls before. -/
@[simp] theorem prepend_nil (r : Run Op E α σ) : r.prepend [] = r := rfl

/-- Calls before others. -/
@[simp] theorem prepend_mk (os : List Op) (o : Outcome E α) (s : σ) (qs : List Op) :
    (Run.mk o s qs).prepend os = ⟨o, s, os ++ qs⟩ := rfl

/-- Prepending commutes with continuing. -/
theorem prepend_andThen (os : List Op) (r : Run Op E α σ) (f : α → σ → Run Op E β σ) :
    (r.prepend os).andThen f = (r.andThen f).prepend os := by
  rcases r with ⟨o, s, qs⟩
  cases o with
  | ret a => simp only [andThen_ret, prepend, List.append_assoc]
  | exit e => rfl
  | hang => rfl

end Run

section Exec

variable (h : Handler Op Resp σ) (vis : Op → Bool)

/-- Run a program on a system, recording the visible operations. -/
def exec : Prog Op Resp E α → σ → Run Op E α σ
  | .ret a, s => ⟨.ret a, s, []⟩
  | .exit e, s => ⟨.exit e, s, []⟩
  | .hang, s => ⟨.hang, s, []⟩
  | .call o next, s =>
    (exec (next (h o s).1) (h o s).2).prepend (if vis o then [o] else [])

/-- Running a result. -/
@[simp] theorem exec_ret (a : α) (s : σ) :
    exec h vis (.ret a : Prog Op Resp E α) s = ⟨.ret a, s, []⟩ := rfl

/-- Running a result. -/
@[simp] theorem exec_pure (a : α) (s : σ) :
    exec h vis (pure a : Prog Op Resp E α) s = ⟨.ret a, s, []⟩ := rfl

/-- Running an exit. -/
@[simp] theorem exec_exit (e : E) (s : σ) :
    exec h vis (.exit e : Prog Op Resp E α) s = ⟨.exit e, s, []⟩ := rfl

/-- Running a single call. -/
@[simp] theorem exec_perform (o : Op) (s : σ) :
    exec h vis (.perform o : Prog Op Resp E (Resp o)) s =
      ⟨.ret (h o s).1, (h o s).2, if vis o then [o] else []⟩ := by
  simp only [Prog.perform, exec, Run.prepend, List.append_nil]

/-- The run of a composition is the run of the first part, continued. -/
theorem exec_bind (p : Prog Op Resp E α) (f : α → Prog Op Resp E β) (s : σ) :
    exec h vis (p.bind f) s = (exec h vis p s).andThen (fun a s => exec h vis (f a) s) := by
  induction p generalizing s with
  | ret a => simp [Prog.bind]
  | exit e => rfl
  | hang => rfl
  | call o next ih => simp only [Prog.bind, exec, ih, Run.prepend_andThen]

/-- Running one program after the other. -/
@[simp] theorem exec_monadBind (p : Prog Op Resp E α) (f : α → Prog Op Resp E β) (s : σ) :
    exec h vis (p >>= f) s = (exec h vis p s).andThen (fun a s => exec h vis (f a) s) :=
  exec_bind h vis p f s

/-- One pass of a loop. -/
theorem exec_loop (body : β → Prog Op Resp E (β ⊕ α)) (fuel : ℕ) (b : β) (s : σ) :
    exec h vis (Prog.loop body (fuel + 1) b) s =
      (exec h vis (body b) s).andThen (fun
        | .inl b, s => exec h vis (Prog.loop body fuel b) s
        | .inr a, s => ⟨.ret a, s, []⟩) := by
  rw [Prog.loop, exec_bind]
  congr 1
  funext step s
  cases step <;> rfl

/-- A run only shows what the program allows for every system. -/
theorem Prog.Sat.exec {P : Op → Prop} {X : E → Prop} {R : α → Prop} {p : Prog Op Resp E α}
    (hp : p.Sat P X R) (s : σ) :
    (∀ o ∈ (exec h vis p s).calls, P o) ∧
      (∀ a, (exec h vis p s).outcome = .ret a → R a) ∧
      (∀ e, (exec h vis p s).outcome = .exit e → X e) := by
  induction p generalizing s with
  | ret a =>
    refine ⟨by simp [MetaDigi.SystemProgram.exec], ?_, ?_⟩ <;> intro b hb <;> cases hb
    exact hp
  | exit e =>
    refine ⟨by simp [MetaDigi.SystemProgram.exec], ?_, ?_⟩ <;> intro b hb <;> cases hb
    exact hp
  | hang => refine ⟨by simp [MetaDigi.SystemProgram.exec], ?_, ?_⟩ <;> intro b hb <;> cases hb
  | call o next ih =>
    obtain ⟨hcalls, hret, hexit⟩ := ih _ (hp.2 (h o s).1) (h o s).2
    refine ⟨?_, hret, hexit⟩
    intro q hq
    rcases List.mem_append.mp hq with hq | hq
    · split at hq
      · rw [List.mem_singleton.mp hq]
        exact hp.1
      · exact absurd hq List.not_mem_nil
    · exact hcalls q hq

/-- Every operation of a run. -/
def everyCall : Op → Bool := fun _ => true

/-- A run left for a reason outside `X` has only issued operations in `P`. -/
theorem Prog.Guards.exec {P : Op → Prop} {X : E → Prop} {p : Prog Op Resp E α}
    (hp : p.Guards P X) (s : σ) {e : E} (he : (exec h everyCall p s).outcome = .exit e)
    (hX : ¬ X e) : ∀ o ∈ (exec h everyCall p s).calls, P o := by
  induction p generalizing s with
  | ret a => exact fun o ho => absurd ho List.not_mem_nil
  | exit e => exact fun o ho => absurd ho List.not_mem_nil
  | hang => exact fun o ho => absurd ho List.not_mem_nil
  | call o next ih =>
    rcases hp with hp | hp
    · intro q hq
      rcases List.mem_append.mp hq with hq | hq
      · rw [List.mem_singleton.mp hq]
        exact hp.1
      · exact ih _ (hp.2 _) _ he q hq
    · exact absurd (((hp (h o s).1).exec h everyCall (h o s).2).2.2 e he) hX

/-- A run that returns has only issued operations in `P`. -/
theorem Prog.ReturnsWith.exec {P : Op → Prop} {p : Prog Op Resp E α} (hp : p.ReturnsWith P)
    (s : σ) {a : α} (ha : (exec h everyCall p s).outcome = .ret a) :
    ∀ o ∈ (exec h everyCall p s).calls, P o := by
  induction p generalizing s with
  | ret a => exact fun o ho => absurd ho List.not_mem_nil
  | exit e => cases ha
  | hang => cases ha
  | call o next ih =>
    rcases hp with hp | hp
    · intro q hq
      rcases List.mem_append.mp hq with hq | hq
      · rw [List.mem_singleton.mp hq]
        exact hp.1
      · exact ih _ (hp.2 _) _ ha q hq
    · exact absurd (((hp (h o s).1).exec h everyCall (h o s).2).2.1 a ha) id

/-- A run that returns has issued an operation in `P`. -/
theorem Prog.MustCall.exec {P : Op → Prop} {p : Prog Op Resp E α} (hp : p.MustCall P) (s : σ)
    {a : α} (ha : (exec h everyCall p s).outcome = .ret a) :
    ∃ o ∈ (exec h everyCall p s).calls, P o := by
  induction p generalizing s with
  | ret a => exact absurd hp id
  | exit e => cases ha
  | hang => cases ha
  | call o next ih =>
    rcases hp with hp | hp
    · exact ⟨o, List.mem_append_left _ (List.mem_singleton_self o), hp⟩
    · obtain ⟨q, hq, hPq⟩ := ih _ (hp _) _ ha
      exact ⟨q, List.mem_append_right _ hq, hPq⟩

end Exec

end MetaDigi.SystemProgram
