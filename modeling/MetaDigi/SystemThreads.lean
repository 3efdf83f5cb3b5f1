import MetaDigi.SystemProgram
import Mathlib.Logic.Function.Basic
import Mathlib.Logic.Relation

/-!
# Programs side by side

Any number of calls are in progress in one system; each is a program of which
some operations are still to come, with a tag that says what it was called for.
A turn carries out the next operation of one call, and the turns come in any
order. A call that has ended is kept.
-/

namespace MetaDigi.SystemThreads

open SystemProgram

/-- A system with the calls that are in progress or have ended. -/
structure Pool (Op : Type) (Resp : Op → Type) (E α σ Tag : Type) where
  /-- The system. -/
  state : σ
  /-- The calls. -/
  calls : ℕ → Option (Tag × Prog Op Resp E α)

namespace Pool

variable {Op : Type} {Resp : Op → Type} {E α σ Tag : Type}

/-- A call begins. -/
def start (pool : Pool Op Resp E α σ Tag) (c : ℕ) (tag : Tag) (p : Prog Op Resp E α) :
    Pool Op Resp E α σ Tag :=
  { pool with calls := Function.update pool.calls c (some (tag, p)) }

/-- The next operation of a call is carried out. -/
def turn (h : Handler Op Resp σ) (pool : Pool Op Resp E α σ Tag) (c : ℕ) :
    Pool Op Resp E α σ Tag :=
  match pool.calls c with
  | some (tag, .call o next) =>
    { state := (h o pool.state).2
      calls := Function.update pool.calls c (some (tag, next (h o pool.state).1)) }
  | _ => pool

/-- The operation that a call comes to next. -/
def nextOp (pool : Pool Op Resp E α σ Tag) (c : ℕ) : Option Op :=
  match pool.calls c with
  | some (_, .call o _) => some o
  | _ => none

/-- Every call has this property, with its tag. -/
def All (I : Tag → Prog Op Resp E α → Prop) (pool : Pool Op Resp E α σ Tag) : Prop :=
  ∀ c tag p, pool.calls c = some (tag, p) → I tag p

variable {h : Handler Op Resp σ} {pool : Pool Op Resp E α σ Tag} {c : ℕ}
  {I : Tag → Prog Op Resp E α → Prop}

theorem turn_call {tag : Tag} {o : Op} {next : Resp o → Prog Op Resp E α}
    (hc : pool.calls c = some (tag, .call o next)) :
    pool.turn h c = { state := (h o pool.state).2
                      calls := Function.update pool.calls c
                        (some (tag, next (h o pool.state).1)) } := by
  rw [turn, hc]

theorem nextOp_call {tag : Tag} {o : Op} {next : Resp o → Prog Op Resp E α}
    (hc : pool.calls c = some (tag, .call o next)) : pool.nextOp c = some o := by
  rw [nextOp, hc]

/-- A turn carries out an operation, or there is none to carry out. -/
theorem turn_cases (h : Handler Op Resp σ) (pool : Pool Op Resp E α σ Tag) (c : ℕ) :
    (∃ tag o next, pool.calls c = some (tag, .call o next)) ∨
      pool.turn h c = pool ∧ pool.nextOp c = none := by
  unfold turn nextOp
  split
  · rename_i tag o next hc
    exact .inl ⟨tag, o, next, hc⟩
  · exact .inr ⟨rfl, rfl⟩

/-- Other calls do not go on meanwhile. -/
theorem turn_other {c' : ℕ} (hne : c' ≠ c) : (pool.turn h c).calls c' = pool.calls c' := by
  unfold turn
  split
  · exact Function.update_of_ne hne ..
  · rfl

theorem start_other {c' : ℕ} {tag : Tag} {p : Prog Op Resp E α} (hne : c' ≠ c) :
    (pool.start c tag p).calls c' = pool.calls c' :=
  Function.update_of_ne hne ..

theorem All.start {tag : Tag} {p : Prog Op Resp E α} (hpool : pool.All I) (hp : I tag p) :
    (pool.start c tag p).All I := by
  intro c' tag' p' hc'
  by_cases hc : c' = c
  · have hself : (pool.start c tag p).calls c' = some (tag, p) := hc ▸ Function.update_self ..
    obtain ⟨htag, hprog⟩ := Prod.mk.inj (Option.some.inj (hself.symm.trans hc'))
    rw [← htag, ← hprog]
    exact hp
  · rw [start_other hc] at hc'
    exact hpool c' tag' p' hc'

/-- What holds of a program whatever its next operation is answered with holds
of all calls along every run. -/
theorem All.turn (hpool : pool.All I)
    (hI : ∀ tag o next r, I tag (.call o next) → I tag (next r)) : (pool.turn h c).All I := by
  intro c' tag' p' hc'
  by_cases hc : c' = c
  · rcases turn_cases h pool c with ⟨tag, o, next, hcall⟩ | ⟨hsame, -⟩
    · have hself : (pool.turn h c).calls c' = some (tag, next (h o pool.state).1) := by
        rw [turn_call hcall, hc]
        exact Function.update_self ..
      obtain ⟨htag, hp⟩ := Prod.mk.inj (Option.some.inj (hself.symm.trans hc'))
      rw [← htag, ← hp]
      exact hI tag o next _ (hpool c tag _ hcall)
    · rw [hsame] at hc'
      exact hpool c' tag' p' hc'
  · rw [turn_other hc] at hc'
    exact hpool c' tag' p' hc'

end Pool

end MetaDigi.SystemThreads
