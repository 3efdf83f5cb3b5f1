import MetaDigi.SystemThreads

/-!
# Calls that do not see each other

Calls of several owners are in progress side by side in one system. When the
operations of an owner find and change only the part of the system that is the
owner's, then whatever happens to its calls would also happen without the
calls of all others.
-/

namespace MetaDigi.SystemIsolation

open SystemProgram SystemThreads Prog

variable {Op : Type} {Resp : Op → Type} {E α σ Tag κ : Type}

/-- What happens to calls in progress. -/
inductive Happening (Op : Type) (Resp : Op → Type) (E α σ Tag : Type) where
  /-- A call begins. -/
  | start (c : ℕ) (tag : Tag) (p : Prog Op Resp E α)
  /-- A call goes on, in the system as it is at that moment. -/
  | turn (c : ℕ) (h : Handler Op Resp σ)

/-- The call it happens to. -/
def Happening.caller : Happening Op Resp E α σ Tag → ℕ
  | .start c _ _ => c
  | .turn c _ => c

/-- It happens. -/
def happen (pool : Pool Op Resp E α σ Tag) : Happening Op Resp E α σ Tag →
    Pool Op Resp E α σ Tag
  | .start c tag p => pool.start c tag p
  | .turn c h => pool.turn h c

/-- It can happen: the call is new, or it need not wait. -/
def Possible (ready : Handler Op Resp σ → Op → σ → Prop) (pool : Pool Op Resp E α σ Tag) :
    Happening Op Resp E α σ Tag → Prop
  | .start c _ _ => pool.calls c = none
  | .turn c h => ∀ o, pool.nextOp c = some o → ready h o pool.state

/-- A run: everything happens when it can. -/
def Happens (ready : Handler Op Resp σ → Op → σ → Prop) :
    Pool Op Resp E α σ Tag → List (Happening Op Resp E α σ Tag) → Prop
  | _, [] => True
  | pool, e :: es => Possible ready pool e ∧ Happens ready (happen pool e) es

/-- In this system an owner's operations find what is the owner's, and change
nothing that is somebody else's. -/
structure Isolates (Own : κ → Op → Prop) (Same : κ → σ → σ → Prop) (h : Handler Op Resp σ) :
    Prop where
  /-- What an owner finds and leaves depends on its own part. -/
  own : ∀ k o s t, Own k o → Same k s t → (h o s).1 = (h o t).1 ∧ Same k (h o s).2 (h o t).2
  /-- The parts of others stay the same. -/
  foreign : ∀ k k' o s t, Own k' o → k' ≠ k → Same k s t → Same k (h o s).2 t

section Alike

variable (Own : κ → Op → Prop) (Same : κ → σ → σ → Prop) (owner : ℕ → κ)

/-- A call issues operations of its owner, in a system that isolates. -/
def Proper : Happening Op Resp E α σ Tag → Prop
  | .start c _ p => p.Sat (Own (owner c)) (fun _ => True) (fun _ => True)
  | .turn _ h => Isolates Own Same h

/-- Every call issues operations of its owner only. -/
def Owned (pool : Pool Op Resp E α σ Tag) : Prop :=
  ∀ c tag p, pool.calls c = some (tag, p) → p.Sat (Own (owner c)) (fun _ => True) (fun _ => True)

/-- For an owner the two are the same: its calls have come equally far, and its
part of the system is the same. -/
structure Alike (k : κ) (pool pool' : Pool Op Resp E α σ Tag) : Prop where
  /-- The part of the system. -/
  state : Same k pool.state pool'.state
  /-- The calls. -/
  calls : ∀ c, owner c = k → pool.calls c = pool'.calls c

variable {Own Same owner} {pool pool' : Pool Op Resp E α σ Tag} {k : κ}
  {e : Happening Op Resp E α σ Tag}

theorem Owned.happen (h : Owned Own owner pool) (he : Proper Own Same owner e) :
    Owned Own owner (SystemIsolation.happen pool e) := by
  intro c tag p hc
  by_cases hcaller : c = e.caller
  · subst hcaller
    cases e with
    | start c₀ tag₀ p₀ =>
      have hself : (pool.start c₀ tag₀ p₀).calls c₀ = some (tag₀, p₀) := Function.update_self ..
      obtain ⟨-, hp⟩ := Prod.mk.inj (Option.some.inj (hself.symm.trans hc))
      exact hp ▸ he
    | turn c₀ handler =>
      rcases Pool.turn_cases handler pool c₀ with ⟨tag₀, o, next, hcall⟩ | ⟨hsame, -⟩
      · have hself : (pool.turn handler c₀).calls c₀ =
            some (tag₀, next (handler o pool.state).1) := by
          rw [Pool.turn_call hcall]
          exact Function.update_self ..
        obtain ⟨-, hp⟩ := Prod.mk.inj (Option.some.inj (hself.symm.trans hc))
        exact hp ▸ (h c₀ tag₀ _ hcall).2 _
      · change (pool.turn handler c₀).calls c₀ = _ at hc
        rw [hsame] at hc
        exact h c₀ tag p hc
  · refine h c tag p ?_
    cases e with
    | start c₀ tag₀ p₀ => exact (Pool.start_other hcaller).symm.trans hc
    | turn c₀ handler => exact (Pool.turn_other hcaller).symm.trans hc

/-- What happens to a call of the owner happens on both sides. -/
theorem Alike.own (h : Alike Same owner k pool pool') (hpool : Owned Own owner pool)
    (he : Proper Own Same owner e) (hk : owner e.caller = k) :
    Alike Same owner k (happen pool e) (happen pool' e) := by
  cases e with
  | start c tag p =>
    refine ⟨h.state, fun c' hc' => ?_⟩
    by_cases hc : c' = c
    · unfold happen
      dsimp only [Pool.start]
      rw [hc, Function.update_self, Function.update_self]
    · exact (Pool.start_other hc).trans ((h.calls c' hc').trans (Pool.start_other hc).symm)
  | turn c handler =>
    have hcalls : pool.calls c = pool'.calls c := h.calls c hk
    unfold happen
    dsimp only
    rcases Pool.turn_cases handler pool c with ⟨tag, o, next, hcall⟩ | ⟨hsame, hnone⟩
    · have hown := (hpool c tag _ hcall).1
      rw [show owner c = k from hk] at hown
      obtain ⟨hanswer, hstate⟩ := he.own k o pool.state pool'.state hown h.state
      rw [Pool.turn_call hcall, Pool.turn_call (hcalls ▸ hcall)]
      refine ⟨hstate, fun c' hc' => ?_⟩
      dsimp only
      rw [hanswer]
      by_cases hc : c' = c
      · rw [hc, Function.update_self, Function.update_self]
      · rw [Function.update_of_ne hc, Function.update_of_ne hc]
        exact h.calls c' hc'
    · rcases Pool.turn_cases handler pool' c with ⟨tag, o, next, hcall⟩ | ⟨hsame', -⟩
      · rw [Pool.nextOp_call (hcalls.trans hcall)] at hnone
        cases hnone
      · rw [hsame, hsame']
        exact h

/-- What happens to a call of somebody else does not matter. -/
theorem Alike.foreign (h : Alike Same owner k pool pool') (hpool : Owned Own owner pool)
    (he : Proper Own Same owner e) (hk : owner e.caller ≠ k) :
    Alike Same owner k (happen pool e) pool' := by
  have hother : ∀ c', owner c' = k → c' ≠ e.caller := fun c' hc' hsame => hk (hsame ▸ hc')
  cases e with
  | start c tag p =>
    exact ⟨h.state, fun c' hc' => (Pool.start_other (hother c' hc')).trans (h.calls c' hc')⟩
  | turn c handler =>
    refine ⟨?_, fun c' hc' => (Pool.turn_other (hother c' hc')).trans (h.calls c' hc')⟩
    unfold happen
    dsimp only
    rcases Pool.turn_cases handler pool c with ⟨tag, o, next, hcall⟩ | ⟨hsame, -⟩
    · rw [Pool.turn_call hcall]
      exact he.foreign k (owner c) o _ _ (hpool c tag _ hcall).1 hk h.state
    · rw [hsame]
      exact h.state

variable {ready : Handler Op Resp σ → Op → σ → Prop}

theorem Alike.possible (h : Alike Same owner k pool pool') (hpool : Owned Own owner pool)
    (hready : ∀ handler o s t, Isolates Own Same handler → Own k o → Same k s t →
      ready handler o s → ready handler o t) (hproper : Proper Own Same owner e)
    (hk : owner e.caller = k) (he : Possible ready pool e) : Possible ready pool' e := by
  cases e with
  | start c tag p => exact (h.calls c hk).symm.trans he
  | turn c handler =>
    intro o ho
    have hcalls : pool.calls c = pool'.calls c := h.calls c hk
    have hnext : pool.nextOp c = some o := by
      unfold Pool.nextOp at ho ⊢
      rw [hcalls]
      exact ho
    rcases Pool.turn_cases handler pool c with ⟨tag, o', next, hcall⟩ | ⟨-, hnone⟩
    · rw [Pool.nextOp_call hcall] at hnext
      have hown := (hpool c tag _ hcall).1
      rw [show owner c = k from hk, Option.some.inj hnext] at hown
      refine hready handler o _ _ hproper hown h.state (he o ?_)
      rw [Pool.nextOp_call hcall]
      exact hnext
    · rw [hnone] at hnext
      cases hnext

variable [DecidableEq κ]

/-- Any number of happenings, in any order: to an owner the run is the one in
which there is nobody else, and that is a run, too. -/
theorem isolated {es : List (Happening Op Resp E α σ Tag)} (h : Alike Same owner k pool pool')
    (hpool : Owned Own owner pool) (hes : ∀ e ∈ es, Proper Own Same owner e)
    (hready : ∀ handler o s t, Isolates Own Same handler → Own k o → Same k s t →
      ready handler o s → ready handler o t)
    (hrun : Happens ready pool es) :
    Happens ready pool' (es.filter fun e => owner e.caller = k) ∧
      Alike Same owner k (es.foldl happen pool)
        ((es.filter fun e => owner e.caller = k).foldl happen pool') := by
  induction es generalizing pool pool' with
  | nil => exact ⟨trivial, h⟩
  | cons e es ih =>
    have he := hes e (List.mem_cons_self ..)
    have hrest := fun e' he' => hes e' (List.mem_cons_of_mem e he')
    by_cases hk : owner e.caller = k
    · rw [List.filter_cons, if_pos (decide_eq_true hk)]
      obtain ⟨hlater, halike⟩ := ih (h.own hpool he hk) (hpool.happen he) hrest hrun.2
      exact ⟨⟨h.possible hpool hready he hk hrun.1, hlater⟩, halike⟩
    · rw [List.filter_cons, if_neg fun hkeep => hk (of_decide_eq_true hkeep)]
      exact ih (h.foreign hpool he hk) (hpool.happen he) hrest hrun.2

end Alike

end MetaDigi.SystemIsolation
