import MetaDigi.SystemHistories

/-!
# Traces of a system that is driven by events

A system takes one event after the other, and leaves notes in a trace. Two
properties of the past are given: that every note was allowed by those before
it, and that something has been noted that was not revoked since. A program may
have to wait for the system: it is then run up to the operation that waits, and
goes on from there with a later event. The last part tells when a property of
whole runs holds exactly in the runs of which every event is proper.
-/

namespace MetaDigi.SystemTraces

open SystemProgram SystemRuns SystemHistories

section Past

variable {ν : Type} {A : List ν → ν → Prop} {p q : ν → Prop} {trace : List ν} {n : ν}

/-- Every note is allowed by those before it. -/
def Always (A : List ν → ν → Prop) (trace : List ν) : Prop :=
  ∀ before n after, trace = before ++ n :: after → A before n

/-- Such a note has been made, and it has not been revoked since. -/
def Since (p q : ν → Prop) (trace : List ν) : Prop :=
  ∃ before n after, trace = before ++ n :: after ∧ p n ∧ ∀ m ∈ after, ¬q m

theorem always_nil : Always A [] := by
  intro before n after hnil
  cases before <;> cases hnil

theorem not_since_nil : ¬Since p q [] := by
  rintro ⟨before, n, after, hnil, -⟩
  cases before <;> cases hnil

/-- Where a trace that ends with a note can be divided: at this note, or before. -/
theorem split_snoc {before after : List ν} {m : ν} :
    trace ++ [n] = before ++ m :: after ↔
      (trace = before ∧ n = m ∧ after = []) ∨
        ∃ after', after = after' ++ [n] ∧ trace = before ++ m :: after' := by
  constructor
  · intro hsplit
    rcases List.eq_nil_or_concat after with hnil | ⟨front, last, hlast⟩
    · rw [hnil] at hsplit
      obtain ⟨htrace, hn⟩ := List.append_inj' hsplit rfl
      exact .inl ⟨htrace, (List.cons.inj hn).1, hnil⟩
    · rw [hlast, List.concat_eq_append, ← List.cons_append, ← List.append_assoc] at hsplit
      obtain ⟨htrace, hn⟩ := List.append_inj' hsplit rfl
      rw [List.concat_eq_append] at hlast
      exact .inr ⟨front, (List.cons.inj hn).1 ▸ hlast, htrace⟩
  · rintro (⟨htrace, hn, hnil⟩ | ⟨after', hafter, htrace⟩)
    · rw [htrace, hn, hnil]
    · rw [hafter, htrace, List.append_assoc, List.cons_append]

/-- One more note. -/
theorem always_snoc : Always A (trace ++ [n]) ↔ Always A trace ∧ A trace n := by
  constructor
  · intro h
    refine ⟨fun before m after htrace => ?_, h trace n [] rfl⟩
    exact h before m (after ++ [n]) (split_snoc.mpr (.inr ⟨after, rfl, htrace⟩))
  · rintro ⟨h, hn⟩ before m after hsplit
    rcases split_snoc.mp hsplit with ⟨htrace, hm, -⟩ | ⟨after', -, htrace⟩
    · rw [← htrace, ← hm]
      exact hn
    · exact h before m after' htrace

/-- The notes at the beginning are allowed as well. -/
theorem Always.front {more : List ν} (h : Always A (trace ++ more)) : Always A trace := by
  intro before n after htrace
  refine h before n (after ++ more) ?_
  rw [htrace, List.append_assoc, List.cons_append]

theorem since_snoc : Since p q (trace ++ [n]) ↔ p n ∨ Since p q trace ∧ ¬q n := by
  constructor
  · rintro ⟨before, m, after, hsplit, hm, hafter⟩
    rcases split_snoc.mp hsplit with ⟨-, hn, -⟩ | ⟨after', hend, htrace⟩
    · rw [hn]
      exact .inl hm
    · rw [hend] at hafter
      refine .inr ⟨⟨before, m, after', htrace, hm, fun x hx => ?_⟩, ?_⟩
      · exact hafter x (List.mem_append_left _ hx)
      · exact hafter n (List.mem_append_right _ (List.mem_singleton_self n))
  · rintro (hn | ⟨⟨before, m, after, htrace, hm, hafter⟩, hn⟩)
    · exact ⟨trace, n, [], rfl, hn, fun x hx => absurd hx List.not_mem_nil⟩
    · refine ⟨before, m, after ++ [n], split_snoc.mpr (.inr ⟨after, rfl, htrace⟩), hm, ?_⟩
      intro x hx
      rcases List.mem_append.mp hx with hold | hnew
      · exact hafter x hold
      · rw [List.mem_singleton.mp hnew]
        exact hn

end Past

section Waiting

variable {Op : Type} {Resp : Op → Type} {E α β σ : Type} {h : Handler Op Resp σ}
  {waits : Op → σ → Bool} {P : Op → Prop} {X : E → Prop} {R : α → Prop} {p : Prog Op Resp E α}
  {s : σ}

/-- A program that has been run until it has ended or has to wait. -/
structure Stage (Op : Type) (Resp : Op → Type) (E α σ : Type) where
  /-- What is left of the program. -/
  rest : Prog Op Resp E α
  /-- The system at this point. -/
  state : σ
  /-- The calls so far, with their answers. -/
  events : List (Event Op Resp)

/-- Run a program up to the first operation that has to wait. -/
def advance (h : Handler Op Resp σ) (waits : Op → σ → Bool) :
    Prog Op Resp E α → σ → Stage Op Resp E α σ
  | .ret a, s => ⟨.ret a, s, []⟩
  | .exit e, s => ⟨.exit e, s, []⟩
  | .hang, s => ⟨.hang, s, []⟩
  | .call o next, s =>
    if waits o s then ⟨.call o next, s, []⟩
    else
      { advance h waits (next (h o s).1) (h o s).2 with
        events := ⟨o, (h o s).1⟩ :: (advance h waits (next (h o s).1) (h o s).2).events }

/-- An operation that has not to wait is carried out. -/
theorem advance_call {o : Op} (ho : waits o s = false) (next : Resp o → Prog Op Resp E α) :
    advance h waits (.call o next) s =
      { advance h waits (next (h o s).1) (h o s).2 with
        events := ⟨o, (h o s).1⟩ :: (advance h waits (next (h o s).1) (h o s).2).events } := by
  rw [advance, ho]
  rfl

theorem advance_wait {o : Op} (ho : waits o s = true) (next : Resp o → Prog Op Resp E α) :
    advance h waits (.call o next) s = ⟨.call o next, s, []⟩ := by
  rw [advance, if_pos ho]

/-- The operations that the program may issue are carried out, or are left. -/
theorem advance_sat (hp : p.Sat P X R) (s : σ) :
    (∀ e ∈ (advance h waits p s).events, P e.1) ∧ (advance h waits p s).rest.Sat P X R := by
  induction p generalizing s with
  | ret a => exact ⟨fun e he => absurd he List.not_mem_nil, hp⟩
  | exit e => exact ⟨fun e he => absurd he List.not_mem_nil, hp⟩
  | hang => exact ⟨fun e he => absurd he List.not_mem_nil, hp⟩
  | call o next ih =>
    cases ho : waits o s with
    | true =>
      rw [advance_wait ho]
      exact ⟨fun e he => absurd he List.not_mem_nil, hp⟩
    | false =>
      rw [advance_call ho]
      obtain ⟨hevents, hrest⟩ := ih (h o s).1 (hp.2 _) (h o s).2
      exact ⟨List.forall_mem_cons.mpr ⟨hp.1, hevents⟩, hrest⟩

/-- What the operations keep is kept up to there. -/
theorem advance_keeps {I : σ → Prop} (hp : p.Sat P X R)
    (hstep : ∀ o s, P o → I s → I (h o s).2) (hs : I s) : I (advance h waits p s).state := by
  induction p generalizing s with
  | ret a => exact hs
  | exit e => exact hs
  | hang => exact hs
  | call o next ih =>
    cases ho : waits o s with
    | true =>
      rw [advance_wait ho]
      exact hs
    | false =>
      rw [advance_call ho]
      exact ih (h o s).1 (hp.2 _) (hstep o s hp.1 hs)

/-- A program that returns without waiting has been run as a whole. -/
theorem advance_returns {a : α} (hret : (advance h waits p s).rest = .ret a) :
    Ends h p s (.ret a) (advance h waits p s).state ∧
      (advance h waits p s).events = history h p s := by
  induction p generalizing s with
  | ret b =>
    have hb : b = a := Prog.ret.inj hret
    rw [hb]
    exact ⟨ends_ret a s, rfl⟩
  | exit e => cases hret
  | hang => cases hret
  | call o next ih =>
    cases ho : waits o s with
    | true =>
      rw [advance_wait ho] at hret
      cases hret
    | false =>
      rw [advance_call ho] at hret ⊢
      obtain ⟨hends, hevents⟩ := ih (h o s).1 hret
      refine ⟨hends, ?_⟩
      rw [history, ← hevents]

/-- A program that never has to wait has nothing left to do. -/
theorem advance_ended (hp : p.Sat P X R) (hP : ∀ o s, P o → waits o s = false) (s : σ) {o : Op}
    {next : Resp o → Prog Op Resp E α} : (advance h waits p s).rest ≠ .call o next := by
  induction p generalizing s with
  | ret a => exact nofun
  | exit e => exact nofun
  | hang => exact nofun
  | call o' next' ih =>
    rw [advance_call (hP o' s hp.1)]
    exact ih (h o' s).1 (hp.2 _) (h o' s).2

/-- A first part that never has to wait is carried out. -/
theorem advance_andThen {f : α → Prog Op Resp E β} {a : α} {s₁ : σ} (hp : p.Sat P X R)
    (hP : ∀ o s, P o → waits o s = false) (hends : Ends h p s (.ret a) s₁) :
    (advance h waits (p >>= f) s).rest = (advance h waits (f a) s₁).rest := by
  induction p generalizing s with
  | ret b =>
    obtain ⟨ha, hs⟩ := hends.ret_inv
    rw [ha, hs]
    rfl
  | exit e => exact hends.exit_inv.elim
  | hang => cases hends.1
  | call o next ih =>
    have hgo : advance h waits (.call o next >>= f) s =
        { advance h waits (next (h o s).1 >>= f) (h o s).2 with
          events := ⟨o, (h o s).1⟩ ::
            (advance h waits (next (h o s).1 >>= f) (h o s).2).events } :=
      advance_call (hP o s hp.1) fun r => next r >>= f
    rw [hgo]
    exact ih (h o s).1 (hp.2 _) hends

end Waiting

section Driving

variable {σ ε : Type} {next : σ → ε → σ} {Possible Proper : σ → ε → Prop} {I G : σ → Prop}

/-- Every event has this property in the state in which it comes. -/
def Along (next : σ → ε → σ) (P : σ → ε → Prop) : σ → List ε → Prop
  | _, [] => True
  | s, e :: es => P s e ∧ Along next P (next s e) es

/-- What is lost with an event is lost for ever. -/
theorem foldl_lost (hstay : ∀ s e, ¬G s → ¬G (next s e)) (es : List ε) {s : σ} (hs : ¬G s) :
    ¬G (es.foldl next s) := by
  induction es generalizing s with
  | nil => exact hs
  | cons e es ih => exact ih (hstay s e hs)

/-- A run is good exactly when every event of it is proper: proper events keep an
invariant of which the good is a part, and any other event spoils it for ever. -/
theorem run_iff (hgood : ∀ s, I s → G s)
    (hkeep : ∀ s e, I s → Possible s e → Proper s e → I (next s e))
    (hspoil : ∀ s e, I s → Possible s e → ¬Proper s e → ¬G (next s e))
    (hstay : ∀ s e, ¬G s → ¬G (next s e)) {es : List ε} {s : σ} (hs : I s)
    (hes : Along next Possible s es) : G (es.foldl next s) ↔ Along next Proper s es := by
  induction es generalizing s with
  | nil => exact ⟨fun _ => trivial, fun _ => hgood s hs⟩
  | cons e es ih =>
    by_cases hproper : Proper s e
    · rw [List.foldl_cons, ih (hkeep s e hs hes.1 hproper) hes.2]
      exact ⟨fun hrest => ⟨hproper, hrest⟩, And.right⟩
    · refine ⟨fun hend => absurd hend ?_, fun hall => absurd hall.1 hproper⟩
      exact foldl_lost hstay es (hspoil s e hs hes.1 hproper)

end Driving

end MetaDigi.SystemTraces
