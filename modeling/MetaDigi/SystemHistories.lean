import MetaDigi.SystemRuns

/-!
# Calls together with their answers

A history lists the calls of a run in order, each with the answer of the
system. `After` states what holds of the history and of the outcome of a
program, whatever the system answers, after what has happened before. Its
rules follow the shape of a program; the rule for a loop asks for a measure
that every pass lowers, and then also tells that the loop comes to its end.
-/

namespace MetaDigi.SystemHistories

open SystemProgram SystemRuns

/-- A call and the answer to it. -/
abbrev Event (Op : Type) (Resp : Op → Type) := (o : Op) × Resp o

variable {Op : Type} {Resp : Op → Type} {E α β σ : Type}

/-- The calls of a run with their answers. -/
def history (h : Handler Op Resp σ) : Prog Op Resp E α → σ → List (Event Op Resp)
  | .ret _, _ => []
  | .exit _, _ => []
  | .hang, _ => []
  | .call o next, s => ⟨o, (h o s).1⟩ :: history h (next (h o s).1) (h o s).2

/-- The calls of a history are those of the run. -/
theorem history_calls (h : Handler Op Resp σ) (p : Prog Op Resp E α) (s : σ) :
    (history h p s).map Sigma.fst = (exec h everyCall p s).calls := by
  induction p generalizing s with
  | ret a => rfl
  | exit e => rfl
  | hang => rfl
  | call o next ih =>
    rw [history, List.map_cons, ih]
    rfl

/-- A call with a known answer comes first. -/
theorem history_call {h : Handler Op Resp σ} {o : Op} {s : σ} {r : Resp o} (hr : (h o s).1 = r)
    (f : Resp o → Prog Op Resp E α) :
    history h (.perform o >>= f) s = ⟨o, r⟩ :: history h (f r) (h o s).2 := by
  rw [← hr]
  rfl

/-- A call whose answer is known. -/
theorem outcome_call {h : Handler Op Resp σ} {o : Op} {s : σ} {r : Resp o} (hr : (h o s).1 = r)
    (f : Resp o → Prog Op Resp E α) :
    (exec h everyCall (.perform o >>= f) s).outcome =
      (exec h everyCall (f r) (h o s).2).outcome := by
  rw [← hr]
  rfl

section Observing

variable {τ : Type} {h : Handler Op Resp σ} {p : Prog Op Resp E α} {f : α → Prog Op Resp E β}

/-- The history of a composition whose first part returns. -/
theorem history_andThen {a : α} {s s₁ : σ} (hp : Ends h p s (.ret a) s₁) :
    history h (p >>= f) s = history h p s ++ history h (f a) s₁ := by
  induction p generalizing s with
  | ret b =>
    obtain ⟨ha, hs⟩ := hp.ret_inv
    rw [ha, hs]
    rfl
  | exit e => exact hp.exit_inv.elim
  | hang => cases hp.1
  | call o next ih => exact congrArg (List.cons _) (ih _ hp)

/-- A history consists of calls that the program may issue. -/
theorem history_sat {P : Op → Prop} {X : E → Prop} {T : α → Prop} (hp : p.Sat P X T) (s : σ) :
    ∀ e ∈ history h p s, P e.1 := by
  intro e he
  refine (hp.exec h everyCall s).1 e.1 ?_
  rw [← history_calls]
  exact List.mem_map_of_mem he

/-- What an observer of the calls keeps together with the system. -/
theorem history_keeps {J : σ → τ → Prop} {note : τ → Event Op Resp → τ}
    (hstep : ∀ o s t, J s t → J (h o s).2 (note t ⟨o, (h o s).1⟩)) (p : Prog Op Resp E α) {s : σ}
    {t : τ} (hs : J s t) : J (exec h everyCall p s).state ((history h p s).foldl note t) := by
  induction p generalizing s t with
  | ret a => exact hs
  | exit e => exact hs
  | hang => exact hs
  | call o next ih => exact ih _ (hstep o s t hs)

/-- An observer to whom the calls mean nothing. -/
theorem foldl_unmoved {note : τ → Event Op Resp → τ} {es : List (Event Op Resp)} {t : τ}
    (hes : ∀ e ∈ es, note t e = t) : es.foldl note t = t := by
  induction es with
  | nil => rfl
  | cons e es ih =>
    rw [List.foldl_cons, hes e (List.mem_cons_self ..)]
    exact ih fun q hq => hes q (List.mem_cons_of_mem _ hq)

/-- A run ends in this way, and an observer has made this of its calls then. -/
def Tells (h : Handler Op Resp σ) (note : τ → Event Op Resp → τ) (p : Prog Op Resp E α) (s : σ)
    (t : τ) (out : Outcome E α) (s' : σ) (t' : τ) : Prop :=
  Ends h p s out s' ∧ (history h p s).foldl note t = t'

/-- A call means nothing to the observer. -/
def Unmoved (note : τ → Event Op Resp → τ) (o : Op) : Prop :=
  ∀ (r : Resp o) (t : τ), note t ⟨o, r⟩ = t

section Tells

variable {note : τ → Event Op Resp → τ} {s s₁ s₂ : σ} {t t₁ t₂ : τ}

/-- A result. -/
theorem tells_pure (a : α) :
    Tells h note (pure a : Prog Op Resp E α) s t (.ret a) s t :=
  ⟨ends_pure a s, rfl⟩

/-- A call before the rest. -/
theorem tells_call {o : Op} {f : Resp o → Prog Op Resp E β} {out : Outcome E β}
    (hf : Tells h note (f (h o s).1) (h o s).2 (note t ⟨o, (h o s).1⟩) out s₂ t₂) :
    Tells h note (.perform o >>= f) s t out s₂ t₂ :=
  hf

/-- One program after the other. -/
theorem Tells.andThen {a : α} {out : Outcome E β} (hp : Tells h note p s t (.ret a) s₁ t₁)
    (hf : Tells h note (f a) s₁ t₁ out s₂ t₂) : Tells h note (p >>= f) s t out s₂ t₂ := by
  refine ⟨hp.1.andThen hf.1, ?_⟩
  rw [history_andThen hp.1, List.foldl_append, hp.2]
  exact hf.2

/-- None of the calls means anything to the observer. -/
theorem tells_of_sat {P : Op → Prop} {X : E → Prop} {T : α → Prop} {out : Outcome E α}
    (hp : Ends h p s out s₁) (hsat : p.Sat P X T) (hP : ∀ o, P o → Unmoved note o) (t : τ) :
    Tells h note p s t out s₁ t :=
  ⟨hp, foldl_unmoved fun e he => hP e.1 (history_sat hsat s e he) e.2 t⟩

end Tells

end Observing

/-- What a program makes of its past: `Q` relates every history that begins
with the past to the outcome. -/
def After (Q : List (Event Op Resp) → Outcome E α → Prop) :
    Prog Op Resp E α → List (Event Op Resp) → Prop
  | .ret a, past => Q past (.ret a)
  | .exit e, past => Q past (.exit e)
  | .hang, past => Q past .hang
  | .call o next, past => ∀ r, After Q (next r) (past ++ [⟨o, r⟩])

/-- What has to hold when the first part of a composition ends. -/
def Sequel (f : α → Prog Op Resp E β) (Q : List (Event Op Resp) → Outcome E β → Prop)
    (past : List (Event Op Resp)) : Outcome E α → Prop
  | .ret a => After Q (f a) past
  | .exit e => Q past (.exit e)
  | .hang => Q past .hang

section Rules

variable {Q Q' : List (Event Op Resp) → Outcome E α → Prop}
  {R : List (Event Op Resp) → Outcome E β → Prop} {past : List (Event Op Resp)}

/-- One program after the other. -/
theorem After.andThen {p : Prog Op Resp E α} {f : α → Prog Op Resp E β}
    (hp : After (Sequel f R) p past) : After R (p >>= f) past := by
  induction p generalizing past with
  | ret a => exact hp
  | exit e => exact hp
  | hang => exact hp
  | call o next ih => exact fun r => ih r (hp r)

/-- What follows holds as well. -/
theorem After.mono {p : Prog Op Resp E α} (hp : After Q p past)
    (hQ : ∀ past out, Q past out → Q' past out) : After Q' p past := by
  induction p generalizing past with
  | ret a => exact hQ _ _ hp
  | exit e => exact hQ _ _ hp
  | hang => exact hQ _ _ hp
  | call o next ih => exact fun r => ih r (hp r)

/-- A call is answered in any way. -/
theorem after_call {o : Op} {f : Resp o → Prog Op Resp E α}
    (hr : ∀ r, After Q (f r) (past ++ [⟨o, r⟩])) : After Q (.perform o >>= f) past :=
  hr

/-- A result. -/
theorem after_pure {a : α} (hQ : Q past (.ret a)) : After Q (pure a : Prog Op Resp E α) past := hQ

/-- An exit. -/
theorem after_exit {e : E} (hQ : Q past (.exit e)) : After Q (.exit e : Prog Op Resp E α) past := hQ

/-- A program whose calls and results are known adds such calls to its past. -/
theorem after_of_sat {P : Op → Prop} {X : E → Prop} {T : α → Prop} {p : Prog Op Resp E α}
    (hp : p.Sat P X T)
    (hret : ∀ es, (∀ e ∈ es, P e.1) → ∀ a, T a → Q (past ++ es) (.ret a))
    (hexit : ∀ es, (∀ e ∈ es, P e.1) → ∀ e, X e → Q (past ++ es) (.exit e))
    (hhang : ∀ es, (∀ e ∈ es, P e.1) → Q (past ++ es) .hang) : After Q p past := by
  induction p generalizing past with
  | ret a =>
    have hnow := hret [] nofun a hp
    rw [List.append_nil] at hnow
    exact hnow
  | exit e =>
    have hnow := hexit [] nofun e hp
    rw [List.append_nil] at hnow
    exact hnow
  | hang =>
    have hnow := hhang [] nofun
    rw [List.append_nil] at hnow
    exact hnow
  | call o next ih =>
    intro r
    have hcons : ∀ es : List (Event Op Resp), (∀ e ∈ es, P e.1) →
        ∀ e ∈ ⟨o, r⟩ :: es, P e.1 := fun es hes => List.forall_mem_cons.mpr ⟨hp.1, hes⟩
    refine ih r (hp.2 r) ?_ ?_ ?_
    · intro es hes a ha
      rw [List.append_assoc]
      exact hret _ (hcons es hes) a ha
    · intro es hes e he
      rw [List.append_assoc]
      exact hexit _ (hcons es hes) e he
    · intro es hes
      rw [List.append_assoc]
      exact hhang _ (hcons es hes)

/-- What has to hold when a pass ends: the invariant with a lower measure, or
what the loop is for. -/
def Pass (I : β → List (Event Op Resp) → Prop) (measure : β → ℕ) (below : ℕ)
    (Q : List (Event Op Resp) → Outcome E α → Prop) (past : List (Event Op Resp)) :
    Outcome E (β ⊕ α) → Prop
  | .ret (.inl b) => I b past ∧ measure b < below
  | .ret (.inr a) => Q past (.ret a)
  | .exit e => Q past (.exit e)
  | .hang => Q past .hang

/-- A loop whose passes keep an invariant and lower a measure does not use up
more passes than the measure allows. -/
theorem After.loop {I : β → List (Event Op Resp) → Prop} {measure : β → ℕ}
    {body : β → Prog Op Resp E (β ⊕ α)}
    (hbody : ∀ b past, I b past → After (Pass I measure (measure b) Q) (body b) past)
    {fuel : ℕ} {b : β} (hfuel : measure b < fuel) (hb : I b past) :
    After Q (Prog.loop body fuel b) past := by
  induction fuel generalizing b past with
  | zero => omega
  | succ fuel ih =>
    refine After.andThen ((hbody b past hb).mono fun past out hout => ?_)
    cases out with
    | ret step =>
      cases step with
      | inl b' => exact ih (Nat.lt_of_lt_of_le hout.2 (Nat.le_of_lt_succ hfuel)) hout.1
      | inr a => exact hout
    | exit e => exact hout
    | hang => exact hout

/-- What has to hold when a pass ends and nothing is said about their number. -/
def Turn (I : β → List (Event Op Resp) → Prop) (Q : List (Event Op Resp) → Outcome E α → Prop)
    (past : List (Event Op Resp)) : Outcome E (β ⊕ α) → Prop
  | .ret (.inl b) => I b past
  | .ret (.inr a) => Q past (.ret a)
  | .exit e => Q past (.exit e)
  | .hang => Q past .hang

/-- A loop whose passes keep an invariant, however many of them there are. -/
theorem After.loop_turns {I : β → List (Event Op Resp) → Prop}
    {body : β → Prog Op Resp E (β ⊕ α)}
    (hbody : ∀ b past, I b past → After (Turn I Q) (body b) past)
    (hhang : ∀ b past, I b past → Q past .hang) {fuel : ℕ} {b : β} (hb : I b past) :
    After Q (Prog.loop body fuel b) past := by
  induction fuel generalizing b past with
  | zero => exact hhang b past hb
  | succ fuel ih =>
    refine After.andThen ((hbody b past hb).mono fun past out hout => ?_)
    cases out with
    | ret step =>
      cases step with
      | inl b' => exact ih hout
      | inr a => exact hout
    | exit e => exact hout
    | hang => exact hout

/-- What a program makes of its past is true of every run. -/
theorem After.run {p : Prog Op Resp E α} (hp : After Q p past) (h : Handler Op Resp σ) (s : σ) :
    Q (past ++ history h p s) (exec h everyCall p s).outcome := by
  induction p generalizing past s with
  | ret a =>
    rw [history, List.append_nil]
    exact hp
  | exit e =>
    rw [history, List.append_nil]
    exact hp
  | hang =>
    rw [history, List.append_nil]
    exact hp
  | call o next ih =>
    have hnext := ih _ (hp (h o s).1) (h o s).2
    rw [List.append_assoc] at hnext
    exact hnext

end Rules

/-- Some event of a history stands in this relation to what came before it. -/
def Occurs (B : List (Event Op Resp) → Event Op Resp → Prop) (past : List (Event Op Resp)) : Prop :=
  ∃ before e after, past = before ++ e :: after ∧ B before e

section Occurs

variable {B B' : List (Event Op Resp) → Event Op Resp → Prop} {past : List (Event Op Resp)}

/-- Nothing occurs in an empty history. -/
theorem not_occurs_nil : ¬Occurs B [] := by
  rintro ⟨before, e, after, hnil, -⟩
  cases before <;> cases hnil

/-- One more event. -/
theorem occurs_snoc {e : Event Op Resp} : Occurs B (past ++ [e]) ↔ Occurs B past ∨ B past e := by
  constructor
  · rintro ⟨before, q, after, hpast, hq⟩
    rcases List.eq_nil_or_concat after with hnil | ⟨front, last, hlast⟩
    · rw [hnil] at hpast
      obtain ⟨hbefore, he⟩ := List.append_inj' hpast rfl
      rw [List.cons.inj he |>.1, hbefore]
      exact .inr hq
    · rw [hlast, List.concat_eq_append, ← List.cons_append, ← List.append_assoc] at hpast
      exact .inl ⟨before, q, front, (List.append_inj' hpast rfl).1, hq⟩
  · rintro (⟨before, q, after, hpast, hq⟩ | hq)
    · refine ⟨before, q, after ++ [e], ?_, hq⟩
      rw [hpast, List.append_assoc, List.cons_append]
    · exact ⟨past, e, [], rfl, hq⟩

/-- A weaker relation occurs as well. -/
theorem Occurs.mono (h : Occurs B past) (hB : ∀ before e, B before e → B' before e) :
    Occurs B' past := by
  obtain ⟨before, e, after, hpast, he⟩ := h
  exact ⟨before, e, after, hpast, hB before e he⟩

/-- Events that do not stand in this relation to anything change nothing. -/
theorem occurs_append {es : List (Event Op Resp)} (hes : ∀ e ∈ es, ∀ before, ¬B before e) :
    Occurs B (past ++ es) ↔ Occurs B past := by
  induction es generalizing past with
  | nil => rw [List.append_nil]
  | cons e es ih =>
    have hsplit : past ++ e :: es = (past ++ [e]) ++ es := List.append_cons past e es
    rw [hsplit, ih fun q hq => hes q (List.mem_cons_of_mem _ hq), occurs_snoc]
    exact or_iff_left (hes e (List.mem_cons_self ..) past)

/-- Looking for it event by event. -/
theorem occurs_iff_at :
    (∃ n : Fin past.length, B (past.take n) past[n]) ↔ Occurs B past := by
  constructor
  · rintro ⟨n, hn⟩
    refine ⟨past.take n, past[n], past.drop (n + 1), ?_, hn⟩
    simp
  · rintro ⟨before, e, after, rfl, he⟩
    refine ⟨⟨before.length, by simp⟩, ?_⟩
    simpa using he

instance [∀ before e, Decidable (B before e)] : Decidable (Occurs B past) :=
  decidable_of_iff _ occurs_iff_at

end Occurs

/-- Every event of a history stands in this relation to what follows it. -/
def Everywhere (P : Event Op Resp → List (Event Op Resp) → Prop) (past : List (Event Op Resp)) :
    Prop :=
  ∀ before e after, past = before ++ e :: after → P e after

section Everywhere

variable {P : Event Op Resp → List (Event Op Resp) → Prop} {past es : List (Event Op Resp)}

/-- An empty history. -/
theorem everywhere_nil : Everywhere P [] := by
  intro before e after hnil
  cases before <;> cases hnil

/-- One more event in front. -/
theorem everywhere_cons {e : Event Op Resp} (he : P e es) (hes : Everywhere P es) :
    Everywhere P (e :: es) := by
  intro before q after hsplit
  cases before with
  | nil =>
    obtain ⟨hq, hafter⟩ := List.cons.inj hsplit
    exact hq ▸ hafter ▸ he
  | cons b before => exact hes before q after (List.cons.inj hsplit).2

/-- Histories are put together where the relation does not depend on the end. -/
theorem Everywhere.append (hpast : Everywhere P past) (hes : Everywhere P es)
    (hmono : ∀ e after later, P e after → P e (after ++ later)) : Everywhere P (past ++ es) := by
  induction past with
  | nil => exact hes
  | cons e past ih =>
    refine everywhere_cons (hmono e past es (hpast [] e past rfl)) (ih fun before q after hsplit => ?_)
    exact hpast (e :: before) q after (congrArg (e :: ·) hsplit)

end Everywhere

end MetaDigi.SystemHistories
