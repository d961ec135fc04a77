import Mathlib.Tactic.ByContra

namespace Machine

/-!
# Runs of a machine given by a step function

A machine is a partial step function `step : σ → ε → Option σ` on states `σ` and events
`ε`; an event that is not enabled in a state gives `none`.  A run is a list of events, read
from the left until it ends or meets an event that is not enabled.

* `run` — the state a run ends in;
* `Always P` — `P` holds in every state the run passes through;
* `EachStep R` — every step the run takes is related by `R`.

The proof rules go from one step to a whole run: `always_of_invariant` is the usual
invariant rule, `always_of_eachStep` the rule for runs whose steps meet a condition, and
`always_iff_eachStep` turns "a step keeps `P` exactly when it meets the condition" into the
same equivalence for runs.
-/

variable {σ ε : Type*} {step : σ → ε → Option σ}

/-- The state a run ends in, `none` when one of its events is not enabled. -/
def run (step : σ → ε → Option σ) : σ → List ε → Option σ
  | s, [] => some s
  | s, e :: es => (step s e).bind fun s' => run step s' es

/-- `P` holds in every state the run passes through, the first one included. -/
def Always (step : σ → ε → Option σ) (P : σ → Prop) : σ → List ε → Prop
  | s, [] => P s
  | s, e :: es => P s ∧ ∀ s' ∈ step s e, Always step P s' es

/-- Every step the run takes, from `s` by `e` to `s'`, satisfies `R s e s'`. -/
def EachStep (step : σ → ε → Option σ) (R : σ → ε → σ → Prop) : σ → List ε → Prop
  | _, [] => True
  | s, e :: es => ∀ s' ∈ step s e, R s e s' ∧ EachStep step R s' es

instance Always.decidable (step : σ → ε → Option σ) (P : σ → Prop) [DecidablePred P] :
    ∀ s es, Decidable (Always step P s es)
  | s, [] => inferInstanceAs (Decidable (P s))
  | s, e :: es =>
    have : DecidablePred fun s' => Always step P s' es := fun s' => decidable step P s' es
    inferInstanceAs (Decidable (P s ∧ ∀ s' ∈ step s e, Always step P s' es))

instance EachStep.decidable (step : σ → ε → Option σ) (R : σ → ε → σ → Prop)
    [∀ s e s', Decidable (R s e s')] : ∀ s es, Decidable (EachStep step R s es)
  | _, [] => isTrue trivial
  | s, e :: es =>
    have : DecidablePred fun s' => EachStep step R s' es := fun s' => decidable step R s' es
    inferInstanceAs (Decidable (∀ s' ∈ step s e, R s e s' ∧ EachStep step R s' es))

/-- The first state of a run satisfies what all its states satisfy. -/
theorem Always.head {P : σ → Prop} {s : σ} {es : List ε} (h : Always step P s es) : P s := by
  cases es with
  | nil => exact h
  | cons e es => exact h.1

/-- The last state of a run satisfies what all its states satisfy. -/
theorem Always.last {P : σ → Prop} {s : σ} {es : List ε} (h : Always step P s es) :
    ∀ s' ∈ run step s es, P s' := by
  induction es generalizing s with
  | nil => intro s' hs'; cases hs'; exact h
  | cons e es ih =>
    intro s' hs'
    -- the first step leads to `s₁`, and the run goes on from there
    obtain ⟨s₁, hs₁, hrun⟩ := Option.bind_eq_some_iff.mp hs'
    exact ih (h.2 s₁ hs₁) s' hrun

/-- The relation every step of a run satisfies, at the step the run takes by `e` after
    `es₁`. -/
theorem EachStep.at_step {R : σ → ε → σ → Prop} {s : σ} {es₁ : List ε} {e : ε} {es₂ : List ε}
    (h : EachStep step R s (es₁ ++ e :: es₂)) {s₁ s₂ : σ} (hrun : run step s es₁ = some s₁)
    (hstep : step s₁ e = some s₂) : R s₁ e s₂ := by
  induction es₁ generalizing s with
  | nil => cases hrun; exact (h s₂ hstep).1
  | cons e₁ es₁ ih =>
    obtain ⟨s', hs', hrun'⟩ := Option.bind_eq_some_iff.mp hrun
    exact ih (h s' hs').2 hrun'

/-- A run goes on from where its first part ends. -/
theorem run_append (s : σ) (es₁ es₂ : List ε) :
    run step s (es₁ ++ es₂) = (run step s es₁).bind fun s' => run step s' es₂ := by
  induction es₁ generalizing s with
  | nil => rfl
  | cons e es₁ ih =>
    rw [List.cons_append, run, run, Option.bind_assoc]
    exact congrArg _ (funext ih)

/-- **History rule.** An invariant that speaks of the events so far holds where a run ends. -/
theorem run_of_history {Inv : List ε → σ → Prop}
    (hstep : ∀ es s e s', Inv es s → step s e = some s' → Inv (es ++ [e]) s') {s s' : σ}
    {es : List ε} (h : Inv [] s) (hrun : run step s es = some s') : Inv es s' := by
  -- the events before `s` are in front of those of the run
  have hall : ∀ (es before : List ε) (s : σ), Inv before s → run step s es = some s' →
      Inv (before ++ es) s' := by
    intro es
    induction es with
    | nil =>
      intro before s h hrun
      rw [List.append_nil]
      exact Option.some.inj hrun ▸ h
    | cons e es ih =>
      intro before s h hrun
      obtain ⟨s₁, hs₁, hrest⟩ := Option.bind_eq_some_iff.mp hrun
      have hnext := ih (before ++ [e]) s₁ (hstep before s e s₁ h hs₁) hrest
      rwa [List.append_assoc] at hnext
  exact hall es [] s h hrun

/-- **Invariant rule.** An inductive invariant that implies `P` makes `P` hold along every
    run. -/
theorem always_of_invariant (Inv : σ → Prop) {P : σ → Prop} (himp : ∀ s, Inv s → P s)
    (hstep : ∀ s e s', Inv s → step s e = some s' → Inv s') {s : σ} (es : List ε) (h : Inv s) :
    Always step P s es := by
  induction es generalizing s with
  | nil => exact himp s h
  | cons e es ih => exact ⟨himp s h, fun s' hs' => ih (hstep s e s' h hs')⟩

/-- A run none of whose events is ever refused goes on to its end. -/
theorem exists_run_of_invariant (Inv : σ → Prop)
    (hstep : ∀ s e, Inv s → ∃ s', step s e = some s' ∧ Inv s') {s : σ} (es : List ε)
    (h : Inv s) : ∃ s', run step s es = some s' := by
  induction es generalizing s with
  | nil => exact ⟨s, rfl⟩
  | cons e es ih =>
    obtain ⟨s₁, hs₁, hinv⟩ := hstep s e h
    obtain ⟨s', hrun⟩ := ih hinv
    exact ⟨s', Option.bind_eq_some_iff.mpr ⟨s₁, hs₁, hrun⟩⟩

/-- **Termination rule.** When every state of an invariant that is not done can be left, in some
    steps that meet `Ok`, for one of a smaller measure, then some such steps lead to one that is
    done. -/
theorem exists_run_of_measure (Inv Done : σ → Prop) (Ok : ε → Prop) (measure : σ → Nat)
    (hstep : ∀ s, Inv s → ¬ Done s → ∃ es s', run step s es = some s' ∧ (∀ e ∈ es, Ok e) ∧
      Inv s' ∧ measure s' < measure s) {s : σ} (h : Inv s) :
    ∃ es s', run step s es = some s' ∧ (∀ e ∈ es, Ok e) ∧ Inv s' ∧ Done s' := by
  induction hn : measure s using Nat.strongRecOn generalizing s with
  | _ n ih =>
    by_cases hdone : Done s
    · exact ⟨[], s, rfl, fun _ he => absurd he List.not_mem_nil, h, hdone⟩
    · obtain ⟨es, s₁, hrun, hok, h₁, hless⟩ := hstep s h hdone
      obtain ⟨es', s', hrun', hok', h', hdone'⟩ := ih _ (hn ▸ hless) h₁ rfl
      refine ⟨es ++ es', s', ?_, fun e he => ?_, h', hdone'⟩
      · rw [run_append, hrun]
        exact hrun'
      · exact (List.mem_append.mp he).elim (hok e) (hok' e)

/-- **Refinement rule.** A machine each of whose steps is, of the part `f` of its state, a step
    of a second machine or none at all keeps what all runs of the second machine keep. -/
theorem always_of_refines {σ' ε' : Type*} {step' : σ' → ε' → Option σ'} (f : σ → σ')
    {P : σ' → Prop}
    (hstep : ∀ s e s', step s e = some s' → f s' = f s ∨ ∃ e', step' (f s) e' = some (f s'))
    {s : σ} (es : List ε) (h : ∀ es', Always step' P (f s) es') :
    Always step (fun s => P (f s)) s es := by
  induction es generalizing s with
  | nil => exact h []
  | cons e es ih =>
    refine ⟨(h []).head, fun s' hs' => ih ?_⟩
    rcases hstep s e s' hs' with hsame | ⟨e', he'⟩
    · rw [hsame]
      exact h
    · exact fun es' => (h (e' :: es')).2 _ he'

/-- **Conditional invariant rule.** When the steps that meet `Ok` keep the invariant, it
    holds along every run all of whose steps meet `Ok`. -/
theorem always_of_eachStep (Inv : σ → Prop) {P : σ → Prop} {Ok : σ → ε → σ → Prop}
    (himp : ∀ s, Inv s → P s)
    (hstep : ∀ s e s', Inv s → Ok s e s' → step s e = some s' → Inv s') {s : σ} {es : List ε}
    (h : Inv s) (hok : EachStep step Ok s es) : Always step P s es := by
  induction es generalizing s with
  | nil => exact himp s h
  | cons e es ih =>
    refine ⟨himp s h, fun s' hs' => ?_⟩
    obtain ⟨hok₁, hok₂⟩ := hok s' hs'
    exact ih (hstep s e s' h hok₁ hs') hok₂

/-- **Conditional step rule.** When a step that meets `Ok` in a state of the invariant keeps
    the invariant and satisfies `R`, every step of a run that meets `Ok` satisfies `R`. -/
theorem eachStep_of_eachStep (Inv : σ → Prop) {Ok R : σ → ε → σ → Prop}
    (hstep : ∀ s e s', Inv s → Ok s e s' → step s e = some s' → R s e s' ∧ Inv s') {s : σ}
    {es : List ε} (h : Inv s) (hok : EachStep step Ok s es) : EachStep step R s es := by
  induction es generalizing s with
  | nil => trivial
  | cons e es ih =>
    intro s' hs'
    obtain ⟨hok₁, hok₂⟩ := hok s' hs'
    obtain ⟨hr, hinv⟩ := hstep s e s' h hok₁ hs'
    exact ⟨hr, ih hinv hok₂⟩

/-- **Step rule.** When a step in a state of the invariant keeps the invariant and satisfies
    `R`, every step of every run satisfies `R`. -/
theorem eachStep_of_invariant (Inv : σ → Prop) {R : σ → ε → σ → Prop}
    (hstep : ∀ s e s', Inv s → step s e = some s' → R s e s' ∧ Inv s') {s : σ} (es : List ε)
    (h : Inv s) : EachStep step R s es := by
  induction es generalizing s with
  | nil => trivial
  | cons e es ih =>
    intro s' hs'
    obtain ⟨hr, hinv⟩ := hstep s e s' h hs'
    exact ⟨hr, ih hinv⟩

/-- **Conditional same-step rule.** Relations that agree on the steps from the states of an
    invariant that meet `Ok` hold along the same runs of such steps. -/
theorem eachStep_congr_of_eachStep (Inv : σ → Prop) {Ok R R' : σ → ε → σ → Prop}
    (hstep : ∀ s e s', Inv s → Ok s e s' → step s e = some s' → Inv s' ∧ (R s e s' ↔ R' s e s'))
    {s : σ} {es : List ε} (h : Inv s) (hok : EachStep step Ok s es) :
    EachStep step R s es ↔ EachStep step R' s es := by
  induction es generalizing s with
  | nil => exact Iff.rfl
  | cons e es ih =>
    apply forall₂_congr
    intro s' hs'
    obtain ⟨hok₁, hok₂⟩ := hok s' hs'
    obtain ⟨hinv, hiff⟩ := hstep s e s' h hok₁ hs'
    exact and_congr hiff (ih hinv hok₂)

/-- **Same-step rule.** Relations that agree on the steps from the states of an invariant hold
    along the same runs. -/
theorem eachStep_congr (Inv : σ → Prop) {R R' : σ → ε → σ → Prop}
    (hstep : ∀ s e s', Inv s → step s e = some s' → Inv s' ∧ (R s e s' ↔ R' s e s')) {s : σ}
    (es : List ε) (h : Inv s) : EachStep step R s es ↔ EachStep step R' s es := by
  induction es generalizing s with
  | nil => exact Iff.rfl
  | cons e es ih =>
    apply forall₂_congr
    intro s' hs'
    obtain ⟨hinv, hiff⟩ := hstep s e s' h hs'
    exact and_congr hiff (ih hinv)

/-- **Same-state rule.** Where `Q` keeps the invariant and agrees with `P` in its states, `P`
    holds along the same runs as `Q`. -/
theorem always_congr (Inv : σ → Prop) {P Q : σ → Prop} (hiff : ∀ s, Inv s → (P s ↔ Q s))
    (hstep : ∀ s e s', Inv s → Q s → step s e = some s' → Inv s') {s : σ} (es : List ε)
    (h : Inv s) : Always step P s es ↔ Always step Q s es := by
  induction es generalizing s with
  | nil => exact hiff s h
  | cons e es ih =>
    show P s ∧ _ ↔ Q s ∧ _
    rw [hiff s h]
    apply and_congr_right
    intro hq
    exact forall₂_congr fun s' hs' => ih (hstep s e s' h hq hs')

/-- **Exact condition rule.** When, in the states of an invariant where `P` holds, a step
    keeps the invariant and `P` if it meets `Ok` and breaks `P` if it does not, then `P`
    holds along a run exactly when all the run's steps meet `Ok`. -/
theorem always_iff_eachStep (Inv : σ → Prop) {P : σ → Prop} {Ok : σ → ε → σ → Prop}
    (hgood : ∀ s e s', Inv s → P s → Ok s e s' → step s e = some s' → Inv s' ∧ P s')
    (hbad : ∀ s e s', Inv s → P s → ¬ Ok s e s' → step s e = some s' → ¬ P s') {s : σ}
    (es : List ε) (h : Inv s) (hP : P s) :
    Always step P s es ↔ EachStep step Ok s es := by
  induction es generalizing s with
  | nil => exact ⟨fun _ => trivial, fun _ => hP⟩
  | cons e es ih =>
    constructor
    · intro halways s' hs'
      have hP' : P s' := (halways.2 s' hs').head
      -- a step that misses the condition breaks `P` at once
      have hok : Ok s e s' := by
        by_contra hbad'
        exact hbad s e s' h hP hbad' hs' hP'
      obtain ⟨hinv', _⟩ := hgood s e s' h hP hok hs'
      exact ⟨hok, (ih hinv' hP').mp (halways.2 s' hs')⟩
    · intro hsteps
      refine ⟨hP, fun s' hs' => ?_⟩
      obtain ⟨hok, hrest⟩ := hsteps s' hs'
      obtain ⟨hinv', hP'⟩ := hgood s e s' h hP hok hs'
      exact (ih hinv' hP').mpr hrest

end Machine
