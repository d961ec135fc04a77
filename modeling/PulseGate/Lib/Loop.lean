import Mathlib.Tactic.TypeStar

namespace Loop

/-!
# Loops that end when their body says so

An iteration of a loop either ends it with a result, `Sum.inl r`, or continues it in a new
state, `Sum.inr s`.

* `run` — the loop, with a bound on the number of iterations;
* `Ends` — the loop ends with a result, after any number of iterations;
* `visited` — the states its iterations start from;
* `Reaches` — the loop goes on from one state to another.

A loop whose iterations decrease a measure (`Decreases`) ends within as many iterations as the
measure says: `Decreases.exists_run`.

A loop over a list whose iterations may throw is `List.foldlM` in `Except`; `foldlM_invariant`
is its invariant rule.
-/

variable {σ ρ : Type*} {body : σ → ρ ⊕ σ}

/-- The loop from `s`, `none` when it has not ended after `n` iterations. -/
def run (body : σ → ρ ⊕ σ) : Nat → σ → Option ρ
  | 0, _ => none
  | n + 1, s =>
    match body s with
    | .inl r => some r
    | .inr s' => run body n s'

/-- The states from which the first `n` iterations start. -/
def visited (body : σ → ρ ⊕ σ) : Nat → σ → List σ
  | 0, _ => []
  | n + 1, s =>
    s :: match body s with
      | .inl _ => []
      | .inr s' => visited body n s'

/-- The loop from `s` ends with `r`. -/
inductive Ends (body : σ → ρ ⊕ σ) : σ → ρ → Prop
  | done {s : σ} {r : ρ} (h : body s = .inl r) : Ends body s r
  | next {s s' : σ} {r : ρ} (h : body s = .inr s') (ends : Ends body s' r) : Ends body s r

/-- The loop from `s` goes on to `t`. -/
inductive Reaches (body : σ → ρ ⊕ σ) : σ → σ → Prop
  | refl (s : σ) : Reaches body s s
  | next {s s' t : σ} (h : body s = .inr s') (reaches : Reaches body s' t) : Reaches body s t

/-- In the states of an invariant, every iteration that continues keeps the invariant and
    makes the measure smaller. -/
structure Decreases (body : σ → ρ ⊕ σ) (Inv : σ → Prop) (measure : σ → Nat) : Prop where
  inv : ∀ s s', Inv s → body s = .inr s' → Inv s'
  lt : ∀ s s', Inv s → body s = .inr s' → measure s' < measure s

theorem Ends.unique {s : σ} {r r' : ρ} (h : Ends body s r) (h' : Ends body s r') : r = r' := by
  induction h with
  | done hdone =>
    cases h' with
    | done hdone' => exact Sum.inl.inj (hdone.symm.trans hdone')
    | next hnext' _ => simp [hdone] at hnext'
  | next hnext _ ih =>
    cases h' with
    | done hdone' => simp [hnext] at hdone'
    | next hnext' hends' =>
      obtain rfl := Sum.inr.inj (hnext.symm.trans hnext')
      exact ih hends'

theorem Ends.of_run {n : Nat} {s : σ} {r : ρ} (h : run body n s = some r) : Ends body s r := by
  induction n generalizing s with
  | zero => simp [run] at h
  | succ n ih =>
    cases hbody : body s with
    | inl r' =>
      simp only [run, hbody, Option.some.injEq] at h
      exact .done (h ▸ hbody)
    | inr s' =>
      simp only [run, hbody] at h
      exact .next hbody (ih h)

/-- More iterations change nothing. -/
theorem run_of_le {n m : Nat} {s : σ} {r : ρ} (h : run body n s = some r) (hle : n ≤ m) :
    run body m s = some r := by
  induction n generalizing s m with
  | zero => simp [run] at h
  | succ n ih =>
    obtain ⟨m, rfl⟩ : ∃ k, m = k + 1 := ⟨m - 1, by omega⟩
    cases hbody : body s with
    | inl r' =>
      simp only [run, hbody] at h ⊢
      exact h
    | inr s' =>
      simp only [run, hbody] at h ⊢
      exact ih h (by omega)

theorem Reaches.trans {s t u : σ} (h : Reaches body s t) (h' : Reaches body t u) :
    Reaches body s u := by
  induction h with
  | refl => exact h'
  | next hnext _ ih => exact .next hnext (ih h')

theorem Reaches.snoc {s t u : σ} (h : Reaches body s t) (hnext : body t = .inr u) :
    Reaches body s u :=
  h.trans (.next hnext (.refl u))

/-- What continuing keeps holds wherever the loop goes. -/
theorem Reaches.inv (Inv : σ → Prop) (hnext : ∀ s s', Inv s → body s = .inr s' → Inv s')
    {s t : σ} (h : Reaches body s t) (hs : Inv s) : Inv t := by
  induction h with
  | refl => exact hs
  | next hbody _ ih => exact ih (hnext _ _ hs hbody)

/-- A loop that ends reaches its last iteration. -/
theorem Ends.exists_reaches {s : σ} {r : ρ} (h : Ends body s r) :
    ∃ t, Reaches body s t ∧ body t = .inl r := by
  induction h with
  | @done s r hdone => exact ⟨s, .refl s, hdone⟩
  | next hnext _ ih =>
    obtain ⟨t, hreaches, hdone⟩ := ih
    exact ⟨t, .next hnext hreaches, hdone⟩

/-- A loop ends as it does from a state that it reaches. -/
theorem Reaches.ends {s t : σ} {r : ρ} (h : Reaches body s t) (hends : Ends body t r) :
    Ends body s r := by
  induction h with
  | refl => exact hends
  | next hnext _ ih => exact .next hnext (ih hends)

/-- **Invariant rule.** What continuing keeps and ending establishes holds of the result. -/
theorem Ends.result (Inv : σ → Prop) {P : ρ → Prop}
    (hnext : ∀ s s', Inv s → body s = .inr s' → Inv s')
    (hdone : ∀ s r, Inv s → body s = .inl r → P r) {s : σ} {r : ρ} (h : Ends body s r)
    (hs : Inv s) : P r := by
  induction h with
  | done hbody => exact hdone _ _ hs hbody
  | next hbody _ ih => exact ih (hnext _ _ hs hbody)

/-- A loop that ends within `n` iterations visits all it reaches. -/
theorem Reaches.mem_visited {n : Nat} {s t : σ} {r : ρ} (hrun : run body n s = some r)
    (h : Reaches body s t) : t ∈ visited body n s := by
  induction n generalizing s with
  | zero => simp [run] at hrun
  | succ n ih =>
    cases h with
    | refl => exact List.mem_cons_self
    | @next _ s' _ hnext hrest =>
      simp only [run, hnext] at hrun
      refine List.mem_cons_of_mem s ?_
      rw [hnext]
      exact ih hrun hrest

/-- The same for the states the iterations start from. -/
theorem visited_inv (Inv : σ → Prop) (hnext : ∀ s s', Inv s → body s = .inr s' → Inv s')
    {n : Nat} {s : σ} (hs : Inv s) : ∀ t ∈ visited body n s, Inv t := by
  induction n generalizing s with
  | zero => simp [visited]
  | succ n ih =>
    intro t ht
    rcases List.mem_cons.mp ht with rfl | ht
    · exact hs
    · cases hbody : body s with
      | inl r => simp [hbody] at ht
      | inr s' =>
        simp only [hbody] at ht
        exact ih (hnext s s' hs hbody) t ht

section Measure

variable {Inv : σ → Prop} {measure : σ → Nat}

/-- **Totality.** The loop ends from every state of the invariant, within as many iterations
    as the measure says. -/
theorem Decreases.exists_run (h : Decreases body Inv measure) {n : Nat} {s : σ} (hs : Inv s)
    (hn : measure s < n) : ∃ r, run body n s = some r := by
  induction n generalizing s with
  | zero => omega
  | succ n ih =>
    cases hbody : body s with
    | inl r => exact ⟨r, by simp [run, hbody]⟩
    -- the next state has a smaller measure, below the iterations that are left
    | inr s' =>
      have hlt := h.lt s s' hs hbody
      obtain ⟨r, hr⟩ := ih (h.inv s s' hs hbody) (by omega)
      exact ⟨r, by simpa [run, hbody] using hr⟩

end Measure

section Exceptions

universe u

variable {σ τ : Type u} {α ε : Type*}

theorem bind_eq_ok {x : Except ε σ} {f : σ → Except ε τ} {t : τ} :
    x >>= f = .ok t ↔ ∃ s, x = .ok s ∧ f s = .ok t := by
  cases x <;> simp [bind, Except.bind]

theorem map_eq_ok {x : Except ε σ} {f : σ → τ} {t : τ} :
    x.map f = .ok t ↔ ∃ s, x = .ok s ∧ f s = t := by
  cases x <;> simp [Except.map]

/-- What every iteration that does not throw keeps holds after the loop. -/
theorem foldlM_invariant {body : σ → α → Except ε σ} {Inv : σ → Prop}
    (hbody : ∀ s a s', Inv s → body s a = .ok s' → Inv s') (items : List α) {s s' : σ}
    (hs : Inv s) (hfold : items.foldlM body s = .ok s') : Inv s' := by
  induction items generalizing s with
  | nil =>
    obtain rfl := Except.ok.inj hfold
    exact hs
  | cons a items ih =>
    rw [List.foldlM_cons] at hfold
    obtain ⟨s₁, hs₁, hrest⟩ := bind_eq_ok.mp hfold
    exact ih (hbody s a s₁ hs hs₁) hrest

end Exceptions

end Loop
