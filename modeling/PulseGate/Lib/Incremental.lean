import PulseGate.Lib.Loop
import Mathlib.Tactic.ByContra

namespace Incremental

/-!
# Parsers that are fed piece by piece

A parser reads a sequence whose pieces arrive one after the other.  It keeps a state and the
part that it has not consumed, and is called again with each piece; a call ends with an outcome
that waits for more, or with one that is final.

* `Outcomes` — what an outcome says about the state and about what is left;
* `feed` — the calls for a list of pieces, up to the first final outcome;
* `Local` — the parser is a loop whose iterations look at the part that they consume only, up to
  exceptions `Bad`;
* `Meets` — some call for the pieces comes across an exception.

`Local.feed_alike` says that the pieces do not matter when no call meets an exception, and
`Local.feed_of_meets` what the outcome is when one does.
-/

variable {σ α ω : Type*}

/-- Outcomes of calls: `wait s u` waits for more in the state `s` with `u` left, `ask` tells these
    outcomes from the final ones, and `leave` adds what was not handed over to what is left. -/
structure Outcomes (σ α ω : Type*) where
  wait : σ → List α → ω
  ask : ω → Option (σ × List α)
  leave : ω → List α → ω
  ask_eq_some : ∀ o s u, ask o = some (s, u) ↔ o = wait s u
  leave_nil : ∀ o, leave o [] = o
  leave_leave : ∀ o x y, leave (leave o x) y = leave o (x ++ y)
  ask_leave : ∀ o x, ask o = none → ask (leave o x) = none

/-- The calls for a list of pieces, from the state `s` with `u` left. -/
def feed (I : Outcomes σ α ω) (parse : σ → List α → ω) : σ → List α → List (List α) → ω
  | s, u, [] => I.wait s u
  | s, u, x :: xs =>
    match I.ask (parse s (u ++ x)) with
    | some (s', u') => feed I parse s' u' xs
    | none => I.leave (parse s (u ++ x)) xs.flatten

section Feed

variable {I : Outcomes σ α ω} {parse : σ → List α → ω} {s s' : σ} {u u' x : List α}

theorem feed_cons_wait {xs : List (List α)} (h : parse s (u ++ x) = I.wait s' u') :
    feed I parse s u (x :: xs) = feed I parse s' u' xs := by
  have hask := (I.ask_eq_some _ _ _).mpr h
  rw [feed, hask]

theorem feed_cons_final {xs : List (List α)} (h : I.ask (parse s (u ++ x)) = none) :
    feed I parse s u (x :: xs) = I.leave (parse s (u ++ x)) xs.flatten := by
  rw [feed, h]

/-- A single piece takes a single call. -/
theorem feed_singleton : feed I parse s u [x] = parse s (u ++ x) := by
  cases hask : I.ask (parse s (u ++ x)) with
  | none => rw [feed_cons_final hask, List.flatten_nil, I.leave_nil]
  | some next =>
    have hwait := (I.ask_eq_some _ _ _).mp hask
    rw [feed_cons_wait hwait, hwait]
    rfl

/-- While the outcome waits, the calls go on with what follows. -/
theorem feed_append_wait {xs ys : List (List α)} (h : feed I parse s u xs = I.wait s' u') :
    feed I parse s u (xs ++ ys) = feed I parse s' u' ys := by
  induction xs generalizing s u with
  | nil =>
    have hstart := (I.ask_eq_some _ _ _).mpr h
    rw [show I.ask (feed I parse s u []) = some (s, u) from (I.ask_eq_some _ _ _).mpr rfl] at hstart
    obtain ⟨rfl, rfl⟩ := Prod.mk.inj (Option.some.inj hstart)
    rfl
  | cons x xs ih =>
    cases hask : I.ask (parse s (u ++ x)) with
    | none =>
      rw [feed_cons_final hask] at h
      have hnone := I.ask_leave _ xs.flatten hask
      rw [h, (I.ask_eq_some _ _ _).mpr rfl] at hnone
      cases hnone
    | some next =>
      have hwait := (I.ask_eq_some _ _ _).mp hask
      rw [feed_cons_wait hwait] at h
      rw [List.cons_append, feed_cons_wait hwait]
      exact ih h

/-- Once the outcome is final, what follows is left. -/
theorem feed_append_final {xs ys : List (List α)} (h : I.ask (feed I parse s u xs) = none) :
    feed I parse s u (xs ++ ys) = I.leave (feed I parse s u xs) ys.flatten := by
  induction xs generalizing s u with
  | nil =>
    have hask : I.ask (feed I parse s u []) = some (s, u) := (I.ask_eq_some _ _ _).mpr rfl
    rw [hask] at h
    cases h
  | cons x xs ih =>
    cases hask : I.ask (parse s (u ++ x)) with
    | none =>
      rw [List.cons_append, feed_cons_final hask, feed_cons_final hask, I.leave_leave,
        List.flatten_append]
    | some next =>
      have hwait := (I.ask_eq_some _ _ _).mp hask
      rw [feed_cons_wait hwait] at h
      rw [List.cons_append, feed_cons_wait hwait, feed_cons_wait hwait]
      exact ih h

end Feed

/-! ### Loops that read locally -/

/-- The parser is a loop that reads locally, for inputs of at most `size` elements: what an
    iteration does is not changed by what follows the part that it has looked at.  Final
    outcomes are the same up to `Alike`; where `Bad s x z` they may change when `z` follows
    `x`.  In the states `Last` every iteration is the last one, and may consume what there is. -/
structure Local (I : Outcomes σ α ω) (parse : σ → List α → ω)
    (body : σ × List α → ω ⊕ σ × List α) (size : Nat) (Ready Last : σ → Prop)
    (Alike : ω → ω → Prop) (Bad : σ → List α → List α → Prop) : Prop where
  refl : ∀ o, Alike o o
  trans : ∀ o₁ o₂ o₃, Alike o₁ o₂ → Alike o₂ o₃ → Alike o₁ o₃
  parses : ∀ s x, Ready s → x.length ≤ size → Loop.Ends body (s, x) (parse s x)
  continues : ∀ s x s' x', Ready s → x.length ≤ size → body (s, x) = .inr (s', x') →
    Ready s' ∧ ∃ c, x = c ++ x' ∧ ∀ z, body (s, c ++ z) = .inr (s', z)
  waits : ∀ s x s' u, Ready s → x.length ≤ size → body (s, x) = .inl (I.wait s' u) →
    Ready s' ∧ (s' = s ∧ u = x ∨ Last s' ∧ u.length ≤ x.length ∧
      ∀ z, (x ++ z).length ≤ size →
        ∃ o o', body (s', u ++ z) = .inl o ∧ body (s, x ++ z) = .inl o' ∧ Alike o o')
  ends : ∀ s x z o, Ready s → (x ++ z).length ≤ size → body (s, x) = .inl o →
    I.ask o = none → ¬Bad s x z → ∃ o', body (s, x ++ z) = .inl o' ∧ Alike (I.leave o z) o'
  last : ∀ s x t, Last s → body (s, x) ≠ .inr t
  last_good : ∀ s x z, Last s → ¬Bad s x z

/-- The loop for `x`, with `z` still to come, comes across an exception. -/
def MeetsAt (body : σ × List α → ω ⊕ σ × List α) (Bad : σ → List α → List α → Prop) (s : σ)
    (x z : List α) : Prop :=
  ∃ t y, Loop.Reaches body (s, x) (t, y) ∧ Bad t y z

/-- One of the calls for the pieces comes across an exception. -/
def Meets (body : σ × List α → ω ⊕ σ × List α) (Bad : σ → List α → List α → Prop) (s : σ)
    (pieces : List (List α)) : Prop :=
  ∃ xs ys, pieces = xs ++ ys ∧ MeetsAt body Bad s xs.flatten ys.flatten

namespace Local

variable {I : Outcomes σ α ω} {parse : σ → List α → ω} {body : σ × List α → ω ⊕ σ × List α}
  {size : Nat} {Ready Last : σ → Prop} {Alike : ω → ω → Prop} {Bad : σ → List α → List α → Prop}
  {s s₀ t : σ} {u x y z : List α}

/-- A state in which every iteration is the last one is not left. -/
theorem last_reaches (h : Local I parse body size Ready Last Alike Bad) (hs : Last s)
    {a : σ × List α} (hreaches : Loop.Reaches body (s, x) a) : a = (s, x) := by
  cases hreaches with
  | refl => rfl
  | next hnext _ => exact absurd hnext (h.last s x _ hs)

/-- What the loop has done depends on the part that it has consumed only. -/
theorem reaches_replace (h : Local I parse body size Ready Last Alike Bad) {a b : σ × List α}
    (hreaches : Loop.Reaches body a b) (ha : Ready a.1) (hsize : a.2.length ≤ size) :
    Ready b.1 ∧ ∃ c, a.2 = c ++ b.2 ∧ ∀ z, Loop.Reaches body (a.1, c ++ z) (b.1, z) := by
  induction hreaches with
  | refl => exact ⟨ha, [], rfl, fun z => .refl _⟩
  | @next a a' b hnext _ ih =>
    obtain ⟨s, x⟩ := a
    obtain ⟨s', x'⟩ := a'
    obtain ⟨ha', c, rfl, hc⟩ := h.continues s x s' x' ha hsize hnext
    have hsize' : x'.length ≤ size := by
      rw [List.length_append] at hsize
      omega
    obtain ⟨hb, d, hd, hrest⟩ := ih ha' hsize'
    refine ⟨hb, c ++ d, ?_, fun z => .next ?_ (hrest z)⟩
    · show c ++ x' = c ++ d ++ b.2
      rw [show x' = d ++ b.2 from hd, List.append_assoc]
    · show body (s, c ++ d ++ z) = .inr (s', d ++ z)
      rw [List.append_assoc]
      exact hc (d ++ z)

/-- The last iteration of a call. -/
theorem exists_last (h : Local I parse body size Ready Last Alike Bad) (hs : Ready s)
    (hsize : x.length ≤ size) :
    ∃ t y, Loop.Reaches body (s, x) (t, y) ∧ body (t, y) = .inl (parse s x) ∧ Ready t ∧
      y.length ≤ x.length ∧ ∀ z, Loop.Reaches body (s, x ++ z) (t, y ++ z) := by
  obtain ⟨⟨t, y⟩, hreaches, hdone⟩ := (h.parses s x hs hsize).exists_reaches
  obtain ⟨ht, c, hc, hreplace⟩ := h.reaches_replace hreaches hs hsize
  have hc : x = c ++ y := hc
  have hle : y.length ≤ x.length := by
    rw [hc, List.length_append]
    omega
  refine ⟨t, y, hreaches, hdone, ht, hle, fun z => ?_⟩
  rw [hc, List.append_assoc]
  exact hreplace (y ++ z)

/-- A call ends as its last iteration does. -/
theorem parse_eq (h : Local I parse body size Ready Last Alike Bad) (hs : Ready s)
    (hsize : x.length ≤ size) {a : σ × List α} {o : ω} (hreaches : Loop.Reaches body (s, x) a)
    (hdone : body a = .inl o) : parse s x = o :=
  (h.parses s x hs hsize).unique (hreaches.ends (.done hdone))

/-- The state in which a parser that was fed `fed` waits: from there it goes on as it would go
    on from the start. -/
structure Resumes (I : Outcomes σ α ω) (parse : σ → List α → ω)
    (body : σ × List α → ω ⊕ σ × List α) (size : Nat) (Ready Last : σ → Prop)
    (Alike : ω → ω → Prop) (s₀ : σ) (fed : List α) (s : σ) (u : List α) : Prop where
  ready : Ready s
  left : u.length ≤ fed.length
  alike : ∀ z, (fed ++ z).length ≤ size → Alike (parse s (u ++ z)) (parse s₀ (fed ++ z))
  position : (∀ z, Loop.Reaches body (s₀, fed ++ z) (s, u ++ z)) ∨ Last s

theorem resumes_start (h : Local I parse body size Ready Last Alike Bad) (hs : Ready s₀) :
    Resumes I parse body size Ready Last Alike s₀ [] s₀ [] :=
  ⟨hs, Nat.le_refl 0, fun _ _ => h.refl _, .inl fun _ => .refl _⟩

/-- **One call that waits.** -/
theorem Resumes.wait {fed : List α} (h : Local I parse body size Ready Last Alike Bad)
    (hr : Resumes I parse body size Ready Last Alike s₀ fed s u) (hsize : (fed ++ x).length ≤ size)
    {s' : σ} {u' : List α} (hwait : parse s (u ++ x) = I.wait s' u') :
    Resumes I parse body size Ready Last Alike s₀ (fed ++ x) s' u' := by
  have hlength := hr.left
  have hux : (u ++ x).length ≤ (fed ++ x).length := by
    simp only [List.length_append]
    omega
  obtain ⟨t, y, hreaches, hdone, ht, hle, happend⟩ :=
    h.exists_last hr.ready (Nat.le_trans hux hsize)
  rw [hwait] at hdone
  obtain ⟨hs', hcases⟩ := h.waits t y s' u' ht (by omega) hdone
  -- a call in the state `s'` ends as the call that had all of the input
  have hcall : ∀ z, (fed ++ x ++ z).length ≤ size →
      u'.length ≤ (u ++ x).length ∧ Alike (parse s' (u' ++ z)) (parse s (u ++ x ++ z)) := by
    intro z hz
    have huxz : (u ++ x ++ z).length ≤ size := by
      simp only [List.length_append] at hz hux ⊢
      omega
    rcases hcases with ⟨rfl, rfl⟩ | ⟨_, hu', hsame⟩
    · have hsz : (u' ++ z).length ≤ size := by
        simp only [List.length_append] at huxz hle ⊢
        omega
      have hends := (happend z).ends (h.parses s' (u' ++ z) hs' hsz)
      rw [(h.parses s (u ++ x ++ z) hr.ready huxz).unique hends]
      exact ⟨hle, h.refl _⟩
    · have hyz : (y ++ z).length ≤ size := by
        simp only [List.length_append] at huxz hle ⊢
        omega
      have hsz : (u' ++ z).length ≤ size := by
        simp only [List.length_append] at hyz ⊢
        omega
      obtain ⟨o, o', ho, ho', halike⟩ := hsame z hyz
      rw [h.parse_eq hs' hsz (.refl _) ho, h.parse_eq hr.ready huxz (happend z) ho']
      exact ⟨by omega, halike⟩
  refine ⟨hs', ?_, fun z hz => ?_, ?_⟩
  · have hle' := (hcall [] (by simpa using hsize)).1
    omega
  · have hold := hr.alike (x ++ z) (by rw [← List.append_assoc]; exact hz)
    rw [← List.append_assoc, ← List.append_assoc] at hold
    exact h.trans _ _ _ (hcall z hz).2 hold
  · rcases hcases with ⟨rfl, rfl⟩ | ⟨hlast, _⟩
    · rcases hr.position with hposition | hlast
      · refine .inl fun z => ?_
        have hfirst := hposition (x ++ z)
        rw [← List.append_assoc, ← List.append_assoc] at hfirst
        exact hfirst.trans (happend z)
      · obtain ⟨rfl, _⟩ := Prod.mk.inj (h.last_reaches hlast hreaches)
        exact .inr hlast
    · exact .inr hlast

/-- **One call that is final**, where no exception is met. -/
theorem Resumes.final {fed : List α} (h : Local I parse body size Ready Last Alike Bad)
    (hr : Resumes I parse body size Ready Last Alike s₀ fed s u)
    (hsize : (fed ++ x ++ z).length ≤ size)
    (hfinal : I.ask (parse s (u ++ x)) = none) (hmeets : ¬MeetsAt body Bad s₀ (fed ++ x) z) :
    Alike (I.leave (parse s (u ++ x)) z) (parse s₀ (fed ++ x ++ z)) := by
  have hlength := hr.left
  have huxz : (u ++ x ++ z).length ≤ size := by
    simp only [List.length_append] at hsize ⊢
    omega
  have hux : (u ++ x).length ≤ size := by
    simp only [List.length_append] at huxz ⊢
    omega
  obtain ⟨t, y, hreaches, hdone, ht, hle, happend⟩ := h.exists_last hr.ready hux
  have hgood : ¬Bad t y z := by
    intro hbad
    rcases hr.position with hposition | hlast
    · exact hmeets ⟨t, y, (hposition x).trans hreaches, hbad⟩
    · obtain ⟨rfl, rfl⟩ := Prod.mk.inj (h.last_reaches hlast hreaches)
      exact h.last_good _ _ _ hlast hbad
  have hyz : (y ++ z).length ≤ size := by
    simp only [List.length_append] at huxz hle ⊢
    omega
  obtain ⟨o', ho', halike⟩ := h.ends t y z _ ht hyz hdone hfinal hgood
  have hcall := h.parse_eq hr.ready huxz (happend z) ho'
  have hold := hr.alike (x ++ z) (by rw [← List.append_assoc]; exact hsize)
  rw [← List.append_assoc, ← List.append_assoc, hcall] at hold
  exact h.trans _ _ _ halike hold

theorem feed_alike_from (h : Local I parse body size Ready Last Alike Bad) {pieces : List (List α)}
    {fed : List α} (hr : Resumes I parse body size Ready Last Alike s₀ fed s u)
    (hpieces : pieces ≠ []) (hsize : (fed ++ pieces.flatten).length ≤ size)
    (hmeets : ∀ xs ys, pieces = xs ++ ys → ¬MeetsAt body Bad s₀ (fed ++ xs.flatten) ys.flatten) :
    Alike (feed I parse s u pieces) (parse s₀ (fed ++ pieces.flatten)) := by
  induction pieces generalizing fed s u with
  | nil => exact absurd rfl hpieces
  | cons x xs ih =>
    rw [List.flatten_cons, ← List.append_assoc] at hsize ⊢
    have hx : (fed ++ x).length ≤ size := by
      rw [List.length_append] at hsize
      omega
    cases hask : I.ask (parse s (u ++ x)) with
    -- this piece has the outcome: the invariant compares it with the whole
    | none =>
      rw [feed_cons_final hask]
      refine hr.final h hsize hask ?_
      have hhere := hmeets [x] xs rfl
      rw [List.flatten_singleton] at hhere
      exact hhere
    | some next =>
      obtain ⟨s', u'⟩ := next
      have hwait := (I.ask_eq_some _ _ _).mp hask
      have hr' := hr.wait h hx hwait
      rw [feed_cons_wait hwait]
      by_cases hxs : xs = []
      · -- the last piece: the outcome is that of the call itself
        subst hxs
        show Alike (I.wait s' u') (parse s₀ (fed ++ x ++ []))
        rw [← hwait, List.append_nil]
        exact hr.alike x hx
      · -- a fault met later is met in the whole as well
        refine ih hr' hxs hsize fun ys zs heq => ?_
        have hlater := hmeets (x :: ys) zs (by rw [heq]; rfl)
        rw [List.flatten_cons, ← List.append_assoc] at hlater
        exact hlater

/-- **The pieces do not matter** where no exception is met. -/
theorem feed_alike (h : Local I parse body size Ready Last Alike Bad) {pieces : List (List α)}
    (hs : Ready s₀) (hempty : parse s₀ [] = I.wait s₀ []) (hsize : pieces.flatten.length ≤ size)
    (hmeets : ¬Meets body Bad s₀ pieces) :
    Alike (feed I parse s₀ [] pieces) (parse s₀ pieces.flatten) := by
  by_cases hpieces : pieces = []
  · subst hpieces
    show Alike (I.wait s₀ []) (parse s₀ [])
    rw [hempty]
    exact h.refl _
  · exact h.feed_alike_from (h.resumes_start hs) hpieces hsize
      fun xs ys heq hmeet => hmeets ⟨xs, ys, heq, hmeet⟩

section Exceptions

variable {P : ω → Prop}

/-- The shortest list of pieces that comes to an exception ends with the outcome there. -/
theorem feed_of_meetsAt (h : Local I parse body size Ready Last Alike Bad)
    (hbad : ∀ t y z, Bad t y z → z ≠ [] ∧ ∃ o, body (t, y) = .inl o ∧ P o)
    (hfinal : ∀ o, P o → I.ask o = none) (halike : ∀ o o', Alike o o' → P o' → P o)
    (hleave : ∀ o z, P o → P (I.leave o z)) (hs : Ready s₀) (hempty : parse s₀ [] = I.wait s₀ [])
    (n : Nat) {pieces : List (List α)} (hn : pieces.length ≤ n)
    (hsize : pieces.flatten.length ≤ size) (hmeets : MeetsAt body Bad s₀ pieces.flatten z) :
    P (feed I parse s₀ [] pieces) := by
  induction n generalizing pieces z with
  | zero =>
    -- nothing is fed, and an exception needs something to read
    obtain rfl := List.length_eq_zero_iff.mp (Nat.le_zero.mp hn)
    obtain ⟨t, y, hreaches, hb⟩ := hmeets
    obtain ⟨_, o, hdone, ho⟩ := hbad t y z hb
    have hcall := h.parse_eq hs hsize hreaches hdone
    have hwait : I.ask (I.wait s₀ []) = some (s₀, []) := (I.ask_eq_some _ _ _).mpr rfl
    rw [List.flatten_nil, hempty] at hcall
    rw [hcall, hfinal o ho] at hwait
    cases hwait
  | succ n ih =>
    by_cases hearlier : Meets body Bad s₀ pieces
    · obtain ⟨xs, ys, rfl, hmeet⟩ := hearlier
      have hys : ys ≠ [] := by
        rintro rfl
        obtain ⟨t, y, _, hb⟩ := hmeet
        exact (hbad t y _ hb).1 rfl
      have hlength : xs.length ≤ n := by
        have hpos := List.length_pos_iff.mpr hys
        rw [List.length_append] at hn
        omega
      rw [List.flatten_append, List.length_append] at hsize
      have hP := ih hlength (by omega) hmeet
      rw [feed_append_final (hfinal _ hP)]
      exact hleave _ _ hP
    · obtain ⟨t, y, hreaches, hb⟩ := hmeets
      obtain ⟨_, o, hdone, ho⟩ := hbad t y z hb
      have hcall := h.parse_eq hs hsize hreaches hdone
      exact halike _ _ (h.feed_alike hs hempty hsize hearlier) (hcall ▸ ho)

/-- **Exceptions.**  When an iteration that is an exception ends with an outcome of the kind `P`,
    meeting one gives such an outcome. -/
theorem feed_of_meets (h : Local I parse body size Ready Last Alike Bad)
    (hbad : ∀ t y z, Bad t y z → z ≠ [] ∧ ∃ o, body (t, y) = .inl o ∧ P o)
    (hfinal : ∀ o, P o → I.ask o = none) (halike : ∀ o o', Alike o o' → P o' → P o)
    (hleave : ∀ o z, P o → P (I.leave o z)) (hs : Ready s₀) (hempty : parse s₀ [] = I.wait s₀ [])
    {pieces : List (List α)} (hsize : pieces.flatten.length ≤ size)
    (hmeets : Meets body Bad s₀ pieces) : P (feed I parse s₀ [] pieces) := by
  obtain ⟨xs, ys, rfl, hmeet⟩ := hmeets
  rw [List.flatten_append, List.length_append] at hsize
  have hP := h.feed_of_meetsAt hbad hfinal halike hleave hs hempty xs.length (Nat.le_refl _)
    (by omega) hmeet
  rw [feed_append_final (hfinal _ hP)]
  exact hleave _ _ hP

end Exceptions

end Local
end Incremental
