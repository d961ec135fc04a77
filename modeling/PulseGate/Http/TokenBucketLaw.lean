import PulseGate.Http.RateLimiterBound

namespace PulseGate

/-!
# The law of a token bucket

A bucket under any calls of `allow` and `retryAfter`, at any time points.  The potential
`availableTokens` grows with `lastRefill` only, at the rate of the bucket, and pays for every
token that is granted (`potential_step`); so between two calls a bucket grants no more than its
burst and what it gained (`token_bucket_law`).

A call at an earlier time point than the last one refills nothing.  As long as time does not go
back, a refill on the way to a later one changes nothing (`refill_refill`), and so the calls of
`retryAfter` leave the answers of `allow` as they are.
-/

/-- A call on a bucket. -/
inductive BucketCall
  | allow (tokens : ℚ) (now : Int)
  | retryAfter (tokens : ℚ) (now : Int)
  deriving DecidableEq, Repr

namespace BucketCall

def now : BucketCall → Int
  | .allow _ now | .retryAfter _ now => now

def isAllow : BucketCall → Bool
  | .allow .. => true
  | .retryAfter .. => false

end BucketCall

namespace TokenBucket

/-! ### Calls -/

/-- The bucket after a call; one that throws leaves it as it was. -/
def after (b : TokenBucket) : BucketCall → TokenBucket
  | .allow tokens now =>
    match b.allow tokens now with
    | .ok (_, b') => b'
    | .error _ => b
  | .retryAfter tokens now =>
    match b.retryAfter tokens now with
    | .ok (_, b') => b'
    | .error _ => b

/-- The tokens a call is granted. -/
def tokensOf (b : TokenBucket) : BucketCall → ℚ
  | .allow tokens now =>
    match b.allow tokens now with
    | .ok (true, _) => tokens
    | _ => 0
  | .retryAfter .. => 0

/-- The bucket after some calls. -/
def afterAll (b : TokenBucket) (calls : List BucketCall) : TokenBucket := calls.foldl after b

/-- The tokens they are granted. -/
def granted (b : TokenBucket) : List BucketCall → ℚ
  | [] => 0
  | c :: calls => b.tokensOf c + (b.after c).granted calls

/-- The answers of the calls of `allow`. -/
def answers (b : TokenBucket) : List BucketCall → List (Except Exception Bool)
  | [] => []
  | .allow tokens now :: calls =>
    (b.allow tokens now).map Prod.fst :: (b.after (.allow tokens now)).answers calls
  | .retryAfter tokens now :: calls => (b.after (.retryAfter tokens now)).answers calls

/-! ### What a refill does -/

variable {b b' : TokenBucket} {now : Int}

/-- A bucket holds between none and all of its tokens. -/
structure Within (b : TokenBucket) : Prop where
  rate : 0 < b.ratePerSecond
  nonneg : 0 ≤ b.availableTokens
  le : b.availableTokens ≤ b.capacity

theorem lastRefill_le_refill (b : TokenBucket) (now : Int) :
    b.lastRefill ≤ (b.refill now).lastRefill := by
  unfold refill
  split
  · exact le_refl _
  · next hlater => exact (not_le.mp hlater).le

/-- What has been gained since the last refill. -/
theorem gain_nonneg (h : b.Within) {u v : Int} (huv : u ≤ v) :
    0 ≤ (seconds v - seconds u) * b.ratePerSecond := by
  have hseconds := RateLimiter.seconds_le_iff.mpr huv
  exact mul_nonneg (sub_nonneg.mpr hseconds) h.rate.le

theorem Within.refill (h : b.Within) (now : Int) : (b.refill now).Within := by
  refine ⟨by rw [refill_ratePerSecond]; exact h.rate, ?_, ?_⟩
  · unfold TokenBucket.refill
    split
    · exact h.nonneg
    · next hlater =>
      have hgain := gain_nonneg h (not_le.mp hlater).le
      have hcapacity := h.nonneg.trans h.le
      have htokens := h.nonneg
      rw [← RateLimiter.seconds_sub] at hgain
      exact le_min hcapacity (by linarith)
  · rw [refill_capacity]
    unfold TokenBucket.refill
    split
    · exact h.le
    · exact min_le_left _ _

theorem refill_potential (b : TokenBucket) (now : Int) :
    (b.refill now).availableTokens ≤ b.availableTokens +
      (seconds (b.refill now).lastRefill - seconds b.lastRefill) * b.ratePerSecond := by
  unfold TokenBucket.refill
  split
  · simp
  · rw [← RateLimiter.seconds_sub]
    exact min_le_right _ _

theorem refill_eq (h : b.Within) (hnow : b.lastRefill ≤ now) :
    b.refill now =
      { b with
        availableTokens := min b.capacity
          (b.availableTokens + (seconds now - seconds b.lastRefill) * b.ratePerSecond),
        lastRefill := now } := by
  rw [← RateLimiter.seconds_sub, ← RateLimiter.refill_availableTokens h.le hnow]
  have hlast := RateLimiter.refill_lastRefill hnow
  have hrate := refill_ratePerSecond b now
  have hcapacity := refill_capacity b now
  cases hrefilled : b.refill now with
  | mk rate capacity tokens last =>
    rw [hrefilled] at hlast hrate hcapacity
    simp only at hlast hrate hcapacity
    rw [hlast, hrate, hcapacity]

/-- A refill on the way to a later one changes nothing. -/
theorem refill_refill (h : b.Within) {u v : Int} (huv : u ≤ v) :
    (b.refill u).refill v = b.refill v := by
  by_cases hu : u ≤ b.lastRefill
  · rw [refill_of_le hu]
  have hu : b.lastRefill ≤ u := (not_le.mp hu).le
  have hlast : (b.refill u).lastRefill = u := RateLimiter.refill_lastRefill hu
  have hgain := gain_nonneg h huv
  rw [refill_eq (h.refill u) (hlast.trans_le huv), refill_eq h (hu.trans huv), refill_eq h hu]
  simp only [mk.injEq, true_and, and_true]
  -- the cap of the first refill is lost in that of the second
  rcases le_total b.capacity
      (b.availableTokens + (seconds u - seconds b.lastRefill) * b.ratePerSecond) with hfull | hroom
  · rw [min_eq_left hfull, min_eq_left (by linarith), min_eq_left (by linarith)]
  · rw [min_eq_right hroom]
    congr 1
    ring

/-! ### What a call does -/

theorem tokensOf_nonneg (b : TokenBucket) (c : BucketCall) : 0 ≤ b.tokensOf c := by
  cases c with
  | allow tokens now =>
    simp only [tokensOf]
    split
    · next hallow =>
      unfold TokenBucket.allow at hallow
      split at hallow
      · cases hallow
      · next hpositive => exact (not_le.mp hpositive).le
    · exact le_refl 0
  | retryAfter tokens now => exact le_refl 0

theorem delay_snd (b : TokenBucket) (tokens : ℚ) (now : Int) :
    (b.delay tokens now).2 = b.refill now := by
  unfold delay
  dsimp only
  split <;> rfl

/-- The bucket after a call is as it was, or refilled, and then without what was granted. -/
inductive CallStep (b : TokenBucket) (c : BucketCall) (b' : TokenBucket) (tokens : ℚ) : Prop
  | thrown (after : b' = b) (granted : tokens = 0)
  | refused (after : b' = b.refill c.now) (granted : tokens = 0)
  | granted (le : tokens ≤ (b.refill c.now).availableTokens)
      (after : b' = { b.refill c.now with
        availableTokens := (b.refill c.now).availableTokens - tokens })

theorem call_step (b : TokenBucket) (c : BucketCall) :
    b.CallStep c (b.after c) (b.tokensOf c) := by
  cases c with
  | allow tokens now =>
    unfold after tokensOf allow
    by_cases hthrows : tokens ≤ 0
    · simp only [if_pos hthrows]
      exact .thrown rfl rfl
    · simp only [if_neg hthrows, grant_eq]
      by_cases hshort : (b.refill now).availableTokens < tokens
      · simp only [if_pos hshort]
        exact .refused rfl rfl
      · simp only [if_neg hshort]
        exact .granted (not_lt.mp hshort) rfl
  | retryAfter tokens now =>
    unfold after tokensOf retryAfter
    by_cases hthrows : tokens ≤ 0
    · simp only [if_pos hthrows]
      exact .thrown rfl rfl
    · simp only [if_neg hthrows]
      exact .refused (delay_snd b tokens now) rfl

/-- **Step lemma.** A call keeps the bucket within its bounds, and what it grants is paid from
    the potential. -/
theorem potential_step (h : b.Within) (c : BucketCall) :
    (b.after c).Within ∧ (b.after c).capacity = b.capacity ∧
      (b.after c).ratePerSecond = b.ratePerSecond ∧ b.lastRefill ≤ (b.after c).lastRefill ∧
      (b.after c).availableTokens + b.tokensOf c ≤ b.availableTokens +
        (seconds (b.after c).lastRefill - seconds b.lastRefill) * b.ratePerSecond := by
  have hrefilled := h.refill c.now
  have hlast := lastRefill_le_refill b c.now
  have hpotential := refill_potential b c.now
  have htokens := tokensOf_nonneg b c
  -- a grant takes from the bucket what it gives
  cases call_step b c with
  | thrown hafter hgranted =>
    rw [hafter, hgranted]
    exact ⟨h, rfl, rfl, le_refl _, by simp⟩
  | refused hafter hgranted =>
    rw [hafter, hgranted, add_zero]
    exact ⟨hrefilled, refill_capacity b c.now, refill_ratePerSecond b c.now, hlast, hpotential⟩
  | granted hle hafter =>
    rw [hafter]
    refine ⟨⟨hrefilled.rate, sub_nonneg.mpr hle, ?_⟩, refill_capacity b c.now,
      refill_ratePerSecond b c.now, hlast, ?_⟩
    · have hcapacity := hrefilled.le
      show _ - _ ≤ _
      linarith
    · show _ - _ + _ ≤ _
      linarith

/-! ### Any calls -/

/-- **Run lemma.** -/
theorem potential_run (h : b.Within) (calls : List BucketCall) :
    (b.afterAll calls).Within ∧ (b.afterAll calls).capacity = b.capacity ∧
      b.lastRefill ≤ (b.afterAll calls).lastRefill ∧
      (b.afterAll calls).availableTokens + b.granted calls ≤ b.availableTokens +
        (seconds (b.afterAll calls).lastRefill - seconds b.lastRefill) * b.ratePerSecond := by
  induction calls generalizing b with
  | nil => exact ⟨h, rfl, le_refl _, by simp [afterAll, granted]⟩
  | cons c calls ih =>
    obtain ⟨hwithin, hcapacity, hrate, hlast, hpaid⟩ := potential_step h c
    obtain ⟨hwithin', hcapacity', hlast', hpaid'⟩ := ih hwithin
    refine ⟨hwithin', hcapacity'.trans hcapacity, hlast.trans hlast', ?_⟩
    rw [hrate] at hpaid'
    show ((b.after c).afterAll calls).availableTokens +
        (b.tokensOf c + (b.after c).granted calls) ≤ b.availableTokens +
          (seconds ((b.after c).afterAll calls).lastRefill - seconds b.lastRefill) *
            b.ratePerSecond
    linarith

/-! ### The calls of `retryAfter` -/

/-- Two buckets that are the same once they are refilled. -/
def SameFrom (t : Int) (b b' : TokenBucket) : Prop := ∀ now, t ≤ now → b.refill now = b'.refill now

theorem SameFrom.allow (h : SameFrom now b b') (tokens : ℚ) :
    (b.allow tokens now).map Prod.fst = (b'.allow tokens now).map Prod.fst ∧
      SameFrom now (b.after (.allow tokens now)) (b'.after (.allow tokens now)) := by
  unfold TokenBucket.after TokenBucket.allow
  by_cases hthrows : tokens ≤ 0
  · simp only [if_pos hthrows]
    exact ⟨trivial, h⟩
  · simp only [if_neg hthrows, grant_eq, h now le_rfl]
    exact ⟨trivial, fun _ _ => rfl⟩

theorem SameFrom.retryAfter (h : SameFrom now b b') (hwithin : b.Within) (tokens : ℚ) :
    SameFrom now (b.after (.retryAfter tokens now)) b' := by
  unfold TokenBucket.after TokenBucket.retryAfter
  by_cases hthrows : tokens ≤ 0
  · simp only [if_pos hthrows]
    exact h
  · simp only [if_neg hthrows, delay_snd]
    intro later hlater
    rw [refill_refill hwithin hlater]
    exact h later hlater

theorem SameFrom.later {u v : Int} (h : SameFrom u b b') (huv : u ≤ v) : SameFrom v b b' :=
  fun now hnow => h now (huv.trans hnow)

theorem answers_filter (h : b.Within) (calls : List BucketCall)
    (hsorted : (calls.map BucketCall.now).Pairwise (· ≤ ·)) {t : Int}
    (hpast : ∀ c ∈ calls, t ≤ c.now) (hsame : SameFrom t b b') :
    b.answers calls = b'.answers (calls.filter BucketCall.isAllow) := by
  induction calls generalizing b b' t with
  | nil => rfl
  | cons c calls ih =>
    rw [List.map_cons, List.pairwise_cons] at hsorted
    have hlater : ∀ d ∈ calls, c.now ≤ d.now := fun d hd =>
      hsorted.1 d.now (List.mem_map_of_mem hd)
    have hnow := hsame.later (hpast c List.mem_cons_self)
    have hwithin := (potential_step h c).1
    cases c with
    | allow tokens now =>
      have hsame' : SameFrom now b b' := hnow
      obtain ⟨hanswer, hafter⟩ := hsame'.allow tokens
      show _ :: _ = _ :: _
      rw [hanswer, ih hwithin hsorted.2 hlater hafter]
    | retryAfter tokens now => exact ih hwithin hsorted.2 hlater (hnow.retryAfter h tokens)

/-! ### The law -/

theorem create_within {ratePerSecond burst : ℚ} {initialTime : Int}
    (h : create ratePerSecond burst initialTime = .ok b) :
    b.Within ∧ b.capacity = burst ∧ b.ratePerSecond = ratePerSecond := by
  unfold create at h
  split at h
  · cases h
  · next hpositive =>
    obtain rfl := Except.ok.inj h
    rw [not_or, not_le, not_le] at hpositive
    exact ⟨⟨hpositive.1, hpositive.2.le, le_refl _⟩, rfl, rfl⟩

theorem afterAll_append (b : TokenBucket) (calls calls' : List BucketCall) :
    b.afterAll (calls ++ calls') = (b.afterAll calls).afterAll calls' :=
  List.foldl_append

theorem afterAll_ratePerSecond (h : b.Within) (calls : List BucketCall) :
    (b.afterAll calls).ratePerSecond = b.ratePerSecond := by
  induction calls generalizing b with
  | nil => rfl
  | cons c calls ih =>
    obtain ⟨hwithin, -, hrate, -⟩ := potential_step h c
    exact (ih hwithin).trans hrate

/-- **The token bucket law.** After any calls a bucket holds between none and all of its tokens;
further calls move its last refill forwards only, and are granted at most its burst and what it
gained meanwhile.  Where time does not go back, the calls of `retryAfter` have no influence on
the answers of `allow`. -/
theorem token_bucket_law {ratePerSecond burst : ℚ} {initialTime : Int}
    (hcreate : create ratePerSecond burst initialTime = .ok b)
    (calls calls' : List BucketCall) :
    (0 ≤ (b.afterAll calls).availableTokens ∧ (b.afterAll calls).availableTokens ≤ burst) ∧
    (b.afterAll calls).lastRefill ≤ (b.afterAll (calls ++ calls')).lastRefill ∧
    (b.afterAll calls).granted calls' ≤ burst +
      (seconds (b.afterAll (calls ++ calls')).lastRefill - seconds (b.afterAll calls).lastRefill) *
        ratePerSecond ∧
    ((calls.map BucketCall.now).Pairwise (· ≤ ·) →
      b.answers calls = b.answers (calls.filter BucketCall.isAllow)) := by
  obtain ⟨hwithin, hcapacity, hrate⟩ := create_within hcreate
  -- the potential over the first calls, and from there over the others
  obtain ⟨hbefore, hcapacity', -⟩ := potential_run hwithin calls
  obtain ⟨hafter, -, hlast, hpaid⟩ := potential_run hbefore calls'
  have hburst : (b.afterAll calls).availableTokens ≤ burst := by
    rw [← hcapacity, ← hcapacity']
    exact hbefore.le
  rw [← afterAll_append] at hafter hlast hpaid
  rw [afterAll_ratePerSecond hwithin, hrate] at hpaid
  refine ⟨⟨hbefore.nonneg, hburst⟩, hlast, ?_, fun hsorted => ?_⟩
  · have hleft := hafter.nonneg
    linarith
  · cases calls with
    | nil => rfl
    | cons c calls =>
      refine answers_filter hwithin (c :: calls) hsorted (t := c.now) ?_ fun _ _ => rfl
      intro d hd
      rcases List.mem_cons.mp hd with rfl | hd
      · exact le_refl _
      · rw [List.map_cons, List.pairwise_cons] at hsorted
        exact hsorted.1 d.now (List.mem_map_of_mem hd)

/-- A bucket of three tokens that gains two a second, and calls half a second apart. -/
theorem token_bucket_law_threeTokens :
    ∃ b, create 2 3 0 = .ok b ∧
      (0 ≤ (b.afterAll [.allow 3 0, .retryAfter 1 500000000]).availableTokens ∧
        (b.afterAll [.allow 3 0, .retryAfter 1 500000000]).availableTokens ≤ 3) ∧
      (b.afterAll [.allow 3 0, .retryAfter 1 500000000]).granted [.allow 1 500000000] ≤ 3 ∧
      b.answers [.allow 3 0, .retryAfter 1 500000000] = b.answers [.allow 3 0] := by
  obtain ⟨b, hcreate⟩ : ∃ b, create 2 3 0 = .ok b := ⟨_, rfl⟩
  obtain ⟨hbounds, -, hgranted, hanswers⟩ := token_bucket_law hcreate
    [.allow 3 0, .retryAfter 1 500000000] [.allow 1 500000000]
  refine ⟨b, hcreate, hbounds, ?_, hanswers (by decide)⟩
  obtain rfl := Except.ok.inj hcreate
  refine hgranted.trans (le_of_eq ?_)
  decide +kernel

end TokenBucket
end PulseGate
