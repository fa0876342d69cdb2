import Mathlib.Tactic

set_option autoImplicit false

/-! # Token buckets

A token bucket over the natural numbers, seen from outside: a charge may first credit tokens,
at most `rate` for each unit of time since the last charge and never above `capacity`, then
takes its cost, and conforms if more than `level` tokens are left. How much less than that an
implementation credits (because of saturation, or of a clock that wraps) is its own business:
the bound at the end holds for all of them.
-/

namespace TokenBucket

/-- The parameters of a bucket. -/
structure Meter where
  rate : ℕ
  capacity : ℕ
  level : ℕ

/-- A bucket: its tokens, and the time of its last charge. -/
structure Bucket where
  tokens : ℕ
  last : ℕ

/-- A charge as its caller sees it: time, cost and verdict. -/
structure Charge where
  time : ℕ
  cost : ℕ
  passed : Bool

/-- The charge `c` takes the bucket `b` to `b'`. -/
structure Charged (m : Meter) (b : Bucket) (c : Charge) (b' : Bucket) : Prop where
  last : b'.last = c.time
  passed : c.passed = decide (m.level < b'.tokens)
  filled : ∃ f, f ≤ m.capacity ∧ f ≤ b.tokens + m.rate * (c.time - b.last) ∧
    b'.tokens = f - c.cost

/-- A sequence of charges, at times that do not decrease. -/
inductive Run (m : Meter) : Bucket → List Charge → Bucket → Prop where
  | nil (b : Bucket) : Run m b [] b
  | cons {b b' b'' : Bucket} {c : Charge} {cs : List Charge} (htime : b.last ≤ c.time)
      (hc : Charged m b c b') (hcs : Run m b' cs b'') : Run m b (c :: cs) b''

/-- What the charges that conformed have cost. -/
def passedCost : List Charge → ℕ
  | [] => 0
  | c :: cs => (if c.passed then c.cost else 0) + passedCost cs

theorem passedCost_eq_zero {cs : List Charge} (h : ∀ c ∈ cs, ¬ c.passed = true) :
    passedCost cs = 0 := by
  induction cs with
  | nil => rfl
  | cons c cs ih =>
      rw [passedCost, if_neg (h c (by simp)), ih fun d hd => h d (List.mem_cons_of_mem c hd)]

theorem passedCost_append (cs ds : List Charge) :
    passedCost (cs ++ ds) = passedCost cs + passedCost ds := by
  induction cs with
  | nil => simp [passedCost]
  | cons c cs ih =>
      simp only [List.cons_append, passedCost, ih]
      omega

variable {m : Meter}

theorem Charged.tokens_le {b b' : Bucket} {c : Charge} (h : Charged m b c b') :
    b'.tokens ≤ m.capacity := by
  obtain ⟨f, hcap, -, htok⟩ := h.filled
  omega

theorem Charged.level_lt {b b' : Bucket} {c : Charge} (h : Charged m b c b')
    (hp : c.passed = true) : m.level < b'.tokens := by
  have hdec := h.passed
  rw [hp] at hdec
  exact of_decide_eq_true hdec.symm

/-- A charge that conforms is paid in full: the tokens before it cover its cost and `level`. -/
theorem Charged.paid {b b' : Bucket} {c : Charge} (h : Charged m b c b') :
    (if c.passed then c.cost else 0) + b'.tokens ≤ m.capacity
    ∧ (if c.passed then c.cost else 0) + b'.tokens
        ≤ b.tokens + m.rate * (c.time - b.last) := by
  obtain ⟨f, hcap, hrate, htok⟩ := h.filled
  by_cases hp : c.passed = true
  · have hlevel := h.level_lt hp
    rw [if_pos hp]
    omega
  · rw [if_neg hp]
    omega

theorem Run.last_le {b b' : Bucket} {cs : List Charge} (h : Run m b cs b') :
    b.last ≤ b'.last := by
  induction h with
  | nil b => exact Nat.le_refl _
  | cons htime hc hcs ih =>
      have hlast := hc.last
      omega

theorem Run.tokens_le {b b' : Bucket} {cs : List Charge} (h : Run m b cs b')
    (hb : b.tokens ≤ m.capacity) : b'.tokens ≤ m.capacity := by
  induction h with
  | nil b => exact hb
  | cons htime hc hcs ih => exact ih hc.tokens_le

/-- Time credits add up. -/
theorem rate_add (r : ℕ) {t u v : ℕ} (htu : t ≤ u) (huv : u ≤ v) :
    r * (u - t) + r * (v - u) = r * (v - t) := by
  rw [← Nat.mul_add]
  congr 1
  omega

/-- **What conforms is paid out of the tokens at hand and the credits of the elapsed time.**
What is left over stays in the bucket. -/
theorem Run.passedCost_le {b b' : Bucket} {cs : List Charge} (h : Run m b cs b') :
    passedCost cs + b'.tokens ≤ b.tokens + m.rate * (b'.last - b.last) := by
  induction h with
  | nil b => simp [passedCost]
  | @cons b b₁ b₂ c cs htime hc hcs ih =>
      have hpaid := hc.paid.2
      have hadd := rate_add m.rate (hc.last ▸ htime) hcs.last_le
      rw [← hc.last] at hpaid
      calc passedCost (c :: cs) + b₂.tokens
          = (if c.passed then c.cost else 0) + (passedCost cs + b₂.tokens) := by
            simp only [passedCost]
            omega
        _ ≤ (if c.passed then c.cost else 0) + (b₁.tokens + m.rate * (b₂.last - b₁.last)) := by
            omega
        _ ≤ b.tokens + m.rate * (b₁.last - b.last) + m.rate * (b₂.last - b₁.last) := by
            omega
        _ = b.tokens + m.rate * (b₂.last - b.last) := by omega

/-- Once a charge has conformed, `level` tokens more than all that conformed were there. -/
theorem Run.passedCost_lt {b b' : Bucket} {cs : List Charge} (h : Run m b cs b')
    (hsome : ∃ c ∈ cs, c.passed = true) :
    passedCost cs + m.level < b.tokens + m.rate * (b'.last - b.last) := by
  induction h with
  | nil b =>
      obtain ⟨c, hc, -⟩ := hsome
      simp at hc
  | @cons b b₁ b₂ c cs htime hc hcs ih =>
      have hpaid := hc.paid.2
      have hadd := rate_add m.rate (hc.last ▸ htime) hcs.last_le
      rw [← hc.last] at hpaid
      simp only [passedCost]
      by_cases hrest : ∃ d ∈ cs, d.passed = true
      · -- A later charge conforms, so the bound of the rest is the sharper one.
        have hlt := ih hrest
        omega
      · -- The first charge is the last that conforms: nothing of the rest counts.
        have hzero : passedCost cs = 0 :=
          passedCost_eq_zero fun d hd hdp => hrest ⟨d, hd, hdp⟩
        have hp : c.passed = true := by
          obtain ⟨d, hd, hdp⟩ := hsome
          rcases List.mem_cons.mp hd with rfl | hd
          · exact hdp
          · exact absurd ⟨d, hd, hdp⟩ hrest
        have hlevel := hc.level_lt hp
        rw [hzero]
        omega

/-- A run from a bucket is, after its first charge, a run from a bucket filled at the time of
that charge. -/
theorem Run.refilled {b b' : Bucket} {c : Charge} {cs : List Charge} (h : Run m b (c :: cs) b') :
    Run m ⟨m.capacity, c.time⟩ (c :: cs) b' := by
  cases h with
  | cons htime hc hcs =>
      obtain ⟨f, hcap, -, htok⟩ := hc.filled
      refine .cons (Nat.le_refl _) ⟨hc.last, hc.passed, f, hcap, ?_, htok⟩ hcs
      show f ≤ m.capacity + m.rate * (c.time - c.time)
      omega

/-- **The conformance bound.** Whatever the bucket held, the charges of a run that conformed
cost at most its capacity and the credits between the first charge and the last, and less
than that by `level` if there are any. -/
theorem Run.conformance {b b' : Bucket} {c : Charge} {cs : List Charge}
    (h : Run m b (c :: cs) b') :
    passedCost (c :: cs) ≤ m.capacity + m.rate * (b'.last - c.time)
    ∧ ((∃ d ∈ c :: cs, d.passed = true) →
        passedCost (c :: cs) + m.level < m.capacity + m.rate * (b'.last - c.time)) := by
  have hrun := h.refilled
  refine ⟨?_, fun hsome => hrun.passedCost_lt hsome⟩
  have hle := hrun.passedCost_le
  exact Nat.le_trans (Nat.le_add_right _ _) hle

end TokenBucket
