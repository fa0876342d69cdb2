import Ntfw.Ntfe.Engine
import Ntfw.Lib.Saturating
import Ntfw.Lib.TokenBucket

set_option autoImplicit false

/-! # Traffic policing

`token_bucket_charge` runs on 32-bit words and on the low 32 bits of a millisecond clock. Here
the clock is a natural number. As long as the times a bucket is charged at do not decrease it
is a token bucket in the sense of the library, and the conformance bound holds for it; the
second half of the file is about times that do decrease, which the per-CPU clocks permit. -/

namespace Ntfw

open TokenBucket (passedCost)

/-! ## Saturated arithmetic -/

theorem sub_eq_zero32 (a b : u32) : a - b = 0 ↔ a = b := by
  constructor
  · intro h
    have hadd := BitVec.sub_eq_iff_eq_add.mp h
    simpa using hadd
  · intro h
    rw [h]
    exact BitVec.sub_self b

theorem satsub32_toNat (a b : u32) : (satsub32 a b).toNat = a.toNat - b.toNat :=
  Saturating.sub_toNat a b

theorem satadd32_toNat (a b : u32) :
    (satadd32 a b).toNat = min (a.toNat + b.toNat) (2 ^ 32 - 1) :=
  Saturating.add_toNat a b

theorem satmul32_toNat (a b : u32) :
    (satmul32 a b).toNat = min (a.toNat * b.toNat) (2 ^ 32 - 1) :=
  Saturating.mul_toNat a b

/-! ## One charge -/

/-- The tokens of a bucket at the time of a charge, before its cost is taken. -/
def refilled (tb : TBucket) (tbd : TBucketDesc) (tmsec : u32) : u32 :=
  (tokenBucketCharge tb tbd tmsec 0).1.tokens

theorem satsub32_zero (a : u32) : satsub32 a 0 = a := by
  apply BitVec.eq_of_toNat_eq
  rw [satsub32_toNat]
  simp

/-- **`token_bucket_charge`**: the refill, the cost, and the comparison with the level. The
bucket's time is the time of the charge, also when no time has passed. -/
theorem tokenBucketCharge_eq (tb : TBucket) (tbd : TBucketDesc) (tmsec cost : u32) :
    tokenBucketCharge tb tbd tmsec cost
      = (⟨satsub32 (refilled tb tbd tmsec) cost, tmsec⟩,
          decide (tbd.level < satsub32 (refilled tb tbd tmsec) cost)) := by
  simp only [refilled, tokenBucketCharge, satsub32_zero]
  by_cases hdt : tmsec - tb.last = 0
  · have hlast : tmsec = tb.last := (sub_eq_zero32 _ _).mp hdt
    rw [if_neg (not_not.mpr hdt), hlast]
  · rw [if_pos hdt]

theorem min32_toNat (x y : u32) : (min32 x y).toNat = min x.toNat y.toNat := by
  unfold min32
  by_cases h : x < y
  · have hlt : x.toNat < y.toNat := h
    rw [if_pos h, Nat.min_eq_left (Nat.le_of_lt hlt)]
  · have hle : y.toNat ≤ x.toNat := Nat.le_of_not_lt h
    rw [if_neg h, Nat.min_eq_right hle]

/-- The saturation of a refill never bites below the capacity. -/
theorem refill_toNat (capacity tokens dt rate : u32) :
    (min32 capacity (satadd32 tokens (satmul32 dt rate))).toNat
      = min capacity.toNat (tokens.toNat + dt.toNat * rate.toNat) := by
  rw [min32_toNat, satadd32_toNat, satmul32_toNat]
  exact Saturating.min_clamp_add_clamp capacity.isLt _ _

/-- The refill in exact arithmetic. -/
theorem refilled_toNat (tb : TBucket) (tbd : TBucketDesc) (tmsec : u32) :
    (refilled tb tbd tmsec).toNat
      = if tmsec = tb.last then tb.tokens.toNat
        else min tbd.capacity.toNat
          (tb.tokens.toNat + (tmsec - tb.last).toNat * tbd.rate.toNat) := by
  simp only [refilled, tokenBucketCharge, satsub32_zero]
  by_cases hdt : tmsec = tb.last
  · rw [if_pos hdt, if_neg (not_not.mpr ((sub_eq_zero32 _ _).mpr hdt))]
  · rw [if_neg hdt, if_pos (fun hc => hdt ((sub_eq_zero32 _ _).mp hc))]
    exact refill_toNat tbd.capacity tb.tokens (tmsec - tb.last) tbd.rate

/-- **Branchless saturating arithmetic is exact**: the three operations are those of the integers,
cut to what a word holds, and a refill made of them is the exact one, cut to the capacity; so is
what a charge finds in the bucket. -/
theorem saturated_exact :
    (∀ a b : u32, (satadd32 a b).toNat = min (a.toNat + b.toNat) (2 ^ 32 - 1))
    ∧ (∀ a b : u32, ((satsub32 a b).toNat : ℤ) = max ((a.toNat : ℤ) - b.toNat) 0)
    ∧ (∀ a b : u32, (satmul32 a b).toNat = min (a.toNat * b.toNat) (2 ^ 32 - 1))
    ∧ (∀ capacity tokens dt rate : u32,
        (min32 capacity (satadd32 tokens (satmul32 dt rate))).toNat
          = min capacity.toNat (tokens.toNat + dt.toNat * rate.toNat))
    ∧ ∀ (tb : TBucket) (tbd : TBucketDesc) (tmsec cost : u32),
        (tokenBucketCharge tb tbd tmsec cost).1.tokens.toNat
          = (if tmsec = tb.last then tb.tokens.toNat
              else min tbd.capacity.toNat
                (tb.tokens.toNat + (tmsec - tb.last).toNat * tbd.rate.toNat)) - cost.toNat := by
  refine ⟨satadd32_toNat, fun a b => ?_, satmul32_toNat, refill_toNat, fun tb tbd tmsec cost => ?_⟩
  · rw [satsub32_toNat]
    omega
  · rw [tokenBucketCharge_eq]
    show (satsub32 (refilled tb tbd tmsec) cost).toNat = _
    rw [satsub32_toNat, refilled_toNat]

/-- A refill leaves no more than was there or than the capacity. -/
theorem refilled_le {tb : TBucket} {tbd : TBucketDesc} {most : ℕ} (tmsec : u32)
    (htok : tb.tokens.toNat ≤ most) (hcap : tbd.capacity.toNat ≤ most) :
    (refilled tb tbd tmsec).toNat ≤ most := by
  rw [refilled_toNat]
  split <;> omega

/-- The difference of two times, as the code sees it. -/
theorem sub_ofNat_toNat {t₀ t : ℕ} (h : t₀ ≤ t) :
    (BitVec.ofNat 32 t - BitVec.ofNat 32 t₀).toNat = (t - t₀) % 2 ^ 32 := by
  rw [BitVec.toNat_sub, BitVec.toNat_ofNat, BitVec.toNat_ofNat]
  omega

/-- Between two times of the clock a refill credits at most `rate` for each millisecond. -/
theorem refilled_le_rate {tb : TBucket} (tbd : TBucketDesc) {t₀ t : ℕ}
    (hlast : tb.last = BitVec.ofNat 32 t₀) (h : t₀ ≤ t) :
    (refilled tb tbd (BitVec.ofNat 32 t)).toNat
      ≤ tb.tokens.toNat + tbd.rate.toNat * (t - t₀) := by
  rw [refilled_toNat]
  split
  · exact Nat.le_add_right _ _
  · rw [hlast, sub_ofNat_toNat h]
    have hmod : (t - t₀) % 2 ^ 32 * tbd.rate.toNat ≤ tbd.rate.toNat * (t - t₀) := by
      rw [Nat.mul_comm]
      exact Nat.mul_le_mul_left _ (Nat.mod_le _ _)
    omega

/-! ## Sequences of charges -/

/-- The charges of a bucket in the order in which they get its lock: the time of the clock
each is stamped with, and its cost. -/
abbrev Charges := List (ℕ × u32)

/-- The code sees the low 32 bits of the time. -/
def chargeAt (tbd : TBucketDesc) (tb : TBucket) (c : ℕ × u32) : TBucket × Bool :=
  tokenBucketCharge tb tbd (BitVec.ofNat 32 c.1) c.2

/-- The bucket after all the charges. -/
def chargeAll (tbd : TBucketDesc) : TBucket → Charges → TBucket
  | tb, [] => tb
  | tb, c :: cs => chargeAll tbd (chargeAt tbd tb c).1 cs

/-- What the callers see: the charges with their verdicts. -/
def verdicts (tbd : TBucketDesc) : TBucket → Charges → List TokenBucket.Charge
  | _, [] => []
  | tb, c :: cs =>
      ⟨c.1, c.2.toNat, (chargeAt tbd tb c).2⟩ :: verdicts tbd (chargeAt tbd tb c).1 cs

/-- The time of the last charge, or `t₀` if there is none. -/
def lastTime (t₀ : ℕ) : Charges → ℕ
  | [] => t₀
  | c :: cs => lastTime c.1 cs

/-- The bucket always carries the time of its last charge. -/
theorem chargeAll_last {tbd : TBucketDesc} {tb : TBucket} {t₀ : ℕ} (cs : Charges)
    (h : tb.last = BitVec.ofNat 32 t₀) :
    (chargeAll tbd tb cs).last = BitVec.ofNat 32 (lastTime t₀ cs) := by
  induction cs generalizing tb t₀ with
  | nil => exact h
  | cons c cs ih =>
      apply ih
      rw [chargeAt, tokenBucketCharge_eq]

/-- `t₀` and the times of the charges do not decrease. -/
def InOrder (t₀ : ℕ) (cs : Charges) : Prop := (t₀ :: cs.map Prod.fst).Pairwise (· ≤ ·)

theorem inOrder_cons {t₀ : ℕ} {c : ℕ × u32} {cs : Charges} :
    InOrder t₀ (c :: cs) ↔ t₀ ≤ c.1 ∧ InOrder c.1 cs := by
  unfold InOrder
  simp only [List.map_cons, List.pairwise_cons, List.mem_cons, List.mem_map]
  constructor
  · rintro ⟨h0, hc⟩
    exact ⟨h0 c.1 (Or.inl rfl), hc⟩
  · rintro ⟨h0, hc⟩
    refine ⟨?_, hc⟩
    rintro t (rfl | ht)
    · exact h0
    · exact Nat.le_trans h0 (hc.1 t ht)

theorem InOrder.of_append {t₀ : ℕ} {cs ds : Charges} (h : InOrder t₀ (cs ++ ds)) :
    InOrder t₀ cs ∧ InOrder (lastTime t₀ cs) ds := by
  induction cs generalizing t₀ with
  | nil => exact ⟨by simp [InOrder], h⟩
  | cons c cs ih =>
      obtain ⟨h0, hc⟩ := inOrder_cons.mp h
      obtain ⟨h1, h2⟩ := ih hc
      exact ⟨inOrder_cons.mpr ⟨h0, h1⟩, h2⟩

/-! ## The refinement of the abstract bucket -/

/-- The meter of a bucket that holds at most `most` tokens: its capacity, or more if it held more
when it got its capacity. -/
def TBucketDesc.meter (tbd : TBucketDesc) (most : ℕ) : TokenBucket.Meter :=
  ⟨tbd.rate.toNat, most, tbd.level.toNat⟩

/-- The abstract bucket of a bucket last charged at `t₀`. -/
def TBucket.bucket (tb : TBucket) (t₀ : ℕ) : TokenBucket.Bucket := ⟨tb.tokens.toNat, t₀⟩

/-- A charge in order is a charge of the abstract bucket. -/
theorem chargeAt_charged {tbd : TBucketDesc} {tb : TBucket} {most t₀ : ℕ} {c : ℕ × u32}
    (htok : tb.tokens.toNat ≤ most) (hcap : tbd.capacity.toNat ≤ most)
    (hlast : tb.last = BitVec.ofNat 32 t₀) (h : t₀ ≤ c.1) :
    TokenBucket.Charged (tbd.meter most) (tb.bucket t₀)
      ⟨c.1, c.2.toNat, (chargeAt tbd tb c).2⟩ ((chargeAt tbd tb c).1.bucket c.1) := by
  rw [chargeAt, tokenBucketCharge_eq]
  refine ⟨rfl, ?_, (refilled tb tbd (BitVec.ofNat 32 c.1)).toNat, ?_, ?_, ?_⟩
  · rfl
  · exact refilled_le _ htok hcap
  · exact refilled_le_rate tbd hlast h
  · exact satsub32_toNat _ _

theorem chargeAt_tokens_le {tbd : TBucketDesc} {tb : TBucket} {most : ℕ} (c : ℕ × u32)
    (htok : tb.tokens.toNat ≤ most) (hcap : tbd.capacity.toNat ≤ most) :
    (chargeAt tbd tb c).1.tokens.toNat ≤ most := by
  have hle := refilled_le (BitVec.ofNat 32 c.1) htok hcap
  rw [chargeAt, tokenBucketCharge_eq]
  show (satsub32 _ _).toNat ≤ most
  rw [satsub32_toNat]
  omega

theorem chargeAll_tokens_le {tbd : TBucketDesc} {tb : TBucket} (cs : Charges)
    (hcap : tb.tokens ≤ tbd.capacity) : (chargeAll tbd tb cs).tokens ≤ tbd.capacity := by
  induction cs generalizing tb with
  | nil => exact hcap
  | cons c cs ih => exact ih (chargeAt_tokens_le c hcap (Nat.le_refl _))

/-- **Refinement**: charges in order are a run of the abstract bucket. -/
theorem verdicts_run {tbd : TBucketDesc} {tb : TBucket} {most t₀ : ℕ} {cs : Charges}
    (htok : tb.tokens.toNat ≤ most) (hcap : tbd.capacity.toNat ≤ most)
    (hlast : tb.last = BitVec.ofNat 32 t₀) (horder : InOrder t₀ cs) :
    TokenBucket.Run (tbd.meter most) (tb.bucket t₀) (verdicts tbd tb cs)
      ((chargeAll tbd tb cs).bucket (lastTime t₀ cs)) := by
  induction cs generalizing tb t₀ with
  | nil => exact .nil _
  | cons c cs ih =>
      obtain ⟨h0, hc⟩ := inOrder_cons.mp horder
      refine .cons h0 (chargeAt_charged htok hcap hlast h0)
        (ih (chargeAt_tokens_le c htok hcap) ?_ hc)
      rw [chargeAt, tokenBucketCharge_eq]

/-! ## Conformance -/

/-- **The conformance bound of traffic policing.** A bucket that does not hold more than its
capacity never will, and in every window of charges whose times do not decrease, the costs of
those that passed add up to at most the capacity and the rate times the length of the window;
if any passed, by `level` less than that. A gap of 2^32 ms or more only credits less. -/
theorem tokenBucketCharge_conformance (tb : TBucket) (tbd : TBucketDesc) (t₀ : ℕ) (cs : Charges)
    (hcap : tb.tokens ≤ tbd.capacity) (hlast : tb.last = BitVec.ofNat 32 t₀)
    (horder : InOrder t₀ cs) :
    (∀ pre post, cs = pre ++ post → (chargeAll tbd tb pre).tokens ≤ tbd.capacity)
    ∧ ∀ pre c win post, cs = pre ++ (c :: win) ++ post →
        let seen := verdicts tbd (chargeAll tbd tb pre) (c :: win)
        let bound := tbd.capacity.toNat + tbd.rate.toNat * (lastTime c.1 win - c.1)
        passedCost seen ≤ bound
        ∧ ((∃ d ∈ seen, d.passed = true) → passedCost seen + tbd.level.toNat < bound) := by
  constructor
  · intro pre post _
    exact chargeAll_tokens_le pre hcap
  · intro pre c win post hcs
    rw [hcs, List.append_assoc] at horder
    have hwin := (InOrder.of_append horder).2.of_append.1
    have hrun := verdicts_run (chargeAll_tokens_le pre hcap) (Nat.le_refl _)
      (chargeAll_last pre hlast) hwin
    exact hrun.conformance

/-- The bound at a bucket that passes a charge, refuses the next and is refilled. -/
theorem tokenBucketCharge_conformance_at :
    passedCost (verdicts ⟨2, 10, 1⟩ ⟨10, 1000⟩ [(1000, 6), (1000, 3), (1001, 1)]) ≤ 12
    ∧ (∃ d ∈ verdicts ⟨2, 10, 1⟩ ⟨10, 1000⟩ [(1000, 6), (1000, 3), (1001, 1)],
        d.passed = true) := by
  have h := (tokenBucketCharge_conformance ⟨10, 1000⟩ ⟨2, 10, 1⟩ 1000
    [(1000, 6), (1000, 3), (1001, 1)] (by decide) (by decide) (by simp [InOrder])).2
    [] (1000, 6) [(1000, 3), (1001, 1)] [] rfl
  exact ⟨h.1, by decide⟩

end Ntfw
