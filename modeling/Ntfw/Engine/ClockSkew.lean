import Ntfw.Engine.Policing

set_option autoImplicit false

/-! # Policing under clock skew

The CPUs charge the buckets of a host one after the other, but each with the time its own
clock was last refreshed at. So the times of the charges of one bucket come from one clock and
yet in any order. `token_bucket_charge` takes an unsigned difference, and for a time older
than the bucket's it reads almost 2^32 ms. -/

namespace Ntfw

/-- The tokens the refill of a charge at `t` adds. -/
def credited (tbd : TBucketDesc) (tb : TBucket) (t : ℕ) : ℕ :=
  (refilled tb tbd (BitVec.ofNat 32 t)).toNat - tb.tokens.toNat

/-- The tokens that all the refills of a run add. -/
def totalCredited (tbd : TBucketDesc) : TBucket → Charges → ℕ
  | _, [] => 0
  | tb, c :: cs => credited tbd tb c.1 + totalCredited tbd (chargeAt tbd tb c).1 cs

/-- The newest of `t₀` and the times of the charges. -/
def newest (t₀ : ℕ) : Charges → ℕ
  | [] => t₀
  | c :: cs => newest (max t₀ c.1) cs

/-- The order of 32-bit times less than 2^31 ms apart. -/
def Older (a b : u32) : Prop := (a - b).toInt < 0

instance (a b : u32) : Decidable (Older a b) := inferInstanceAs (Decidable (_ < _))

/-- **The rate holds under skew**: a charge stamped older than the bucket adds nothing and
does not set the bucket's time back, and all refills together stay within the rate. -/
structure SkewSafe (tbd : TBucketDesc) (tb : TBucket) (t₀ : ℕ) (cs : Charges) : Prop where
  stale : ∀ pre c post, cs = pre ++ c :: post → c.1 < lastTime t₀ pre →
    credited tbd (chargeAll tbd tb pre) c.1 = 0 ∧
    ¬ Older (chargeAt tbd (chargeAll tbd tb pre) c).1.last (chargeAll tbd tb pre).last
  total : (∀ c ∈ cs, t₀ ≤ c.1) →
    totalCredited tbd tb cs ≤ tbd.rate.toNat * (newest t₀ cs - t₀)

/-! ## The order of the stamps -/

theorem lastTime_le_newest (t₀ : ℕ) (cs : Charges) : lastTime t₀ cs ≤ newest t₀ cs := by
  have hmono : ∀ (ds : Charges) (s t : ℕ), s ≤ t → lastTime s ds ≤ newest t ds := by
    intro ds
    induction ds with
    | nil => exact fun s t h => h
    | cons d ds ih => exact fun s t _ => ih d.1 (max t d.1) (Nat.le_max_right t d.1)
  exact hmono cs t₀ t₀ (Nat.le_refl t₀)

theorem lastTime_mem (t₀ : ℕ) (cs : Charges) :
    lastTime t₀ cs = t₀ ∨ ∃ c ∈ cs, lastTime t₀ cs = c.1 := by
  induction cs generalizing t₀ with
  | nil => exact Or.inl rfl
  | cons c cs ih =>
      right
      rcases ih c.1 with h | ⟨d, hd, h⟩
      · exact ⟨c, by simp, h⟩
      · exact ⟨d, List.mem_cons_of_mem c hd, h⟩

/-- Stamps are in order exactly when none is older than the one before it. -/
theorem inOrder_iff (t₀ : ℕ) (cs : Charges) :
    InOrder t₀ cs ↔ ∀ pre c post, cs = pre ++ c :: post → lastTime t₀ pre ≤ c.1 := by
  constructor
  · intro h pre c post hcs
    rw [hcs] at h
    exact (inOrder_cons.mp h.of_append.2).1
  · intro h
    induction cs generalizing t₀ with
    | nil => simp [InOrder]
    | cons c cs ih =>
        refine inOrder_cons.mpr ⟨h [] c cs rfl, ih c.1 ?_⟩
        intro pre d post hcs
        exact h (c :: pre) d post (by rw [hcs, List.cons_append])

/-- An older stamp is older for the code as well. -/
theorem older_ofNat {s t : ℕ} (hlt : s < t) (hnear : t < s + 2 ^ 31) :
    Older (BitVec.ofNat 32 s) (BitVec.ofNat 32 t) := by
  have hdiff : (BitVec.ofNat 32 s - BitVec.ofNat 32 t).toNat = 2 ^ 32 - (t - s) := by
    rw [BitVec.toNat_sub, BitVec.toNat_ofNat, BitVec.toNat_ofNat]
    omega
  unfold Older
  rw [BitVec.toInt_eq_toNat_cond, hdiff]
  split <;> omega

/-! ## The exact condition -/

/-- In order, the refills add no more than the elapsed time is worth. -/
theorem totalCredited_le {tbd : TBucketDesc} {tb : TBucket} {t₀ : ℕ} {cs : Charges}
    (hlast : tb.last = BitVec.ofNat 32 t₀) (h : InOrder t₀ cs) :
    t₀ ≤ lastTime t₀ cs
    ∧ totalCredited tbd tb cs ≤ tbd.rate.toNat * (lastTime t₀ cs - t₀) := by
  induction cs generalizing tb t₀ with
  | nil => exact ⟨Nat.le_refl _, by simp [totalCredited]⟩
  | cons c cs ih =>
      obtain ⟨h0, hc⟩ := inOrder_cons.mp h
      have hlast' : (chargeAt tbd tb c).1.last = BitVec.ofNat 32 c.1 := by
        rw [chargeAt, tokenBucketCharge_eq]
      -- After the charge the bucket has its time, from which the rest goes on.
      obtain ⟨hle, hrest⟩ := ih hlast' hc
      have hone : credited tbd tb c.1 ≤ tbd.rate.toNat * (c.1 - t₀) := by
        have := refilled_le_rate tbd hlast h0
        unfold credited
        omega
      refine ⟨Nat.le_trans h0 hle, ?_⟩
      calc totalCredited tbd tb (c :: cs)
          = credited tbd tb c.1 + totalCredited tbd (chargeAt tbd tb c).1 cs := rfl
        _ ≤ tbd.rate.toNat * (c.1 - t₀) + tbd.rate.toNat * (lastTime c.1 cs - c.1) :=
            Nat.add_le_add hone hrest
        _ = tbd.rate.toNat * (lastTime c.1 cs - t₀) :=
            TokenBucket.rate_add tbd.rate.toNat h0 hle

/-- **Skew breaks the rate, always.** For stamps of one clock that lie less than 2^31 ms apart,
in any order, `token_bucket_charge` keeps its promises exactly when no charge is stamped older
than the one before it. -/
theorem skewSafe_iff_inOrder (tbd : TBucketDesc) (tb : TBucket) (t₀ : ℕ) (cs : Charges)
    (hlast : tb.last = BitVec.ofNat 32 t₀) (hstart : ∀ c ∈ cs, t₀ < c.1 + 2 ^ 31)
    (hnear : ∀ c ∈ cs, ∀ d ∈ cs, c.1 < d.1 + 2 ^ 31) :
    SkewSafe tbd tb t₀ cs ↔ InOrder t₀ cs := by
  constructor
  · intro hsafe
    rw [inOrder_iff]
    intro pre c post hcs
    by_contra hlt
    obtain ⟨-, hback⟩ := hsafe.stale pre c post hcs (Nat.lt_of_not_le hlt)
    -- The charge stamps the bucket with its own, older time.
    apply hback
    rw [chargeAll_last pre hlast, chargeAt, tokenBucketCharge_eq]
    apply older_ofNat (Nat.lt_of_not_le hlt)
    have hc : c ∈ cs := by simp [hcs]
    rcases lastTime_mem t₀ pre with h | ⟨d, hd, h⟩
    · rw [h]
      exact hstart c hc
    · rw [h]
      exact hnear d (by simp [hcs, hd]) c hc
  · intro horder
    refine ⟨?_, ?_⟩
    · intro pre c post hcs hlt
      have hle := (inOrder_iff t₀ cs).mp horder pre c post hcs
      omega
    · intro _
      have hnew := lastTime_le_newest t₀ cs
      have hmul : tbd.rate.toNat * (lastTime t₀ cs - t₀) ≤ tbd.rate.toNat * (newest t₀ cs - t₀) :=
        Nat.mul_le_mul_left _ (by omega)
      exact Nat.le_trans (totalCredited_le hlast horder).2 hmul

theorem skewSafe_iff_inOrder_at : SkewSafe ⟨1, 1000, 0⟩ ⟨0, 1000⟩ 1000 [(1009, 1), (1010, 1)] :=
  (skewSafe_iff_inOrder ⟨1, 1000, 0⟩ ⟨0, 1000⟩ 1000 [(1009, 1), (1010, 1)] (by decide)
    (by decide) (by decide)).mpr (by simp [InOrder])

/-- At a rate of one token a millisecond: a charge at 1010 and one whose CPU still has 1009.
The second fills the bucket to its capacity, and the ten milliseconds have credited 1000. -/
theorem skewSafe_fails :
    ¬ ∀ (tbd : TBucketDesc) (tb : TBucket) (t₀ : ℕ) (cs : Charges),
        tb.last = BitVec.ofNat 32 t₀ → (∀ c ∈ cs, t₀ < c.1 + 2 ^ 31) →
        (∀ c ∈ cs, ∀ d ∈ cs, c.1 < d.1 + 2 ^ 31) → SkewSafe tbd tb t₀ cs := by
  intro h
  have hsafe := h ⟨1, 1000, 0⟩ ⟨0, 1000⟩ 1000 [(1010, 1), (1009, 1)] (by decide) (by decide)
    (by decide)
  have htotal := hsafe.total (by decide)
  have hcredit : totalCredited ⟨1, 1000, 0⟩ ⟨0, 1000⟩ [(1010, 1), (1009, 1)] = 1001 := by decide
  rw [hcredit] at htotal
  exact absurd htotal (by decide)

end Ntfw
