import Mathlib.Tactic

set_option autoImplicit false

/-! # Saturating arithmetic without branches

Words of any width that stick at the greatest one where the exact result does not fit. The code
computes the wrapped result and a mask from a comparison of it, all ones where it has wrapped;
each operation here is that expression, with its value over the natural numbers.
-/

namespace Saturating

variable {w : ℕ}

/-- `-b` of a truth value `b`: all ones or all zeros. -/
def mask (b : Bool) : BitVec w := -(if b then 1 else 0)

theorem mask_true : (mask true : BitVec w) = BitVec.allOnes w := by
  show -(1 : BitVec w) = _
  rw [← BitVec.neg_one_eq_allOnes]
  rfl

theorem mask_false : (mask false : BitVec w) = 0#w := by
  show -(0 : BitVec w) = _
  exact BitVec.neg_zero w

/-- A word that is kept, or else saturated. -/
theorem or_mask_toNat (r : BitVec w) (b : Bool) :
    (r ||| mask b).toNat = if b then 2 ^ w - 1 else r.toNat := by
  cases b with
  | true => rw [mask_true, BitVec.or_allOnes, BitVec.toNat_allOnes, if_pos rfl]
  | false => rw [mask_false, BitVec.or_zero, if_neg Bool.false_ne_true]

/-- A word that is kept, or else wiped out. -/
theorem and_mask_toNat (r : BitVec w) (b : Bool) :
    (r &&& mask b).toNat = if b then r.toNat else 0 := by
  cases b with
  | true => rw [mask_true, BitVec.and_allOnes, if_pos rfl]
  | false => rw [mask_false, BitVec.and_zero, BitVec.toNat_zero, if_neg Bool.false_ne_true]

/-- What a word can hold of a number. -/
def clamp (w n : ℕ) : ℕ := min n (2 ^ w - 1)

theorem clamp_of_lt {n : ℕ} (h : n < 2 ^ w) : clamp w n = n := by
  unfold clamp
  omega

theorem clamp_of_le {n : ℕ} (h : 2 ^ w ≤ n) : clamp w n = 2 ^ w - 1 := by
  unfold clamp
  omega

/-! ## The operations -/

/-- A sum has wrapped exactly if it is below a summand. -/
theorem add_lt_iff (a b : BitVec w) : a + b < a ↔ 2 ^ w ≤ a.toNat + b.toNat := by
  have ha := a.isLt
  have hb := b.isLt
  rw [BitVec.lt_def, BitVec.toNat_add]
  constructor
  · intro h
    by_contra hc
    rw [Nat.mod_eq_of_lt (by omega)] at h
    omega
  · intro h
    rw [Nat.mod_eq_sub_mod h, Nat.mod_eq_of_lt (by omega)]
    omega

/-- A difference has not wrapped exactly if it is not above the minuend. -/
theorem sub_le_iff (a b : BitVec w) : a - b ≤ a ↔ b.toNat ≤ a.toNat := by
  have ha := a.isLt
  have hb := b.isLt
  constructor
  · intro h
    by_contra hc
    have hle : (a - b).toNat ≤ a.toNat := h
    rw [BitVec.toNat_sub, Nat.mod_eq_of_lt (by omega)] at hle
    omega
  · intro h
    show (a - b).toNat ≤ a.toNat
    rw [BitVec.toNat_sub_of_le h]
    omega

theorem add_toNat (a b : BitVec w) :
    ((a + b) ||| mask (decide (a + b < a))).toNat = clamp w (a.toNat + b.toNat) := by
  rw [or_mask_toNat]
  by_cases h : 2 ^ w ≤ a.toNat + b.toNat
  · rw [if_pos (decide_eq_true ((add_lt_iff a b).mpr h)), clamp_of_le h]
  · have hlt := Nat.lt_of_not_le h
    rw [if_neg fun hc => h ((add_lt_iff a b).mp (of_decide_eq_true hc)), clamp_of_lt hlt,
      BitVec.toNat_add, Nat.mod_eq_of_lt hlt]

theorem sub_toNat (a b : BitVec w) :
    ((a - b) &&& mask (decide (a - b ≤ a))).toNat = a.toNat - b.toNat := by
  rw [and_mask_toNat]
  by_cases h : b.toNat ≤ a.toNat
  · rw [if_pos (decide_eq_true ((sub_le_iff a b).mpr h)), BitVec.toNat_sub_of_le h]
  · rw [if_neg fun hc => h ((sub_le_iff a b).mp (of_decide_eq_true hc)),
      Nat.sub_eq_zero_of_le (Nat.le_of_not_le h)]

/-- The product of two words fits in twice the width. -/
theorem wide_mul_toNat (a b : BitVec w) :
    (a.setWidth (w + w) * b.setWidth (w + w)).toNat = a.toNat * b.toNat := by
  have hprod : a.toNat * b.toNat < 2 ^ (w + w) := by
    rw [Nat.pow_add]
    exact Nat.mul_lt_mul'' a.isLt b.isLt
  rw [BitVec.toNat_mul, BitVec.toNat_setWidth_of_le (Nat.le_add_left w w),
    BitVec.toNat_setWidth_of_le (Nat.le_add_left w w), Nat.mod_eq_of_lt hprod]

/-- It fits in the word exactly if the high half of it is zero. -/
theorem high_eq_zero_iff (r : BitVec (w + w)) :
    (r >>> w).setWidth w = 0#w ↔ r.toNat < 2 ^ w := by
  have hr : r.toNat / 2 ^ w < 2 ^ w :=
    Nat.div_lt_of_lt_mul (by rw [← Nat.pow_add]; exact r.isLt)
  rw [← BitVec.toNat_inj, BitVec.toNat_setWidth, BitVec.toNat_ushiftRight,
    Nat.shiftRight_eq_div_pow, BitVec.toNat_zero, Nat.mod_eq_of_lt hr,
    Nat.div_eq_zero_iff_lt (Nat.two_pow_pos w)]

theorem mul_toNat (a b : BitVec w) :
    let r := a.setWidth (w + w) * b.setWidth (w + w)
    (r.setWidth w ||| mask ((r >>> w).setWidth w != 0#w)).toNat = clamp w (a.toNat * b.toNat) := by
  intro r
  have hr : r.toNat = a.toNat * b.toNat := wide_mul_toNat a b
  rw [or_mask_toNat, ← hr]
  by_cases h : r.toNat < 2 ^ w
  · rw [(high_eq_zero_iff r).mpr h, bne_self_eq_false, if_neg Bool.false_ne_true,
      BitVec.toNat_setWidth, Nat.mod_eq_of_lt h, clamp_of_lt h]
  · rw [if_pos (bne_iff_ne.mpr fun hc => h ((high_eq_zero_iff r).mp hc)),
      clamp_of_le (Nat.le_of_not_lt h)]

/-! ## Where saturation does not show -/

/-- **A sum of saturated terms**, itself saturated, is cut to a bound that fits in a word as the
exact sum is. -/
theorem min_clamp_add_clamp {c : ℕ} (hc : c < 2 ^ w) (t x : ℕ) :
    min c (clamp w (t + clamp w x)) = min c (t + x) := by
  unfold clamp
  omega

/-- What is taken from a word in two steps is taken in one, of the saturated sum. -/
theorem sub_clamp_add {a : ℕ} (ha : a < 2 ^ w) (b c : ℕ) : a - clamp w (b + c) = a - b - c := by
  unfold clamp
  omega

end Saturating
