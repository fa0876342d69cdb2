import Ntfw.Verification.Group

set_option autoImplicit false

/-! # Points from bytes

`ge_frombytes_negate_vartime` takes the root of `(y ^ 2 - 1) / (d y ^ 2 + 1)` as a power, which is a
root, a root times the root of `-1`, or neither; it is neither only where there is no root, so that
bytes are refused only where no point has their `y`. -/

namespace Ntfw

open Limbs Radix Edwards

/-! ## Roots -/

/-- The power that is tried as a root of `a / b`. -/
def rootPower (a b : ZMod feP) : ZMod feP :=
  ((b ^ 2 * b) ^ 2 * b * a) ^ (2 ^ 252 - 3) * (b ^ 2 * b) * a

/-- The power of a square that is left is 1 or -1. -/
theorem pow_half_sq {a : ZMod feP} (ha : a ≠ 0) :
    a ^ (4 * (2 ^ 252 - 3) + 2) = 1 ∨ a ^ (4 * (2 ^ 252 - 3) + 2) = -1 := by
  have hone : a ^ (4 * (2 ^ 252 - 3) + 2) * a ^ (4 * (2 ^ 252 - 3) + 2) = 1 := by
    rw [← pow_add, show 4 * (2 ^ 252 - 3) + 2 + (4 * (2 ^ 252 - 3) + 2) = feP - 1 by norm_num [feP]]
    exact ZMod.pow_card_sub_one_eq_one ha
  exact mul_self_eq_one_iff.mp hone

/-- **If there is a root**, the power is one, or one of the opposite. -/
theorem rootPower_of_root {a b z : ZMod feP} (h : z ^ 2 * b = a) :
    rootPower a b ^ 2 * b = a ∨ rootPower a b ^ 2 * b = -a := by
  have hsq : (b ^ 2 * b) ^ 2 * b * a = (z * b ^ 4) ^ 2 := by
    rw [← h]
    ring
  have hvxx : rootPower a b ^ 2 * b = (z * b ^ 4) ^ (4 * (2 ^ 252 - 3) + 2) * a := by
    generalize hn : 2 ^ 252 - 3 = n
    have hpow : (z * b ^ 4) ^ (4 * n + 2) = (((z * b ^ 4) ^ 2) ^ n) ^ 2 * (z * b ^ 4) ^ 2 := by
      rw [← pow_mul, ← pow_mul, ← pow_add]
      congr 1
      ring
    rw [rootPower, hn, hpow, ← hsq]
    ring
  rw [hvxx]
  by_cases hc : z * b ^ 4 = 0
  · have ha : a = 0 := by
      rcases mul_eq_zero.mp hc with hz | hb
      · rw [← h, hz]
        ring
      · rw [← h, eq_zero_of_pow_eq_zero hb, mul_zero]
    exact .inl (by rw [ha, mul_zero])
  · rcases pow_half_sq hc with h1 | h1 <;> rw [h1]
    · exact .inl (one_mul a)
    · exact .inr (neg_one_mul a)

theorem geSqrtm1_upto : Upto (feTight 1) geSqrtm1 := by decide

theorem geD_upto : Upto (feTight 1) geD := by decide

/-- Whether a field element that has been computed is zero. -/
theorem feIsnonzero_elem {k : Nat} {a : ZMod feP} {f : Fe} (hf : Elem k a f) (hk : k ≤ 3) :
    ∃ b, feIsnonzero f = some b ∧ (b = false ↔ a = 0) := by
  refine ⟨_, feIsnonzero_spec (hf.loose hk), ?_⟩
  rw [hf.val, decide_eq_false_iff_not, not_not]

/-- **The root that is tried** is one, where there is any. -/
theorem geRoot_spec {a b : ZMod feP} {u v : Fe} (hu : Elem 2 a u) (hv : Elem 2 b v) :
    geRoot u v = some none ∧ (∀ z, z ^ 2 * b ≠ a) ∨
      ∃ X x, geRoot u v = some (some X) ∧ Elem 1 x X ∧ x ^ 2 * b = a := by
  obtain ⟨v2, h1, hv2⟩ := feSq_elem hv (by decide)
  obtain ⟨v3, h2, hv3⟩ := feMul_elem hv2 hv (by decide) (by decide)
  obtain ⟨v6, h3, hv6⟩ := feSq_elem hv3 (by decide)
  obtain ⟨v7, h4, hv7⟩ := feMul_elem hv6 hv (by decide) (by decide)
  obtain ⟨uv7, h5, huv7⟩ := feMul_elem hv7 hu (by decide) (by decide)
  obtain ⟨X0, h6, hX0⟩ := fePow22523_elem huv7 (by decide)
  obtain ⟨X1, h7, hX1⟩ := feMul_elem hX0 hv3 (by decide) (by decide)
  obtain ⟨X, h8, hX⟩ := feMul_elem hX1 hu (by decide) (by decide)
  have htried := fun z (h : z ^ 2 * b = a) => rootPower_of_root h
  rw [rootPower] at htried
  generalize ((b ^ 2 * b) ^ 2 * b * a) ^ (2 ^ 252 - 3) * (b ^ 2 * b) * a = r at hX htried
  obtain ⟨x2, h9, hx2⟩ := feSq_elem hX (by decide)
  obtain ⟨vxx, h10, hvxx⟩ := feMul_elem hx2 hv (by decide) (by decide)
  obtain ⟨minus, h11, hminus⟩ := feSub_elem hvxx hu (by decide)
  obtain ⟨plus, h12, hplus⟩ := feAdd_elem hvxx hu (by decide)
  obtain ⟨isn, h13, hisn⟩ := feIsnonzero_elem hminus (by decide)
  obtain ⟨isp, h14, hisp⟩ := feIsnonzero_elem hplus (by decide)
  rw [sub_eq_zero] at hisn
  rw [add_eq_zero_iff_eq_neg] at hisp
  simp only [geRoot, h1, h2, h3, h4, h5, h6, h7, h8, h9, h10, h11, h12, h13, h14,
    Option.bind_eq_bind, Option.bind_some]
  cases isn with
  | false => exact .inr ⟨X, r, rfl, hX, hisn.mp rfl⟩
  | true =>
      cases isp with
      | false =>
          obtain ⟨X', hmul, hX'⟩ := feMul_elem hX (elem_self geSqrtm1_upto) (by decide) (by decide)
          refine .inr ⟨X', _, by simp [hmul], hX', ?_⟩
          linear_combination r ^ 2 * b * feVal_geSqrtm1 - hisp.mp rfl
      | true =>
          refine .inl ⟨rfl, fun z hz => ?_⟩
          rcases htried z hz with h | h
          · exact absurd (hisn.mpr h) (by decide)
          · exact absurd (hisp.mpr h) (by decide)

/-! ## The bytes -/

/-- The number in the uppermost bit. -/
theorem sign_leVal (s : Vector byte 32) :
    (s.get (Fin.last 31) >>> 7).toNat = leVal s / 2 ^ 255 := by
  have hbits := bits_leVal s (Fin.last 31)
  have hlt := leVal_lt s
  simp only [bits, Fin.val_last] at hbits
  have htop : (s.get (Fin.last 31)).toNat = leVal s / 2 ^ 248 % 2 ^ 8 := hbits.symm
  rw [BitVec.toNat_ushiftRight, htop, Nat.shiftRight_eq_div_pow]
  omega

/-- A point has the `y` exactly when there is a root. -/
theorem on_iff_root {x y : ZMod feP} :
    -x ^ 2 + y ^ 2 = 1 + curve.d * x ^ 2 * y ^ 2 ↔ x ^ 2 * (y ^ 2 * feVal geD + 1) = y ^ 2 - 1 := by
  change -x ^ 2 + y ^ 2 = 1 + feVal geD * x ^ 2 * y ^ 2 ↔ _
  constructor <;> intro h <;> linear_combination -h

/-- The limbs of a point from its own coordinates. -/
theorem GeP3.Is.of_affine {P : Point curve} {X Y T : Fe} (hX : Elem 1 P.x X) (hY : Elem 1 P.y Y)
    (hT : Elem 1 (P.x * P.y) T) : (GeP3.mk X Y fe1 T).Is P := by
  refine ⟨hX.upto, hY.upto, geP30_is.Z, hT.upto, ?_⟩
  show Extended P (feVal X) (feVal Y) (feVal fe1) (feVal T)
  rw [hX.val, hY.val, hT.val, feVal_fe1]
  exact ⟨⟨one_ne_zero, (mul_one _).symm, (mul_one _).symm⟩, (mul_one _).symm⟩

/-- **`ge_frombytes_negate_vartime` reads a point**, and gives its opposite. -/
theorem geFrombytesNegateVartime_spec (s : Vector byte 32) :
    geFrombytesNegateVartime s = some none ∧
        (∀ P : Point curve, P.y ≠ (leVal s % 2 ^ 255 : Nat)) ∨
      ∃ p P, geFrombytesNegateVartime s = some (some p) ∧ p.Is (-P) ∧
        P.y = (leVal s % 2 ^ 255 : Nat) ∧ (P.x ≠ 0 → P.x.val % 2 = leVal s / 2 ^ 255) := by
  obtain ⟨Y, h1, hY⟩ := feFrombytes_spec s
  obtain ⟨y2, h2, hy2⟩ := feSq_elem hY (by decide)
  obtain ⟨dy2, h3, hdy2⟩ := feMul_elem hy2 (elem_self geD_upto) (by decide) (by decide)
  have hone : Elem 1 1 fe1 := ⟨geP30_is.Z, feVal_fe1⟩
  obtain ⟨u, h4, hu⟩ := feSub_elem hy2 hone (by decide)
  obtain ⟨v, h5, hv⟩ := feAdd_elem hdy2 hone (by decide)
  generalize ((leVal s % 2 ^ 255 : Nat) : ZMod feP) = y at *
  simp only [geFrombytesNegateVartime, h1, h2, h3, h4, h5, Option.bind_eq_bind, Option.bind_some]
  rcases geRoot_spec hu hv with ⟨h6, hnone⟩ | ⟨X, x, h6, hX, hroot⟩
  · refine .inl ⟨by rw [h6]; rfl, fun P hP => hnone P.x ?_⟩
    exact on_iff_root.mp (hP ▸ P.on)
  · have hon := on_iff_root.mpr hroot
    obtain ⟨negative, h7, hneg⟩ := feIsnegative_spec (hX.loose (by decide))
    rw [hX.val] at hneg
    have hsign : negative = s.get (Fin.last 31) >>> 7 ↔ x.val % 2 = leVal s / 2 ^ 255 := by
      rw [← sign_leVal, ← hneg, BitVec.toNat_inj]
    right
    by_cases heq : negative = s.get (Fin.last 31) >>> 7
    · obtain ⟨X', h8, hX'⟩ := feNeg_elem hX (by decide)
      obtain ⟨T, h9, hT⟩ := feMul_elem hX' hY (by decide) (by decide)
      refine ⟨⟨X', Y, fe1, T⟩, ⟨x, y, hon⟩, ?_, .of_affine hX' hY hT, rfl, fun _ => hsign.mp heq⟩
      have hif : negative = s[31] >>> 7 := heq
      simp only [h6, h7, hif, h8, h9, Option.bind_some, if_true, Option.pure_def]
    · obtain ⟨T, h9, hT⟩ := feMul_elem hX hY (by decide) (by decide)
      refine ⟨⟨X, Y, fe1, T⟩, -⟨x, y, hon⟩, ?_, ?_, rfl, fun hx => ?_⟩
      · have hif : ¬negative = s[31] >>> 7 := heq
        simp only [h6, h7, hif, h9, Option.bind_some, if_false, Option.pure_def]
      · rw [neg_neg]
        exact .of_affine hX hY hT
      · have hpar : (-x).val % 2 ≠ x.val % 2 := val_neg_parity (neg_ne_zero.mp hx)
        have hne := hsign.not.mp heq
        have hlt : leVal s / 2 ^ 255 < 2 := Nat.div_lt_of_lt_mul (leVal_lt s)
        show (-x).val % 2 = leVal s / 2 ^ 255
        omega

/-- **Points from bytes.** For every 32 bytes `ge_frombytes_negate_vartime` runs, and no sum,
product or carry of it overflows. It fails only if no point has the `y` that the lower 255 bits are,
and otherwise gives the opposite of a point with this `y` and, unless its `x` is zero, the parity of
the uppermost bit. -/
theorem ge_points (s : Vector byte 32) :
    geFrombytesNegateVartime s = some none ∧
        (∀ P : Point curve, P.y ≠ (leVal s % 2 ^ 255 : Nat)) ∨
      ∃ p P, geFrombytesNegateVartime s = some (some p) ∧ p.Is (-P) ∧
        P.y = (leVal s % 2 ^ 255 : Nat) ∧ (P.x ≠ 0 → P.x.val % 2 = leVal s / 2 ^ 255) :=
  geFrombytesNegateVartime_spec s

/-- **What was written is read.** From the bytes that `ge_p3_tobytes` writes of a point,
`ge_frombytes_negate_vartime` gives its opposite. -/
theorem ge_bytes_read {P : Point curve} {p : GeP3} (hp : p.Is P) :
    ∃ s q, geP3Tobytes p = some s ∧ geFrombytesNegateVartime s = some (some q) ∧ q.Is (-P) := by
  obtain ⟨s, hs, hval⟩ := geTobytes_spec (geP3ToP2_is hp)
  have hlt : P.y.val < 2 ^ 255 := (ZMod.val_lt P.y).trans (by norm_num [feP])
  rw [encode] at hval
  have hy : ((leVal s % 2 ^ 255 : Nat) : ZMod feP) = P.y := by
    rw [hval, Nat.add_mul_mod_self_left, Nat.mod_eq_of_lt hlt, ZMod.natCast_zmod_val]
  have hsign : leVal s / 2 ^ 255 = P.x.val % 2 := by
    rw [hval, Nat.add_mul_div_left _ _ (by positivity), Nat.div_eq_of_lt hlt, Nat.zero_add]
  rcases geFrombytesNegateVartime_spec s with ⟨-, hnone⟩ | ⟨q, Q, hq, hQ, hQy, hQx⟩
  · exact absurd hy.symm (hnone P)
  · rw [hy] at hQy
    rw [hsign] at hQx
    refine ⟨s, q, hs, hq, ?_⟩
    obtain rfl | rfl := Point.eq_or_eq_neg hQy
    · exact hQ
    · by_cases h0 : P.x = 0
      · have hself : -P = P := Point.ext (by rw [Point.neg_x, h0, neg_zero]) rfl
        rwa [hself] at hQ
      · exact absurd (hQx (neg_ne_zero.mpr h0)) (val_neg_parity h0)

theorem ge_bytes_read_base :
    ∃ s q, geP3Tobytes geBaseScaled = some s ∧ geFrombytesNegateVartime s = some (some q) ∧
      q.Is (-base) :=
  ge_bytes_read geBaseScaled_is

end Ntfw
