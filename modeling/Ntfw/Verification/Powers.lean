import Mathlib.FieldTheory.Finite.Basic
import Ntfw.Lib.Lucas
import Ntfw.Verification.Encoding

set_option autoImplicit false

/-! # Powers of field elements

`2 ^ 255 - 19` is a prime, so that `fe_invert`, which raises its operand to the power
`2 ^ 255 - 21`, inverts it. Both chains of squarings and products are followed exponent by
exponent. -/

namespace Ntfw

open Limbs Lucas

/-! ## The modulus is a prime -/

/-- Certificates of `2 ^ 255 - 19` and of the larger factors in them. -/
def feCertificates : List Certificate := [
  ⟨feP, 255, 2,
    [2, 2, 3, 65147, 74058212732561358302231226437062788676166966415465897661863160754340907]⟩,
  ⟨74058212732561358302231226437062788676166966415465897661863160754340907, 236, 2,
    [2, 3, 353, 57467, 132049, 1923133, 31757755568855353, 75445702479781427272750846543864801]⟩,
  ⟨75445702479781427272750846543864801, 117, 7,
    [2, 2, 2, 2, 2, 3, 3, 5, 5, 75707, 72106336199, 1919519569386763]⟩,
  ⟨31757755568855353, 55, 10, [2, 2, 2, 3, 31, 107, 223, 4153, 430751]⟩,
  ⟨1919519569386763, 51, 2, [2, 3, 7, 19, 47, 47, 127, 8574133]⟩,
  ⟨72106336199, 37, 7, [2, 13, 2773320623]⟩,
  ⟨2773320623, 32, 5, [2, 2437, 569003]⟩]

/-- The other factors. -/
def feSmall : List Nat := [2, 3, 5, 7, 13, 19, 31, 47, 107, 127, 223, 353, 2437, 4153, 57467, 65147,
  75707, 132049, 430751, 569003, 1923133, 8574133]

theorem feSmall_prime : ∀ q ∈ feSmall, q.Prime := by
  simp only [feSmall, List.forall_mem_cons]
  norm_num

theorem feCertificates_check :
    Supported feSmall feCertificates ∧ ∀ c ∈ feCertificates, c.Checks := by
  decide +kernel

/-- **`2 ^ 255 - 19` is a prime.** -/
theorem feP_prime : feP.Prime :=
  prime_of_supported feSmall_prime feCertificates_check.1 feCertificates_check.2 _
    List.mem_cons_self

instance : Fact feP.Prime := ⟨feP_prime⟩

/-! ## Exponents -/

theorem feSq_pow {m : Nat} {a : ZMod feP} {f : Fe} (hf : Elem 3 (a ^ m) f) :
    ∃ h, feSq f = some h ∧ Elem 1 (a ^ (2 * m)) h := by
  obtain ⟨h, hsq, hh⟩ := feSq_elem hf (by decide)
  exact ⟨h, hsq, by rwa [mul_comm, pow_mul]⟩

theorem feMul_pow {l m : Nat} {a : ZMod feP} {f g : Fe} (hf : Elem 3 (a ^ l) f)
    (hg : Elem 3 (a ^ m) g) : ∃ h, feMul f g = some h ∧ Elem 1 (a ^ (l + m)) h := by
  obtain ⟨h, hmul, hh⟩ := feMul_elem hf hg (by decide) (by decide)
  exact ⟨h, hmul, by rwa [pow_add]⟩

theorem feSqLoop_pow {a : ZMod feP} : ∀ (n : Nat) {m : Nat} {f : Fe}, Elem 1 (a ^ m) f →
    ∃ h, feSqLoop n f = some h ∧ Elem 1 (a ^ (2 ^ n * m)) h
  | 0, m, f, hf => ⟨f, rfl, by rwa [pow_zero, one_mul]⟩
  | n + 1, m, f, hf => by
      obtain ⟨g, hsq, hg⟩ := feSq_pow (hf.mono (by decide))
      obtain ⟨h, hloop, hh⟩ := feSqLoop_pow n hg
      refine ⟨h, ?_, by rwa [pow_succ, mul_assoc]⟩
      rw [feSqLoop, hsq]
      exact hloop

/-- An element is usable wherever one with larger limbs is. -/
theorem Elem.wide {a : ZMod feP} {h : Fe} (hh : Elem 1 a h) : Elem 3 a h := hh.mono (by decide)

/-- The power that `fe_invert` computes. -/
theorem feInvert_pow {a : ZMod feP} {z : Fe} (hz : Elem 3 (a ^ 1) z) :
    ∃ h, feInvert z = some h ∧ Elem 1 (a ^ (feP - 2)) h := by
  refine bind_spec (feSq_pow hz) fun t0 h0 => ?_
  refine bind_spec (feSq_pow h0.wide) fun t1 h1 => ?_
  refine bind_spec (feSqLoop_pow 1 h1) fun t1 h1 => ?_
  refine bind_spec (feMul_pow hz h1.wide) fun t1 h1 => ?_
  refine bind_spec (feMul_pow h0.wide h1.wide) fun t0 h0 => ?_
  refine bind_spec (feSq_pow h0.wide) fun t2 h2 => ?_
  refine bind_spec (feMul_pow h1.wide h2.wide) fun t1 h1 => ?_
  refine bind_spec (feSq_pow h1.wide) fun t2 h2 => ?_
  refine bind_spec (feSqLoop_pow 4 h2) fun t2 h2 => ?_
  refine bind_spec (feMul_pow h2.wide h1.wide) fun t1 h1 => ?_
  refine bind_spec (feSq_pow h1.wide) fun t2 h2 => ?_
  refine bind_spec (feSqLoop_pow 9 h2) fun t2 h2 => ?_
  refine bind_spec (feMul_pow h2.wide h1.wide) fun t2 h2 => ?_
  refine bind_spec (feSq_pow h2.wide) fun t3 h3 => ?_
  refine bind_spec (feSqLoop_pow 19 h3) fun t3 h3 => ?_
  refine bind_spec (feMul_pow h3.wide h2.wide) fun t2 h2 => ?_
  refine bind_spec (feSq_pow h2.wide) fun t2 h2 => ?_
  refine bind_spec (feSqLoop_pow 9 h2) fun t2 h2 => ?_
  refine bind_spec (feMul_pow h2.wide h1.wide) fun t1 h1 => ?_
  refine bind_spec (feSq_pow h1.wide) fun t2 h2 => ?_
  refine bind_spec (feSqLoop_pow 49 h2) fun t2 h2 => ?_
  refine bind_spec (feMul_pow h2.wide h1.wide) fun t2 h2 => ?_
  refine bind_spec (feSq_pow h2.wide) fun t3 h3 => ?_
  refine bind_spec (feSqLoop_pow 99 h3) fun t3 h3 => ?_
  refine bind_spec (feMul_pow h3.wide h2.wide) fun t2 h2 => ?_
  refine bind_spec (feSq_pow h2.wide) fun t2 h2 => ?_
  refine bind_spec (feSqLoop_pow 49 h2) fun t2 h2 => ?_
  refine bind_spec (feMul_pow h2.wide h1.wide) fun t1 h1 => ?_
  refine bind_spec (feSq_pow h1.wide) fun t1 h1 => ?_
  refine bind_spec (feSqLoop_pow 4 h1) fun t1 h1 => ?_
  obtain ⟨r, hr, h⟩ := feMul_pow h1.wide h0.wide
  refine ⟨r, hr, ?_⟩
  convert h using 2
  norm_num [feP]

/-- The power that `fe_pow22523` computes. -/
theorem fePow22523_pow {a : ZMod feP} {z : Fe} (hz : Elem 3 (a ^ 1) z) :
    ∃ h, fePow22523 z = some h ∧ Elem 1 (a ^ (2 ^ 252 - 3)) h := by
  refine bind_spec (feSq_pow hz) fun t0 h0 => ?_
  refine bind_spec (feSq_pow h0.wide) fun t1 h1 => ?_
  refine bind_spec (feSqLoop_pow 1 h1) fun t1 h1 => ?_
  refine bind_spec (feMul_pow hz h1.wide) fun t1 h1 => ?_
  refine bind_spec (feMul_pow h0.wide h1.wide) fun t0 h0 => ?_
  refine bind_spec (feSq_pow h0.wide) fun t0 h0 => ?_
  refine bind_spec (feMul_pow h1.wide h0.wide) fun t0 h0 => ?_
  refine bind_spec (feSq_pow h0.wide) fun t1 h1 => ?_
  refine bind_spec (feSqLoop_pow 4 h1) fun t1 h1 => ?_
  refine bind_spec (feMul_pow h1.wide h0.wide) fun t0 h0 => ?_
  refine bind_spec (feSq_pow h0.wide) fun t1 h1 => ?_
  refine bind_spec (feSqLoop_pow 9 h1) fun t1 h1 => ?_
  refine bind_spec (feMul_pow h1.wide h0.wide) fun t1 h1 => ?_
  refine bind_spec (feSq_pow h1.wide) fun t2 h2 => ?_
  refine bind_spec (feSqLoop_pow 19 h2) fun t2 h2 => ?_
  refine bind_spec (feMul_pow h2.wide h1.wide) fun t1 h1 => ?_
  refine bind_spec (feSq_pow h1.wide) fun t1 h1 => ?_
  refine bind_spec (feSqLoop_pow 9 h1) fun t1 h1 => ?_
  refine bind_spec (feMul_pow h1.wide h0.wide) fun t0 h0 => ?_
  refine bind_spec (feSq_pow h0.wide) fun t1 h1 => ?_
  refine bind_spec (feSqLoop_pow 49 h1) fun t1 h1 => ?_
  refine bind_spec (feMul_pow h1.wide h0.wide) fun t1 h1 => ?_
  refine bind_spec (feSq_pow h1.wide) fun t2 h2 => ?_
  refine bind_spec (feSqLoop_pow 99 h2) fun t2 h2 => ?_
  refine bind_spec (feMul_pow h2.wide h1.wide) fun t1 h1 => ?_
  refine bind_spec (feSq_pow h1.wide) fun t1 h1 => ?_
  refine bind_spec (feSqLoop_pow 49 h1) fun t1 h1 => ?_
  refine bind_spec (feMul_pow h1.wide h0.wide) fun t0 h0 => ?_
  refine bind_spec (feSq_pow h0.wide) fun t0 h0 => ?_
  refine bind_spec (feSqLoop_pow 1 h0) fun t0 h0 => ?_
  obtain ⟨r, hr, h⟩ := feMul_pow h0.wide hz
  refine ⟨r, hr, ?_⟩
  convert h using 2
  norm_num

/-! ## What the powers are -/

theorem inv_eq_pow (a : ZMod feP) : a⁻¹ = a ^ (feP - 2) := by
  by_cases ha : a = 0
  · rw [ha, inv_zero, zero_pow (by decide)]
  · refine (eq_inv_of_mul_eq_one_left ?_).symm
    rw [← pow_succ]
    exact ZMod.pow_card_sub_one_eq_one ha

/-- **`fe_invert` inverts**; of zero it is zero. -/
theorem feInvert_elem {k : Nat} {a : ZMod feP} {z : Fe} (hz : Elem k a z) (hk : k ≤ 3) :
    ∃ h, feInvert z = some h ∧ Elem 1 a⁻¹ h := by
  rw [inv_eq_pow]
  exact feInvert_pow (by rw [pow_one]; exact hz.mono hk)

theorem fePow22523_elem {k : Nat} {a : ZMod feP} {z : Fe} (hz : Elem k a z) (hk : k ≤ 3) :
    ∃ h, fePow22523 z = some h ∧ Elem 1 (a ^ (2 ^ 252 - 3)) h :=
  fePow22523_pow (by rw [pow_one]; exact hz.mono hk)

/-- **The two powers.** With limbs up to three times the bounds of a product, `fe_invert` computes
the inverse, or zero for zero, and `fe_pow22523` the power `2 ^ 252 - 3`, without a signed overflow
and with the limbs of a product. -/
theorem fe_powers {z : Fe} (hz : Upto (feTight 3) z) :
    (∃ h, feInvert z = some h ∧ Upto (feTight 1) h ∧ feVal h = (feVal z)⁻¹) ∧
      ∃ h, fePow22523 z = some h ∧ Upto (feTight 1) h ∧ feVal h = feVal z ^ (2 ^ 252 - 3) := by
  have hel : Elem 3 (feVal z) z := ⟨hz, rfl⟩
  obtain ⟨h, hinv, hh⟩ := feInvert_elem hel (le_refl _)
  obtain ⟨g, hpow, hg⟩ := fePow22523_elem hel (le_refl _)
  exact ⟨⟨h, hinv, hh.upto, hh.val⟩, g, hpow, hg.upto, hg.val⟩

/-- Limbs as large as a sum of three products has. -/
def feSum : Fe := #v[101669928, -50834964, 101669928, 50834964, -101669928, 50834964, 101669928,
  -50834964, -101669928, -50834964]

theorem fe_powers_sum :
    (∃ h, feInvert feSum = some h ∧ Upto (feTight 1) h ∧ feVal h = (feVal feSum)⁻¹) ∧
      ∃ h, fePow22523 feSum = some h ∧ Upto (feTight 1) h ∧
        feVal h = feVal feSum ^ (2 ^ 252 - 3) :=
  fe_powers (by decide)

end Ntfw
