import Ntfw.Ed25519.Ge

set_option autoImplicit false

/-! # Digits of a scalar

`slide` goes up the bits of a number and makes of each that is 1 an odd digit up to 15, by taking in
the bits above it, or by taking them away and carrying. A carry would be lost beyond the last digit;
it never goes there, because the digits below a digit lack less than the digit stands for. -/

namespace Ntfw

open Limbs Radix

/-! ## What digits stand for -/

/-- The number that the lower `n` digits are. -/
def digitSum (r : Vector Int 256) : Nat → Int
  | 0 => 0
  | n + 1 => 2 ^ n * slideDigit r n + digitSum r n

/-- Digits that a table of the odd multiples up to 15 serves. -/
def Window (digit : Int) : Prop := digit = 0 ∨ digit % 2 = 1 ∧ -15 ≤ digit ∧ digit ≤ 15

theorem slideDigit_of_lt {r : Vector Int 256} {i : Nat} (h : i < 256) : slideDigit r i = r[i] :=
  dif_pos h

theorem slideDigit_of_ge {r : Vector Int 256} {i : Nat} (h : 256 ≤ i) : slideDigit r i = 0 :=
  dif_neg (by omega)

theorem slideDigit_set (r : Vector Int 256) {i : Nat} (h : i < 256) (x : Int) (j : Nat) :
    slideDigit (r.set i x h) j = if i = j then x else slideDigit r j := by
  by_cases hj : j < 256
  · rw [slideDigit_of_lt hj, Vector.getElem_set, slideDigit_of_lt hj]
  · rw [slideDigit_of_ge (by omega), slideDigit_of_ge (by omega), if_neg (by omega)]

theorem digitSum_set (r : Vector Int 256) {i : Nat} (h : i < 256) (x : Int) (n : Nat) :
    digitSum (r.set i x h) n
      = digitSum r n + if i < n then 2 ^ i * (x - slideDigit r i) else 0 := by
  induction n with
  | zero => simp [digitSum]
  | succ n ih =>
      rw [digitSum, digitSum, ih, slideDigit_set]
      obtain hlt | rfl | hgt := lt_trichotomy i n
      · rw [if_neg (by omega), if_pos hlt, if_pos (by omega)]
        ring
      · rw [if_pos rfl, if_neg (by omega), if_pos (by omega)]
        ring
      · rw [if_neg (by omega), if_neg (by omega), if_neg (by omega)]
        ring

/-- Digits that depend on the lower ones alone. -/
theorem digitSum_congr {r s : Vector Int 256} {n : Nat}
    (h : ∀ j < n, slideDigit r j = slideDigit s j) : digitSum r n = digitSum s n := by
  induction n with
  | zero => rfl
  | succ n ih => rw [digitSum, digitSum, h n (by omega), ih fun j hj => h j (by omega)]

/-- Zeros add nothing. -/
theorem digitSum_zeros {r : Vector Int 256} {m : Nat} : ∀ (n : Nat), m ≤ n →
    (∀ j, m ≤ j → j < n → slideDigit r j = 0) → digitSum r n = digitSum r m := by
  intro n hmn
  induction n, hmn using Nat.le_induction with
  | base => exact fun _ => rfl
  | succ n hn ih =>
      intro h
      rw [digitSum, h n hn (by omega), ih fun j h1 h2 => h j h1 (by omega), mul_zero, zero_add]

/-- Ones add the difference of two powers. -/
theorem digitSum_ones {r : Vector Int 256} {m : Nat} : ∀ (n : Nat), m ≤ n →
    (∀ j, m ≤ j → j < n → slideDigit r j = 1) → digitSum r n = digitSum r m + 2 ^ n - 2 ^ m := by
  intro n hmn
  induction n, hmn using Nat.le_induction with
  | base => exact fun _ => by ring
  | succ n hn ih =>
      intro h
      rw [digitSum, h n hn (by omega), ih fun j h1 h2 => h j h1 (by omega)]
      ring

/-! ## Carries -/

/-- A digit that has not been reached. -/
def Bit (x : Int) : Prop := x = 0 ∨ x = 1

/-- **The carry** is put at the first zero from the digit on; it is lost only if there is none. -/
theorem slideCarry_spec : ∀ (n : Nat) {r : Vector Int 256}, n ≤ 256 →
    (∀ j, 256 - n ≤ j → Bit (slideDigit r j)) →
    (∀ j < 256 - n, slideDigit (slideCarry r n) j = slideDigit r j) ∧
      (∀ j, 256 - n ≤ j → Bit (slideDigit (slideCarry r n) j)) ∧
      (digitSum (slideCarry r n) 256 = digitSum r 256 + 2 ^ (256 - n) ∨
        ∀ j, 256 - n ≤ j → j < 256 → slideDigit r j = 1)
  | 0, r, _, hr => ⟨fun _ _ => rfl, hr, .inr fun j h1 h2 => by omega⟩
  | n + 1, r, hn, hr => by
      have hlt : 255 - n < 256 := by omega
      have hpos : 256 - (n + 1) = 255 - n := by omega
      rw [slideCarry]
      rw [hpos] at hr ⊢
      by_cases h0 : r[255 - n] = 0
      · rw [if_pos h0]
        refine ⟨fun j hj => ?_, fun j hj => ?_, .inl ?_⟩
        · rw [slideDigit_set, if_neg (by omega)]
        · rw [slideDigit_set]
          split_ifs
          · exact .inr rfl
          · exact hr j hj
        · rw [digitSum_set, if_pos hlt, slideDigit_of_lt hlt, h0]
          ring
      · rw [if_neg h0]
        have h1 : slideDigit r (255 - n) = 1 :=
          (hr _ le_rfl).resolve_left (by rwa [slideDigit_of_lt hlt])
        have hset := fun j => slideDigit_set r hlt 0 j
        obtain ⟨hlow, hbit, hsum⟩ := slideCarry_spec n (r := r.set (255 - n) 0) (by omega)
          fun j hj => by
            rw [hset, if_neg (by omega)]
            exact hr j (by omega)
        refine ⟨fun j hj => ?_, fun j hj => ?_, ?_⟩
        · rw [hlow j (by omega), hset, if_neg (by omega)]
        · by_cases hj' : 256 - n ≤ j
          · exact hbit j hj'
          · rw [hlow j (by omega), hset, if_pos (by omega)]
            exact .inl rfl
        · refine hsum.imp (fun h => ?_) fun h j h1' h2' => ?_
          · rw [h, digitSum_set, if_pos hlt, h1, show 256 - n = 255 - n + 1 by omega]
            ring
          · by_cases hj : 255 - n = j
            · rw [← hj, h1]
            · have hone := h j (by omega) h2'
              rwa [hset, if_neg hj] at hone

/-- The digit that is carried from is zero then. -/
theorem slideCarry_first {k : Nat} {r : Vector Int 256} (hk : k < 256)
    (hr : ∀ j, k ≤ j → Bit (slideDigit r j)) (h1 : slideDigit r k = 1) :
    slideDigit (slideCarry r (256 - k)) k = 0 := by
  obtain ⟨n, hn⟩ : ∃ n, 256 - k = n + 1 := ⟨255 - k, by omega⟩
  have hpos : 255 - n = k := by omega
  have hne : r[k] ≠ 0 := by rw [← slideDigit_of_lt hk, h1]; exact one_ne_zero
  simp only [hn, slideCarry, hpos]
  rw [if_neg hne]
  have hset := fun j => slideDigit_set r hk 0 j
  rw [(slideCarry_spec n (r := r.set k 0) (by omega) fun j hj => ?_).1 k (by omega), hset,
    if_pos rfl]
  rw [hset, if_neg (by omega)]
  exact hr j (by omega)

/-! ## Windows -/

/-- What the turns of a window leave: the digits below, an odd digit within the table, bits above,
and the number that is represented; the next ones have been taken in. -/
structure Sliding (r : Vector Int 256) (i m : Nat) (s : Vector Int 256) : Prop where
  low : ∀ j < i, slideDigit s j = slideDigit r j
  odd : slideDigit s i % 2 = 1
  ge : -15 ≤ slideDigit s i
  le : slideDigit s i ≤ 15
  bit : ∀ j, i < j → Bit (slideDigit s j)
  zero : ∀ j, i < j → j ≤ i + m → slideDigit s j = 0
  sum : digitSum s 256 = digitSum r 256

theorem signed_digit {x : Int} (hge : -15 ≤ x) (hle : x ≤ 15) : signed 8 x = some x :=
  signed_eq_self.mpr (by omega)

/-- In a number of at most 255 bits no carry is lost. -/
theorem Sliding.not_ones {r s : Vector Int 256} {i b : Nat} (h : Sliding r i b s)
    (hlow : -2 ^ i ≤ digitSum r i) (hV : digitSum r 256 < 2 ^ 255) (hpos : 0 < slideDigit s i)
    (hib : i + b + 1 < 256) : ¬∀ j, i + b + 1 ≤ j → j < 256 → slideDigit s j = 1 := by
  intro hones
  have hsum := digitSum_ones 256 (by omega) hones
  have hzeros := digitSum_zeros (i + b + 1) (by omega) fun j (h1 : i + 1 ≤ j) h2 =>
    h.zero j (by omega) (by omega)
  have hnext : digitSum s (i + 1) = 2 ^ i * slideDigit s i + digitSum s i := rfl
  rw [h.sum, hzeros, hnext, digitSum_congr h.low] at hsum
  have hpow : (2 : Int) ^ (i + b + 1) ≤ 2 ^ 255 := pow_le_pow_right₀ (by norm_num) (by omega)
  have hdig : (2 : Int) ^ i ≤ 2 ^ i * slideDigit s i :=
    le_mul_of_one_le_right (by positivity) hpos
  norm_num at hsum hpow hV
  linarith

/-- A digit that is 1 is taken into the one below by an addition. -/
theorem Sliding.add {r s : Vector Int 256} {i b : Nat} (h : Sliding r i b s)
    (hib : i + (b + 1) < 256) (h1 : slideDigit s (i + (b + 1)) = 1)
    (hle : slideDigit s i + 2 ^ (b + 1) ≤ 15) :
    Sliding r i (b + 1)
      ((s.set i (slideDigit s i + 2 ^ (b + 1)) (by omega)).set (i + (b + 1)) 0) := by
  have hi : i < 256 := by omega
  have hodd := h.odd
  have hge := h.ge
  have hpow : (2 : Int) ^ (b + 1) = 2 * 2 ^ b := pow_succ' 2 b
  have hpos : (0 : Int) < 2 ^ b := by positivity
  refine ⟨fun j hj => ?_, ?_, ?_, ?_, fun j hj => ?_, fun j hj hjb => ?_, ?_⟩
  · rw [slideDigit_set, if_neg (by omega), slideDigit_set, if_neg (by omega), h.low j hj]
  · rw [slideDigit_set, if_neg (by omega), slideDigit_set, if_pos rfl]
    omega
  · rw [slideDigit_set, if_neg (by omega), slideDigit_set, if_pos rfl]
    omega
  · rw [slideDigit_set, if_neg (by omega), slideDigit_set, if_pos rfl]
    exact hle
  · rw [slideDigit_set, slideDigit_set, if_neg (by omega : i ≠ j)]
    split_ifs
    · exact .inl rfl
    · exact h.bit j hj
  · rw [slideDigit_set, slideDigit_set, if_neg (by omega : i ≠ j)]
    split_ifs
    · rfl
    · exact h.zero j hj (by omega)
  · rw [digitSum_set, digitSum_set, if_pos hib, if_pos hi, slideDigit_set, if_neg (by omega), h1,
      h.sum, pow_add]
    ring

theorem two_pow_small {b : Nat} (hb : b < 4) :
    (2 : Int) ^ (b + 1) ≤ 8 ∨ (2 : Int) ^ (b + 1) = 16 := by
  interval_cases b <;> norm_num

/-- A digit that is 1 is taken into the one below by a subtraction and a carry. -/
theorem Sliding.sub {r s : Vector Int 256} {i b : Nat} (h : Sliding r i b s)
    (hlow : -2 ^ i ≤ digitSum r i) (hV : digitSum r 256 < 2 ^ 255)
    (hib : i + (b + 1) < 256) (h1 : slideDigit s (i + (b + 1)) = 1)
    (hgt : 15 < slideDigit s i + 2 ^ (b + 1)) (hge : -15 ≤ slideDigit s i - 2 ^ (b + 1)) :
    Sliding r i (b + 1) (slideCarry (s.set i (slideDigit s i - 2 ^ (b + 1)) (by omega))
      (256 - (i + (b + 1)))) := by
  have hi : i < 256 := by omega
  have hodd := h.odd
  have hle := h.le
  have hpow : (2 : Int) ^ (b + 1) = 2 * 2 ^ b := pow_succ' 2 b
  have hpos : (0 : Int) < 2 ^ b := by positivity
  have hk : 256 - (256 - (i + (b + 1))) = i + (b + 1) := by omega
  have hset := fun j => slideDigit_set s hi (slideDigit s i - 2 ^ (b + 1)) j
  have hsum := digitSum_set s hi (slideDigit s i - 2 ^ (b + 1)) 256
  generalize s.set i (slideDigit s i - 2 ^ (b + 1)) = s' at hset hsum ⊢
  obtain ⟨hlow', hbit', hsum'⟩ := slideCarry_spec (256 - (i + (b + 1))) (r := s') (by omega)
    fun j hj => by
      rw [hset, if_neg (by omega)]
      exact h.bit j (by omega)
  have hfirst := slideCarry_first (r := s') hib (fun j hj => by
    rw [hset, if_neg (by omega)]
    exact h.bit j (by omega)) (by rw [hset, if_neg (by omega), h1])
  rw [hk] at hlow' hbit' hsum'
  have hsi : slideDigit s' i = slideDigit s i - 2 ^ (b + 1) := by rw [hset, if_pos rfl]
  have hdigit : 0 < slideDigit s i := by
    have hb : b < 4 := by
      by_contra hb
      have h32 : (2 : Int) ^ 5 ≤ 2 ^ (b + 1) := pow_le_pow_right₀ (by norm_num) (by omega)
      omega
    have h16 := two_pow_small hb
    omega
  have hlost : ¬∀ j, i + (b + 1) ≤ j → j < 256 → slideDigit s' j = 1 := fun hones =>
    h.not_ones hlow hV hdigit hib fun j hj hj' => by
      have hone := hones j hj hj'
      rwa [hset, if_neg (by omega)] at hone
  refine ⟨fun j hj => ?_, ?_, ?_, ?_, fun j hj => ?_, fun j hj hjb => ?_, ?_⟩
  · rw [hlow' j (by omega), hset, if_neg (by omega), h.low j hj]
  · rw [hlow' i (by omega), hsi]
    omega
  · rw [hlow' i (by omega), hsi]
    exact hge
  · rw [hlow' i (by omega), hsi]
    omega
  · by_cases hj' : i + (b + 1) ≤ j
    · exact hbit' j hj'
    · rw [hlow' j (by omega), hset, if_neg (by omega)]
      exact h.bit j hj
  · obtain hlt | rfl := Nat.lt_or_eq_of_le hjb
    · rw [hlow' j hlt, hset, if_neg (by omega)]
      exact h.zero j hj (by omega)
    · exact hfirst
  · rw [hsum'.resolve_right hlost, hsum, if_pos hi, h.sum, pow_add]
    ring

/-- The turns of the window of digit `i`. -/
theorem slideWindow_spec {r : Vector Int 256} {i : Fin 256} (hlow : -2 ^ i.val ≤ digitSum r i.val)
    (hV : digitSum r 256 < 2 ^ 255) :
    ∀ (n : Nat) {s : Vector Int 256}, n ≤ 6 → Sliding r i (6 - n) s →
      ∃ t, slideWindow i s n = some t ∧ Sliding r i 4 t
  | 0, s, _, h => ⟨s, rfl, h.low, h.odd, h.ge, h.le, h.bit,
      fun j h1 h2 => h.zero j h1 (by omega), h.sum⟩
  | n + 1, s, hn, h => by
      have hge := h.ge
      have hle := h.le
      obtain ⟨b, hb⟩ : ∃ b, 6 - n = b + 1 := ⟨5 - n, by omega⟩
      rw [show 6 - (n + 1) = b by omega] at h
      have hi : s[i] = slideDigit s i := (slideDigit_of_lt i.isLt).symm
      have ih := fun t => slideWindow_spec hlow hV n (s := t) (by omega)
      rw [hb] at ih
      simp only [slideWindow, hb, hi]
      by_cases hib : i.val + (b + 1) < 256
      · rw [dif_pos hib]
        have hk : s[i.val + (b + 1)] = slideDigit s (i.val + (b + 1)) := (slideDigit_of_lt hib).symm
        simp only [hk]
        rcases h.bit (i.val + (b + 1)) (by omega) with h0 | h1
        · rw [if_neg (by simp [h0])]
          refine ih s ⟨h.low, h.odd, h.ge, h.le, h.bit, fun j hj hjb => ?_, h.sum⟩
          by_cases hjb' : j ≤ i + b
          · exact h.zero j hj hjb'
          · rwa [show j = i.val + (b + 1) by omega]
        · rw [if_pos (by simp [h1]), h1, one_mul]
          by_cases hadd : slideDigit s i + 2 ^ (b + 1) ≤ 15
          · have hpos : (0 : Int) < 2 ^ (b + 1) := by positivity
            rw [if_pos hadd, signed_digit (by omega) hadd]
            exact ih _ (h.add hib h1 hadd)
          · rw [if_neg hadd]
            by_cases hsub : -15 ≤ slideDigit s i - 2 ^ (b + 1)
            · have hpos : (0 : Int) < 2 ^ (b + 1) := by positivity
              rw [if_pos hsub, signed_digit hsub (by omega)]
              exact ih _ (h.sub hlow hV hib h1 (by omega) hsub)
            · rw [if_neg hsub]
              refine ⟨s, rfl, h.low, h.odd, h.ge, h.le, h.bit, fun j hj hjb => ?_, h.sum⟩
              have hodd := h.odd
              have hb4 : 4 ≤ b := by
                by_contra hb4
                have h16 := two_pow_small (Nat.lt_of_not_le hb4)
                omega
              exact h.zero j hj (by omega)
      · rw [dif_neg hib]
        refine ⟨s, rfl, h.low, h.odd, h.ge, h.le, h.bit, fun j hj hjb => ?_, h.sum⟩
        by_cases hjb' : j ≤ i + b
        · exact h.zero j hj hjb'
        · exact slideDigit_of_ge (by omega)

/-! ## The whole -/

/-- Before digit `i`: the digits below are those of a table, the others bits, and what the digits
below lack is less than the next digit that is not zero stands for. -/
structure Slid (V : Int) (i : Nat) (r : Vector Int 256) : Prop where
  window : ∀ j < i, Window (slideDigit r j)
  bit : ∀ j, i ≤ j → Bit (slideDigit r j)
  gap : ∃ g, (∀ j, i ≤ j → j < i + g → slideDigit r j = 0) ∧ -2 ^ (i + g) ≤ digitSum r i
  sum : digitSum r 256 = V

theorem Slid.step {V : Int} (hV : V < 2 ^ 255) {i : Fin 256} {r : Vector Int 256}
    (h : Slid V i r) :
    ∃ t, (if r[i] ≠ 0 then slideWindow i r 6 else some r) = some t ∧ Slid V (i + 1) t := by
  have hi : r[i] = slideDigit r i := (slideDigit_of_lt i.isLt).symm
  obtain ⟨g, hzero, hlow⟩ := h.gap
  rw [hi]
  rcases h.bit i le_rfl with h0 | h1
  · rw [if_neg (by simp [h0])]
    refine ⟨r, rfl, fun j hj => ?_, fun j hj => h.bit j (by omega),
      ⟨g - 1, fun j h1 h2 => hzero j (by omega) (by omega), ?_⟩, h.sum⟩
    · obtain hlt | rfl := Nat.lt_succ_iff_lt_or_eq.mp hj
      · exact h.window j hlt
      · exact .inl h0
    · have hpow : (2 : Int) ^ (i.val + g) ≤ 2 ^ (i.val + 1 + (g - 1)) :=
        pow_le_pow_right₀ (by norm_num) (by omega)
      rw [digitSum, h0, mul_zero, zero_add]
      exact (neg_le_neg hpow).trans hlow
  · rw [if_pos (by simp [h1])]
    have hg : g = 0 := by
      by_contra hg
      have := hzero i le_rfl (by omega)
      omega
    rw [hg, add_zero] at hlow
    obtain ⟨t, ht, hs⟩ := slideWindow_spec (s := r) hlow (h.sum ▸ hV) 6 le_rfl
      ⟨fun _ _ => rfl, by rw [h1]; rfl, by omega, by omega, fun j hj => h.bit j hj.le,
        fun j h1 h2 => by omega, rfl⟩
    refine ⟨t, ht, fun j hj => ?_, fun j hj => hs.bit j hj, ⟨4, fun j h1 h2 => ?_, ?_⟩,
      hs.sum.trans h.sum⟩
    · obtain hlt | rfl := Nat.lt_succ_iff_lt_or_eq.mp hj
      · exact hs.low j hlt ▸ h.window j hlt
      · exact .inr ⟨hs.odd, hs.ge, hs.le⟩
    · exact hs.zero j h1 (by omega)
    · have hge := hs.ge
      have hpos : (0 : Int) < 2 ^ i.val := by positivity
      rw [digitSum, digitSum_congr hs.low, pow_add, pow_add]
      nlinarith

/-- A bit of the bytes. -/
theorem slideBit_eq (a : Vector byte 32) (i : Fin 256) :
    slideBit a i = ((leVal a).testBit i).toNat := by
  have hbits := bits_leVal a ⟨i.val >>> 3, by omega⟩
  have hbyte : (a.get ⟨i.val >>> 3, by omega⟩).toNat = bits (leVal a) (8 * (i.val >>> 3)) 8 :=
    hbits.symm
  have hmod : i.val &&& 7 = i.val % 8 := Nat.and_two_pow_sub_one_eq_mod i.val 3
  have htest := testBit_bits (leVal a) (8 * (i.val >>> 3)) 8 (i.val % 8)
  rw [decide_eq_true (by omega), Bool.true_and, Nat.shiftRight_eq_div_pow,
    show 8 * (i.val / 2 ^ 3) + i.val % 8 = i.val by omega] at htest
  rw [slideBit, BitVec.toNat_and, BitVec.toNat_ushiftRight, hbyte, hmod, ← htest,
    Nat.shiftRight_eq_div_pow i.val, Nat.testBit]
  change ((1 &&& bits (leVal a) (8 * (i.val / 2 ^ 3)) 8 >>> (i.val % 8) : Nat) : Int) = _
  rw [Nat.one_and_eq_mod_two]
  rcases Nat.mod_two_eq_zero_or_one (bits (leVal a) (8 * (i.val / 2 ^ 3)) 8 >>> (i.val % 8))
    with h | h <;> rw [h] <;> rfl

theorem digitSum_bits (a : Vector byte 32) : ∀ n ≤ 256,
    digitSum (Vector.ofFn (slideBit a)) n = (leVal a % 2 ^ n : Nat)
  | 0, _ => by simp [digitSum, Nat.mod_one]
  | n + 1, hn => by
      rw [digitSum, digitSum_bits a n (by omega), slideDigit_of_lt (by omega), Vector.getElem_ofFn,
        slideBit_eq, Nat.toNat_testBit, Nat.mod_pow_succ]
      push_cast
      ring

/-- All digits are those of a table. -/
def Windows (r : Vector Int 256) : Prop := ∀ i, Window (slideDigit r i)

/-- **`slide`** makes digits for the tables, of a number of at most 255 bits. -/
theorem slide_spec {a : Vector byte 32} (ha : leVal a < 2 ^ 255) :
    ∃ r, slide a = some r ∧ Windows r ∧ digitSum r 256 = leVal a := by
  have hbit : ∀ j, Bit (slideDigit (Vector.ofFn (slideBit a)) j) := fun j => by
    by_cases hj : j < 256
    · rw [slideDigit_of_lt hj, Vector.getElem_ofFn, slideBit_eq]
      cases (leVal a).testBit j
      · exact .inl rfl
      · exact .inr rfl
    · exact .inl (slideDigit_of_ge (by omega))
  have hstart : Slid (leVal a) (0 : Fin 257).val (Vector.ofFn (slideBit a)) :=
    ⟨fun j hj => absurd hj (Nat.not_lt_zero j), fun j _ => hbit j,
      ⟨0, fun j h1 h2 => by omega, by norm_num [digitSum]⟩, by
        rw [digitSum_bits a 256 le_rfl, Nat.mod_eq_of_lt (leVal_lt a)]⟩
  obtain ⟨r, hr, hslid⟩ := foldlM_finRange (fun i r => Slid (leVal a) i.val r) hstart
    fun i r hr => Slid.step (by exact_mod_cast ha) hr
  refine ⟨r, hr, fun i => ?_, hslid.sum⟩
  by_cases hi : i < 256
  · exact hslid.window i hi
  · exact .inl (slideDigit_of_ge (by omega))

end Ntfw
