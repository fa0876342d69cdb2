import Ntfw.Verification.Field

set_option autoImplicit false

/-! # Field elements as bytes

`fe_tobytes` estimates the multiple of `2 ^ 255 - 19` in its operand from the uppermost limb, by a
chain of rounded-down shifts, and writes what is left; it has to be exact for the bytes to depend on
the element alone. -/

namespace Ntfw

open Limbs Radix

/-! ## Loads -/

variable {n : Nat}

theorem load3_toNat (s : Vector byte n) (o : Nat) (h : o + 3 ≤ n) :
    (load3 s o h).toNat = bits (leVal s) (8 * o) 24 := by
  have hb : ∀ k (hk : o + k < n), s[o + k].toNat = bits (leVal s) (8 * o + 8 * k) 8 := by
    intro k hk
    rw [← Nat.mul_add]
    exact (bits_leVal s ⟨o + k, hk⟩).symm
  have h0 : (s[o].setWidth 64 : u64).toNat = s[o].toNat := by simp [BitVec.toNat_setWidth]; omega
  have hlt0 : (s[o].setWidth 64 : u64).toNat < 2 ^ 8 := by rw [h0]; exact s[o].isLt
  have h1 := toNat_or_shiftLeft (w := 64) (k := 8) s[o + 1] hlt0 (by decide)
  have hlt1 : s[o].toNat + 2 ^ 8 * s[o + 1].toNat < 2 ^ 16 := by omega
  rw [h0] at h1
  have h2 := toNat_or_shiftLeft (w := 64) (k := 16) s[o + 2] (h1 ▸ hlt1) (by decide)
  rw [load3, h2, h1]
  have e0 := hb 0 (by omega)
  have e1 := hb 1 (by omega)
  have e2 := hb 2 (by omega)
  simp only [Nat.add_zero, Nat.mul_zero] at e0
  rw [e0, e1, e2, show (24 : Nat) = 8 + 8 + 8 from rfl, bits_split, bits_split]

theorem load4_toNat (s : Vector byte n) (o : Nat) (h : o + 4 ≤ n) :
    (load4 s o h).toNat = bits (leVal s) (8 * o) 32 := by
  have h3 := load3_toNat s o (by omega)
  have hlt : (load3 s o (by omega)).toNat < 2 ^ 24 := h3 ▸ bits_lt _ _ _
  have h4 := toNat_or_shiftLeft (w := 64) (k := 24) s[o + 3] hlt (by decide)
  have e3 : s[o + 3].toNat = bits (leVal s) (8 * o + 24) 8 :=
    (bits_leVal s ⟨o + 3, by omega⟩).symm
  rw [show (32 : Nat) = 24 + 8 from rfl, bits_split, ← h3, ← e3, ← h4]
  rfl

/-- A word of which the upper bits are free, shifted to the left. -/
theorem toInt_shiftLeft {x : u64} {k l : Nat} (hx : x.toNat < 2 ^ k) (hkl : k + l ≤ 63) :
    (x <<< l).toInt = (x.toNat : Int) * 2 ^ l := by
  have hlt : x.toNat * 2 ^ l < 2 ^ 63 := calc
    x.toNat * 2 ^ l < 2 ^ k * 2 ^ l := Nat.mul_lt_mul_of_pos_right hx (Nat.two_pow_pos l)
    _ = 2 ^ (k + l) := (Nat.pow_add 2 k l).symm
    _ ≤ 2 ^ 63 := Nat.pow_le_pow_right (by decide) hkl
  have hnat : (x <<< l).toNat = x.toNat * 2 ^ l := by
    rw [BitVec.toNat_shiftLeft, Nat.shiftLeft_eq, Nat.mod_eq_of_lt (hlt.trans (by decide))]
  rw [BitVec.toInt_eq_toNat_of_lt (by omega), hnat]
  push_cast
  rfl

theorem load3_shift (s : Vector byte n) (o : Nat) (h : o + 3 ≤ n) {l : Nat} (hl : l ≤ 39) :
    (load3 s o h <<< l).toInt = (bits (leVal s) (8 * o) 24 : Int) * 2 ^ l := by
  have h3 := load3_toNat s o h
  rw [toInt_shiftLeft (k := 24) (h3 ▸ bits_lt _ _ _) (by omega), h3]

theorem load4_toInt (s : Vector byte n) (o : Nat) (h : o + 4 ≤ n) :
    (load4 s o h).toInt = (bits (leVal s) (8 * o) 32 : Int) := by
  have h4 := load4_toNat s o h
  have hlt := bits_lt (leVal s) (8 * o) 32
  rw [BitVec.toInt_eq_toNat_of_lt (by omega), h4]

theorem and_mask_toNat {x : u64} {k : Nat} (hk : k < 64) :
    (x &&& BitVec.ofNat 64 (2 ^ k - 1)).toNat = x.toNat % 2 ^ k := by
  have hlt : 2 ^ k - 1 < 2 ^ 64 :=
    (Nat.sub_lt (Nat.two_pow_pos k) (by decide)).trans (Nat.pow_lt_pow_right (by decide) hk)
  rw [BitVec.toNat_and, BitVec.toNat_ofNat, Nat.mod_eq_of_lt hlt, Nat.and_two_pow_sub_one_eq_mod]

theorem load3_mask_shift (s : Vector byte n) (o : Nat) (h : o + 3 ≤ n) :
    ((load3 s o h &&& 8388607) <<< 2).toInt = (bits (leVal s) (8 * o) 23 : Int) * 2 ^ 2 := by
  have hmask : (load3 s o h &&& 8388607).toNat = bits (leVal s) (8 * o) 23 := by
    have hand := and_mask_toNat (x := load3 s o h) (k := 23) (by decide)
    rw [load3_toNat] at hand
    have hbits := bits_bits (a := 8 * o) (b := 0) (w := 24) (leVal s) (show 0 + 23 ≤ 24 by decide)
    rw [Nat.add_zero] at hbits
    rw [← hbits, bits, Nat.pow_zero, Nat.div_one]
    exact hand
  rw [toInt_shiftLeft (k := 23) (hmask ▸ bits_lt _ _ _) (by decide), hmask]

/-! ## `fe_frombytes` -/

/-- The weights of the limbs, and what comes after them. -/
def feWeights (i : Fin 11) : Nat :=
  (#v[0, 26, 51, 77, 102, 128, 153, 179, 204, 230, 255] : Vector Nat 11)[i]

theorem feWeights_starts : Starts feOff feWeights := by decide

/-- Which bits of the number each load takes. -/
def feLoadBounds (i : Fin 11) : Nat :=
  (#v[0, 32, 56, 80, 104, 128, 160, 184, 208, 232, 255] : Vector Nat 11)[i]

/-- A load holds the bits of its limb, shifted to where they are in it. -/
theorem feLoads_get (s : Vector byte 32) (i : Fin 10) :
    (feLoads s).get i = (bits (leVal s) (feLoadBounds i.castSucc) (width feLoadBounds i) : Int) *
      2 ^ (feLoadBounds i.castSucc - feWeights i.castSucc) := by
  have h3 := fun o h l hl => load3_shift s o h (l := l) hl
  have h4 : ∀ o h, (load4 s o h).toInt = (bits (leVal s) (8 * o) 32 : Int) * 2 ^ 0 := fun o h => by
    rw [load4_toInt, pow_zero, mul_one]
  fin_cases i
  · exact h4 0 _
  · exact h3 4 _ 6 (by decide)
  · exact h3 7 _ 5 (by decide)
  · exact h3 10 _ 3 (by decide)
  · exact h3 13 _ 2 (by decide)
  · exact h4 16 _
  · exact h3 20 _ 7 (by decide)
  · exact h3 23 _ 5 (by decide)
  · exact h3 26 _ 4 (by decide)
  · exact load3_mask_shift s 29 _

theorem feLoadBounds_ordered : Ordered feLoadBounds := by decide

theorem feWeights_le_load : ∀ i : Fin 10, feWeights i.castSucc ≤ feLoadBounds i.castSucc := by
  decide

/-- The loads represent the bytes without the uppermost bit. -/
theorem value_feLoads (s : Vector byte 32) :
    value feOff (feLoads s) = (leVal s % 2 ^ 255 : Nat) := by
  have hsum := sum_bits (leVal s) feLoadBounds_ordered rfl
  have hlast : feLoadBounds (Fin.last 10) = 255 := by decide
  rw [hlast] at hsum
  rw [← hsum, value]
  push_cast
  refine Finset.sum_congr rfl fun i _ => ?_
  obtain ⟨c, hc⟩ := Nat.exists_eq_add_of_le (feWeights_le_load i)
  have hload := feLoads_get s i
  rw [hc, Nat.add_sub_cancel_left] at hload
  rw [show (feLoads s)[i] = _ from hload, feWeights_starts i, hc, pow_add]
  ring

/-- The loads are small. -/
def feLoadMax : Vector Nat 10 := Vector.replicate 10 (2 ^ 32)

theorem feLoads_upto (s : Vector byte 32) : Upto feLoadMax (feLoads s) := by
  intro i
  have hw : ∀ i : Fin 10, 2 ^ width feLoadBounds i * 2 ^ (feLoadBounds i.castSucc - feWeights i.castSucc)
      ≤ 2 ^ 32 := by decide
  have hlt := (bits_lt (leVal s) (feLoadBounds i.castSucc) (width feLoadBounds i)).le
  rw [show (feLoads s)[i] = _ from feLoads_get s i]
  have hle := (Nat.mul_le_mul_right
    (2 ^ (feLoadBounds i.castSucc - feWeights i.castSucc)) hlt).trans (hw i)
  simp only [feLoadMax, Fin.getElem_fin, Vector.getElem_replicate]
  rw [abs_of_nonneg (by positivity)]
  exact_mod_cast hle

theorem feWideCarries_carries : Limbs.Carries 64 feWideCarries feLoadMax (feTight 1) := by
  decide

/-- **`fe_frombytes` reads the bytes as a number**, without the uppermost bit. -/
theorem feFrombytes_spec (s : Vector byte 32) :
    ∃ h, feFrombytes s = some h ∧ Elem 1 ((leVal s % 2 ^ 255 : Nat) : ZMod feP) h := by
  obtain ⟨h, hrun, hup, hval⟩ := feWideCarries_carries.run feWideCarries_keeps (feLoads_upto s)
  refine ⟨h, ?_, hup, ?_⟩
  · rw [feFrombytes, hrun]
    exact feStore_of_upto (hup.mono (feTight_mono (by decide)))
  · rw [value_feLoads] at hval
    exact_mod_cast feVal_eq_iff.mpr hval

/-! ## `fe_tobytes`: the quotient -/

theorem feWeights_succ : ∀ i : Fin 10, feWeights i.succ = feWeights i.castSucc + feWidth i := by
  decide

/-- What the quotient has become before limb `i`: the lower limbs and the estimate `r`, over the
weight of the limb. -/
structure QuotientAt (h : Fe) (r : Int) (i : Fin 11) (q : Int) : Prop where
  small : |q| ≤ 40
  eq : q = (part feOff h i.val + r) / 2 ^ feWeights i

theorem feQuotientStep_spec {h : Fe} {r q : Int} {i : Fin 10} (hh : Upto feLoose h)
    (hq : QuotientAt h r i.castSucc q) :
    ∃ q', feQuotientStep h q i = some q' ∧ QuotientAt h r i.succ q' := by
  have hloose : ∀ i : Fin 10, feLoose[i] ≤ 110729625 := by decide
  have hi : |h[i]| ≤ 110729625 := (hh i).trans (by exact_mod_cast hloose i)
  have hsum : |h[i] + q| ≤ (110729665 : Nat) := by
    have := (abs_add_le h[i] q).trans (add_le_add hi hq.small)
    exact_mod_cast this
  refine ⟨(h[i] + q) >>> feWidth i, ?_, ?_, ?_⟩
  · rw [feQuotientStep, signed_of_abs_le (w := 32) hsum (by decide)]
    rfl
  · have hw : feWidth i = 25 ∨ feWidth i = 26 := by
      unfold feWidth
      split <;> simp
    obtain ⟨hlo, hhi⟩ := abs_le.mp hsum
    rw [Int.shiftRight_eq_div_pow]
    rcases hw with hw | hw <;> rw [hw, abs_le] <;> constructor <;> omega
  · have hpos : (0 : Int) < 2 ^ feWeights i.castSucc := by positivity
    have hnext : part feOff h i.succ.val + r
        = (part feOff h i.castSucc.val + r) + 2 ^ feWeights i.castSucc * h[i] := by
      rw [Fin.val_succ, part_succ, feWeights_starts i, Fin.val_castSucc]
      ring
    rw [hnext, feWeights_succ, pow_add, ← Int.ediv_ediv_of_nonneg hpos.le,
      Int.add_mul_ediv_left _ _ hpos.ne', ← hq.eq, Int.shiftRight_eq_div_pow, add_comm]
    push_cast
    rfl

/-- The estimate that the quotient starts from: what the uppermost limb says of it, times 19. -/
def feEstimate (h : Fe) : Int := (19 * h.get (Fin.last 9) + 2 ^ 24) / 2 ^ 25

/-- **The quotient**: the limbs and the estimate, over `2 ^ 255`. -/
theorem feQuotient_spec {h : Fe} (hh : Upto feLoose h) :
    ∃ q, feQuotient h = some q ∧ |q| ≤ 40 ∧ q = (value feOff h + feEstimate h) / 2 ^ 255 := by
  have h9 : |h[9]| ≤ 55364812 := hh 9
  obtain ⟨hlo, hhi⟩ := abs_le.mp h9
  have hm : signed 32 (19 * h[9]) = some (19 * h[9]) := signed_eq_self.mpr (by omega)
  have ht : signed 32 (19 * h[9] + 2 ^ 24) = some (19 * h[9] + 2 ^ 24) :=
    signed_eq_self.mpr (by omega)
  have hstart : QuotientAt h (feEstimate h) 0 ((19 * h[9] + 2 ^ 24) >>> (25 : Nat)) := by
    refine ⟨?_, ?_⟩
    · rw [Int.shiftRight_eq_div_pow, abs_le]
      constructor <;> omega
    · rw [Fin.val_zero, part_zero, Int.shiftRight_eq_div_pow, zero_add,
        show feWeights 0 = 0 from rfl, pow_zero, Int.ediv_one]
      rfl
  obtain ⟨q, hq, hend⟩ := foldlM_finRange (fun i q => QuotientAt h (feEstimate h) i q) hstart
    fun i q hq => feQuotientStep_spec hh hq
  refine ⟨q, ?_, hend.small, ?_⟩
  · rw [feQuotient, hm, Option.bind_eq_bind, Option.bind_some, ht]
    exact hq
  · rw [hend.eq, Fin.val_last, part_all]
    rfl

/-- Below the uppermost limb there is less than `2 ^ 232`. -/
theorem feLoose_low :
    ∑ i : Fin 9, (2 : Int) ^ feOff[i.castSucc] * feLoose[i.castSucc] ≤ 2 ^ 232 := by
  decide

/-- `(value + estimate) / 2 ^ 255` is the multiple of `2 ^ 255 - 19` in the value: the estimate
replaces the 19 times the multiple that the division by `2 ^ 255` leaves out. -/
theorem feEstimate_exact {h : Fe} (hh : Upto feLoose h) :
    (value feOff h + feEstimate h) / 2 ^ 255 = value feOff h / feP := by
  have hmod := Int.emod_add_mul_ediv (value feOff h) feP
  have hnn := Int.emod_nonneg (value feOff h) (b := (feP : Int)) (by decide)
  have hlt := Int.emod_lt_of_pos (value feOff h) (b := (feP : Int)) (by decide)
  have hest := Int.emod_add_mul_ediv ((19 : Int) * h[9] + 2 ^ 24) (2 ^ 25)
  have hest0 := Int.emod_nonneg ((19 : Int) * h[9] + 2 ^ 24) (b := 2 ^ 25) (by decide)
  have hest1 := Int.emod_lt_of_pos ((19 : Int) * h[9] + 2 ^ 24) (b := 2 ^ 25) (by decide)
  have hlow : |value feOff h - (2 : Int) ^ 230 * h[9]| ≤ 2 ^ 232 := by
    have hterm : ∀ i : Fin 10, |(2 : Int) ^ feOff[i] * h[i]| ≤ 2 ^ feOff[i] * feLoose[i] := by
      intro i
      rw [abs_mul, abs_of_nonneg (by positivity)]
      exact mul_le_mul_of_nonneg_left (hh i) (by positivity)
    have hsplit : value feOff h - (2 : Int) ^ 230 * h[9]
        = ∑ i : Fin 9, (2 : Int) ^ feOff[i.castSucc] * h[i.castSucc] := by
      rw [value, Fin.sum_univ_castSucc]
      exact add_sub_cancel_right _ _
    rw [hsplit]
    refine (Finset.abs_sum_le_sum_abs _ _).trans
      ((Finset.sum_le_sum fun i _ => hterm i.castSucc).trans feLoose_low)
  have h9 : |h[9]| ≤ 55364812 := hh 9
  rw [abs_le] at hlow h9
  rw [show feEstimate h = ((19 : Int) * h[9] + 2 ^ 24) / 2 ^ 25 from rfl]
  set V := value feOff h
  set e := ((19 : Int) * h[9] + 2 ^ 24) / 2 ^ 25
  set q := V / (feP : Int)
  rw [feP_cast] at hmod hnn hlt
  rw [Int.ediv_eq_iff_of_pos (by positivity)]
  constructor <;> linarith

/-! ## `fe_tobytes`: the bytes -/

def feFloorCarries : List (Move 10) := (List.finRange 10).map feFloorCarry

/-- The limbs that the bytes are taken from; the uppermost one has a bit to spare. -/
def feByteBounds (i : Fin 11) : Nat :=
  (#v[0, 26, 51, 77, 102, 128, 153, 179, 204, 230, 256] : Vector Nat 11)[i]

/-- The limbs before the carries. -/
def feFloorMax : Vector Nat 10 := Vector.ofFn fun i =>
  if i.val = 0 then 110729625 + 760 else if i.val % 2 = 0 then 110729625 else 55364812

/-- The limbs after the carries. -/
def feDigits : Vector Range 10 := Vector.ofFn fun i => ⟨0, 2 ^ feWidth i - 1⟩

/-- The carry out of the uppermost limb is dropped: the value is kept modulo `2 ^ 255`. -/
theorem feFloorCarries_ranges : ranges 32 feFloorCarries (uptos feFloorMax) = some feDigits ∧
    ∀ mv ∈ feFloorCarries, mv.Keeps feOff (2 ^ 255) := by
  decide

theorem feBytes_packs : Packs feByteBounds feBytes := by decide

theorem feByteBounds_ordered : Ordered feByteBounds := by decide

theorem feByteBounds_starts : Starts feOff feByteBounds := by decide

theorem feDigits_digits : Digits feByteBounds feDigits := by decide

/-- Limbs that are digits represent less than `2 ^ 255`. -/
theorem feDigits_sums : value feOff (lows feDigits) = 0 ∧
    value feOff (highs feDigits) = 2 ^ 255 - 1 := by
  decide

theorem value_digits {h : Fe} (hh : Fits feDigits h) :
    0 ≤ value feOff h ∧ value feOff h < 2 ^ 255 := by
  have hle := hh.value_le feOff
  rw [feDigits_sums.2] at hle
  exact ⟨feDigits_sums.1 ▸ hh.value_ge feOff, by omega⟩

instance : NeZero feP := ⟨by decide⟩

/-- The representative of an element below `2 ^ 255 - 19`. -/
theorem val_feVal (h : Fe) : ((feVal h).val : Int) = value feOff h % feP := ZMod.val_intCast _

theorem feFloorMax_set : Below (feLoose.set (0 : Fin 10) (110729625 + 760)) feFloorMax := by
  decide

theorem feFloorMax_upto {h : Fe} {q : Int} (hh : Upto feLoose h) (hq : |q| ≤ 40) :
    Upto feFloorMax (h.set 0 (h[0] + 19 * q)) := by
  have h0 : |h[0]| ≤ 110729625 := hh 0
  refine (hh.set (0 : Fin 10) ?_).mono feFloorMax_set
  rw [abs_le] at h0 hq ⊢
  push_cast
  constructor <;> linarith

/-- **The limbs that the bytes are taken from** are the digits of the representative below
`2 ^ 255 - 19`, whatever the limbs were. -/
theorem feFloor_spec {h : Fe} (hh : Upto feLoose h) :
    ∃ g, feFloor h = some g ∧ Fits feDigits g ∧ value feOff g = (feVal h).val := by
  obtain ⟨q, hq, hsmall, hqeq⟩ := feQuotient_spec hh
  rw [feEstimate_exact hh] at hqeq
  have hmax := feFloorMax_upto hh hsmall
  have h0 : |h[0]| ≤ 110729625 := hh 0
  obtain ⟨hqlo, hqhi⟩ := abs_le.mp hsmall
  obtain ⟨h0lo, h0hi⟩ := abs_le.mp h0
  have hmul : signed 32 (19 * q) = some (19 * q) := signed_eq_self.mpr (by omega)
  have hadd : signed 32 (h[0] + 19 * q) = some (h[0] + 19 * q) := signed_eq_self.mpr (by omega)
  obtain ⟨g, hrun, hfit, hval⟩ := chain_spec feFloorCarries feFloorCarries_ranges.1
    feFloorCarries_ranges.2 (fits_uptos.mpr hmax)
  -- What the carries keep is the value without the multiple `q` of `2 ^ 255 - 19`.
  have hrest : value feOff (h.set 0 (h[0] + 19 * q)) = value feOff h % feP + 2 ^ 255 * q := by
    have hset := value_set feOff h 0 (h[0] + 19 * q)
    have hdiv := Int.emod_add_mul_ediv (value feOff h) feP
    rw [← hqeq, feP_cast] at hdiv
    refine hset.trans ?_
    rw [feP_cast, show feOff[(0 : Fin 10)] = 0 from rfl]
    simp only [Fin.getElem_fin, Fin.val_zero]
    linarith
  have hlt := Int.emod_lt_of_pos (value feOff h) (b := (feP : Int)) (by decide)
  have hnn := Int.emod_nonneg (value feOff h) (b := (feP : Int)) (by decide)
  have hp : (feP : Int) ≤ 2 ^ 255 := by rw [feP_cast]; norm_num
  obtain ⟨hg0, hg1⟩ := value_digits hfit
  have hvalue : value feOff g = value feOff h % feP := by
    rw [hrest, Int.ModEq, Int.add_mul_emod_self_left, Int.emod_eq_of_lt hg0 hg1,
      Int.emod_eq_of_lt hnn (hlt.trans_le hp)] at hval
    exact hval
  refine ⟨g, ?_, hfit, hvalue.trans (val_feVal h).symm⟩
  simp only [feFloor, hq, Option.bind_eq_bind, Option.bind_some, hmul, hadd]
  exact hrun

/-- The bytes of digits. -/
theorem leVal_feBytes {g : Fe} (hg : Fits feDigits g) :
    (leVal (pack 32 feBytes g) : Int) = value feOff g :=
  leVal_pack (by decide) feByteBounds_ordered feByteBounds_starts feBytes_packs (by decide)
    (feDigits_digits.fits hg)

/-- **`fe_tobytes` writes the element**: the bytes are those of its representative. -/
theorem feTobytes_spec {h : Fe} (hh : Upto feLoose h) :
    ∃ s, feTobytes h = some s ∧ leVal s = (feVal h).val := by
  obtain ⟨g, hfloor, hfit, hval⟩ := feFloor_spec hh
  refine ⟨pack 32 feBytes g, by rw [feTobytes, hfloor]; rfl, ?_⟩
  have hbytes := leVal_feBytes hfit
  rw [hval] at hbytes
  exact_mod_cast hbytes

/-- The digits are groups of bits between the weights, also the uppermost one. -/
theorem feDigits_weights : Digits feWeights feDigits := by decide

/-- Byte 12 is put together by `h4 << 6`; every other shift has room for the digit. -/
theorem feBytes_roomy : ∀ k : Fin 32, k.val ≠ 12 → (feBytes.get k).Roomy 32 feWeights := by decide

/-- The shifts that put the bytes together stay in `int32_t`, but for that of byte 12: it leaves it
exactly for digits `h4` from `2 ^ 25` on. -/
def BytesShift (g : Fe) : Prop :=
  ∀ k : Fin 32, (feBytes.get k).Shifts 32 g
    ↔ (k.val = 12 → ∀ i : Fin 10, i.val = 4 → g.get i < 2 ^ 25)

theorem feBytes_shifts {g : Fe} (hg : Fits feDigits g) : BytesShift g := by
  intro k
  have hdigit := feDigits_weights.fits hg
  by_cases hk : k.val = 12
  · obtain rfl : k = 12 := Fin.ext hk
    have hnn := (hdigit 4).1
    have hshifts : (feBytes.get 12).Shifts 32 g ↔ g[(4 : Fin 10)] < 2 ^ 25 := by
      show signed 32 (g[(4 : Fin 10)] * 2 ^ 6) = _ ↔ _
      rw [signed_eq_self]
      omega
    rw [hshifts]
    exact ⟨fun h _ i hi => by rwa [show i = 4 from Fin.ext hi], fun h => h rfl 4 rfl⟩
  · exact iff_of_true ((feBytes_roomy k hk).shifts hdigit) fun h => absurd h hk

/-- Two elements have the same bytes exactly when they are the same. -/
theorem feTobytes_eq_iff {f g : Fe} {s t : Vector byte 32} (hf : leVal s = (feVal f).val)
    (hg : leVal t = (feVal g).val) : s = t ↔ feVal f = feVal g := by
  refine ⟨fun h => ZMod.val_injective feP (hf ▸ hg ▸ congrArg leVal h), fun h => ?_⟩
  exact leVal_injective (by rw [hf, hg, h])

/-- The number below `2 ^ 255 - 19` is the representative of its element. -/
theorem val_natCast_leVal {s : Vector byte 32} {a : ZMod feP} (h : leVal s = a.val) :
    ((leVal s % 2 ^ 255 : Nat) : ZMod feP) = a := by
  have hlt : leVal s < 2 ^ 255 := h ▸ (ZMod.val_lt a).trans (by norm_num [feP])
  rw [Nat.mod_eq_of_lt hlt, h, ZMod.natCast_zmod_val]

/-- **The bytes of field elements.** With limbs up to the bounds of `fe_mul`, which are wider than
those documented for `fe_tobytes`, none of its sums, products and carries overflows, and of the
shifts that put the bytes together only `h4 << 6` can leave `int32_t`; its bytes are below
`2 ^ 255 - 19`, depend on the element alone and tell it from every other; `fe_frombytes` reads the
element back from them; and from any bytes at all it reads an element of which `fe_tobytes` writes
the representative. -/
theorem fe_bytes {f g : Fe} (hf : Upto feLoose f) (hg : Upto feLoose g) (u : Vector byte 32) :
    ∃ s t, feTobytes f = some s ∧ feTobytes g = some t ∧ leVal s < feP ∧
      (∃ h, feFloor f = some h ∧ BytesShift h) ∧
      (s = t ↔ value feOff f ≡ value feOff g [ZMOD (feP : Int)]) ∧
      (∃ h, feFrombytes s = some h ∧ value feOff h ≡ value feOff f [ZMOD (feP : Int)]) ∧
      (∃ h v, feFrombytes u = some h ∧ feTobytes h = some v ∧
        leVal v = leVal u % 2 ^ 255 % feP) := by
  obtain ⟨d, hfloor, hfit, -⟩ := feFloor_spec hf
  obtain ⟨s, hs, hsval⟩ := feTobytes_spec hf
  obtain ⟨t, ht, htval⟩ := feTobytes_spec hg
  obtain ⟨h, hread, hh⟩ := feFrombytes_spec s
  obtain ⟨k, hread', hk⟩ := feFrombytes_spec u
  obtain ⟨v, hv, hvval⟩ := feTobytes_spec (hk.loose (by decide))
  refine ⟨s, t, hs, ht, hsval ▸ ZMod.val_lt _, ⟨d, hfloor, feBytes_shifts hfit⟩, ?_,
    ⟨h, hread, feVal_eq_iff.mp ?_⟩, ⟨k, v, hread', hv, ?_⟩⟩
  · rw [feTobytes_eq_iff hsval htval]
    exact feVal_eq_iff
  · rw [hh.val, val_natCast_leVal hsval]
    rfl
  · rw [hvval, hk.val, ZMod.val_natCast]

theorem fe_bytes_extreme :
    ∃ s t, feTobytes feExtreme = some s ∧ feTobytes fe1 = some t ∧ leVal s < feP ∧
      (∃ h, feFloor feExtreme = some h ∧ BytesShift h) ∧
      (s = t ↔ value feOff feExtreme ≡ value feOff fe1 [ZMOD (feP : Int)]) ∧
      (∃ h, feFrombytes s = some h ∧ value feOff h ≡ value feOff feExtreme [ZMOD (feP : Int)]) ∧
      (∃ h v, feFrombytes (Vector.replicate 32 255) = some h ∧ feTobytes h = some v ∧
        leVal v = leVal (Vector.replicate 32 (255 : byte)) % 2 ^ 255 % feP) :=
  fe_bytes (by decide) (by decide) _

/-- **`fe_isnegative` is the parity** of the representative. -/
theorem feIsnegative_spec {f : Fe} (hf : Upto feLoose f) :
    ∃ b, feIsnegative f = some b ∧ b.toNat = (feVal f).val % 2 := by
  obtain ⟨s, hs, hval⟩ := feTobytes_spec hf
  refine ⟨s[0] &&& 1, by rw [feIsnegative, hs]; rfl, ?_⟩
  have hbits := bits_leVal s 0
  simp only [bits, Fin.val_zero, Nat.mul_zero, Nat.pow_zero, Nat.div_one] at hbits
  have hbit : (s[0] &&& 1).toNat = s[0].toNat % 2 := by
    rw [BitVec.toNat_and]
    exact Nat.and_one_is_mod _
  rw [hbit, ← hval]
  have h0 : s[0].toNat = leVal s % 2 ^ 8 := hbits.symm
  omega

theorem or_eq_zero_iff : ∀ (l : List byte) (b : byte),
    l.foldl (· ||| ·) b = 0 ↔ b = 0 ∧ ∀ x ∈ l, x = 0
  | [], b => by simp
  | x :: l, b => by
      rw [List.foldl_cons, or_eq_zero_iff l]
      simp only [List.mem_cons, forall_eq_or_imp, ← and_assoc]
      exact and_congr_left fun _ => by simp

/-- **`fe_isnonzero` decides whether the element is zero.** -/
theorem feIsnonzero_spec {f : Fe} (hf : Upto feLoose f) :
    feIsnonzero f = some (decide (feVal f ≠ 0)) := by
  obtain ⟨s, hs, hval⟩ := feTobytes_spec hf
  have hzero : s.toList.foldl (· ||| ·) 0 = 0 ↔ feVal f = 0 := by
    rw [or_eq_zero_iff, ← ZMod.val_eq_zero, ← hval]
    constructor
    · rintro ⟨-, h⟩
      exact Finset.sum_eq_zero fun i _ => by rw [h s[i] (by simp)]; rfl
    · intro h
      refine ⟨rfl, fun x hx => ?_⟩
      obtain ⟨i, hi, rfl⟩ := List.getElem_of_mem hx
      have hbits := bits_leVal s ⟨i, by simpa using hi⟩
      rw [h] at hbits
      refine BitVec.eq_of_toNat_eq ?_
      simpa [bits] using hbits.symm
  rw [feIsnonzero, hs]
  refine congrArg some (Bool.eq_iff_iff.mpr ?_)
  rw [bne_iff_ne, decide_eq_true_iff]
  exact not_congr hzero

end Ntfw
