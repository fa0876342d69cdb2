import Ntfw.Ed25519.Sc
import Ntfw.Verification.Encoding

set_option autoImplicit false

/-! # Scalars

`sc_reduce` folds the upper limbs of a number of 512 bits into the lower ones, as multiples of
`2 ^ 252`, carries, and folds what is above bit 252 twice more. After the second fold the limbs are
digits, with at most a borrow of `2 ^ 252` above them; the last fold adds the order once when there
is one, so that the result is the representative. `sc_muladd` ends in the same way. -/

namespace Ntfw

open Limbs Radix

/-- The order of the base point. -/
def scL : Nat := 2 ^ 252 + 27742317777372353535851937790883648493

/-- The weights of the limbs. -/
def scOff : Vector Nat 24 := Vector.ofFn fun i => 21 * i.val

def scOff12 : Vector Nat 12 := Vector.ofFn fun i => 21 * i.val

/-! ## Loads -/

variable {n : Nat}

/-- What a masked and shifted load takes. -/
theorem scMask_shift {x : u64} {V o w : Nat} (hx : x.toNat = bits V o w) {r : Nat}
    (hr : r + 21 ≤ w) : scMask (x >>> r) = (bits V (o + r) 21 : Int) := by
  have hand : (2097151 &&& x >>> r).toNat = bits V (o + r) 21 := by
    have hmask := and_mask_toNat (x := x >>> r) (k := 21) (by decide)
    rw [BitVec.toNat_ushiftRight, hx, Nat.shiftRight_eq_div_pow] at hmask
    rw [BitVec.and_comm, ← bits_bits V hr]
    exact hmask
  have hlt := bits_lt V (o + r) 21
  rw [scMask, BitVec.toInt_eq_toNat_of_lt (by omega), hand]

theorem scMask_load3 (s : Vector byte n) (o : Nat) (h : o + 3 ≤ n) {r : Nat} (hr : r + 21 ≤ 24) :
    scMask (load3 s o h >>> r) = (bits (leVal s) (8 * o + r) 21 : Int) :=
  scMask_shift (load3_toNat s o h) hr

theorem scMask_load4 (s : Vector byte n) (o : Nat) (h : o + 4 ≤ n) {r : Nat} (hr : r + 21 ≤ 32) :
    scMask (load4 s o h >>> r) = (bits (leVal s) (8 * o + r) 21 : Int) :=
  scMask_shift (load4_toNat s o h) hr

/-- The uppermost limb is not masked. -/
theorem load4_rest (s : Vector byte n) (o : Nat) (h : o + 4 ≤ n) {r w : Nat} (hr : r + w = 32)
    (hw : w < 32) : (load4 s o h >>> r).toInt = (bits (leVal s) (8 * o + r) w : Int) := by
  have hnat : (load4 s o h >>> r).toNat = bits (leVal s) (8 * o + r) w := by
    rw [BitVec.toNat_ushiftRight, load4_toNat, Nat.shiftRight_eq_div_pow,
      ← bits_bits (leVal s) hr.le]
    have hlt : bits (leVal s) (8 * o) 32 / 2 ^ r < 2 ^ w := by
      rw [Nat.div_lt_iff_lt_mul (Nat.two_pow_pos r), ← Nat.pow_add, Nat.add_comm, hr]
      exact bits_lt _ _ _
    exact (Nat.mod_eq_of_lt hlt).symm
  have hlt : 2 ^ w ≤ 2 ^ 31 := Nat.pow_le_pow_right (by decide) (by omega)
  have := bits_lt (leVal s) (8 * o + r) w
  rw [BitVec.toInt_eq_toNat_of_lt (by omega), hnat]

/-- Which bits of 64 bytes the limbs take. -/
def scBounds (i : Fin 25) : Nat := 21 * i.val + i.val / 24 * 8

/-- Which bits of 32 bytes the limbs take. -/
def scBounds12 (i : Fin 13) : Nat := 21 * i.val + i.val / 12 * 4

theorem scLoads_get (s : Vector byte 64) (i : Fin 24) :
    (scLoads s)[i] = (bits (leVal s) (scBounds i.castSucc) (width scBounds i) : Int) := by
  have h3 := fun o h r hr => scMask_load3 s o h (r := r) hr
  have h4 := fun o h r hr => scMask_load4 s o h (r := r) hr
  fin_cases i
  · exact h3 0 _ 0 (by decide)
  · exact h4 2 _ 5 (by decide)
  · exact h3 5 _ 2 (by decide)
  · exact h4 7 _ 7 (by decide)
  · exact h4 10 _ 4 (by decide)
  · exact h3 13 _ 1 (by decide)
  · exact h4 15 _ 6 (by decide)
  · exact h3 18 _ 3 (by decide)
  · exact h3 21 _ 0 (by decide)
  · exact h4 23 _ 5 (by decide)
  · exact h3 26 _ 2 (by decide)
  · exact h4 28 _ 7 (by decide)
  · exact h4 31 _ 4 (by decide)
  · exact h3 34 _ 1 (by decide)
  · exact h4 36 _ 6 (by decide)
  · exact h3 39 _ 3 (by decide)
  · exact h3 42 _ 0 (by decide)
  · exact h4 44 _ 5 (by decide)
  · exact h3 47 _ 2 (by decide)
  · exact h4 49 _ 7 (by decide)
  · exact h4 52 _ 4 (by decide)
  · exact h3 55 _ 1 (by decide)
  · exact h4 57 _ 6 (by decide)
  · exact load4_rest s 60 _ (r := 3) (w := 29) rfl (by decide)

theorem scLoads12_get (s : Vector byte 32) (i : Fin 12) :
    (scLoads12 s)[i] = (bits (leVal s) (scBounds12 i.castSucc) (width scBounds12 i) : Int) := by
  have h3 := fun o h r hr => scMask_load3 s o h (r := r) hr
  have h4 := fun o h r hr => scMask_load4 s o h (r := r) hr
  fin_cases i
  · exact h3 0 _ 0 (by decide)
  · exact h4 2 _ 5 (by decide)
  · exact h3 5 _ 2 (by decide)
  · exact h4 7 _ 7 (by decide)
  · exact h4 10 _ 4 (by decide)
  · exact h3 13 _ 1 (by decide)
  · exact h4 15 _ 6 (by decide)
  · exact h3 18 _ 3 (by decide)
  · exact h3 21 _ 0 (by decide)
  · exact h4 23 _ 5 (by decide)
  · exact h3 26 _ 2 (by decide)
  · exact load4_rest s 28 _ (r := 7) (w := 25) rfl (by decide)

theorem scBounds_ordered : Ordered scBounds := by decide

theorem scBounds12_ordered : Ordered scBounds12 := by decide

theorem scOff_bounds : Starts scOff scBounds := by decide

theorem scOff12_bounds : Starts scOff12 scBounds12 := by decide

/-- **The limbs represent the bytes.** -/
theorem value_scLoads (s : Vector byte 64) : value scOff (scLoads s) = leVal s :=
  value_bits scBounds_ordered rfl scOff_bounds
    (by rw [show scBounds (Fin.last 24) = 8 * 64 from rfl]; exact leVal_lt s) (scLoads_get s)

theorem value_scLoads12 (s : Vector byte 32) : value scOff12 (scLoads12 s) = leVal s :=
  value_bits scBounds12_ordered rfl scOff12_bounds
    (by rw [show scBounds12 (Fin.last 12) = 8 * 32 from rfl]; exact leVal_lt s) (scLoads12_get s)

def scLoadMax : Vector Nat 24 := Vector.ofFn fun i => 2 ^ width scBounds i

def scLoadMax12 : Vector Nat 12 := Vector.ofFn fun i => 2 ^ width scBounds12 i

theorem scLoads_upto (s : Vector byte 64) : Upto scLoadMax (scLoads s) := by
  intro i
  have hlt := (bits_lt (leVal s) (scBounds i.castSucc) (width scBounds i)).le
  rw [scLoads_get, abs_of_nonneg (by positivity), scLoadMax, Fin.getElem_fin, Vector.getElem_ofFn]
  exact_mod_cast hlt

theorem scLoads12_upto (s : Vector byte 32) : Upto scLoadMax12 (scLoads12 s) := by
  intro i
  have hlt := (bits_lt (leVal s) (scBounds12 i.castSucc) (width scBounds12 i)).le
  rw [scLoads12_get, abs_of_nonneg (by positivity), scLoadMax12, Fin.getElem_fin,
    Vector.getElem_ofFn]
  exact_mod_cast hlt

/-! ## The folds -/

def scFloors : List (Move 24) := scReduceLast.tail

/-- **What the chains keep**: the folds and carries the value modulo the order, the floors the
value, and the last fold adds the order once for a borrow. -/
theorem sc_keeps :
    (∀ mv ∈ scMulCarries ++ scReduceFolds ++ scReduceDigits, mv.Keeps scOff scL) ∧
      (∀ mv ∈ scFloors, mv.Keeps scOff 0) ∧
      weight scOff (scFold 12).dst - 2 ^ scOff[(scFold 12).src] * 2 ^ (scFold 12).shift
        = -(scL : Int) :=
  ⟨by decide +kernel, by decide +kernel, by decide +kernel⟩

theorem scMulCarries_keeps : ∀ mv ∈ scMulCarries, mv.Keeps scOff scL := fun mv h =>
  sc_keeps.1 mv (List.mem_append_left _ (List.mem_append_left _ h))

theorem scReduceFolds_keeps : ∀ mv ∈ scReduceFolds, mv.Keeps scOff scL := fun mv h =>
  sc_keeps.1 mv (List.mem_append_left _ (List.mem_append_right _ h))

theorem scReduceDigits_keeps : ∀ mv ∈ scReduceDigits, mv.Keeps scOff scL := fun mv h =>
  sc_keeps.1 mv (List.mem_append_right _ h)

/-- The rows of a product. -/
def scRows : Vector Nat 24 := Vector.ofFn fun i => if i.val < 23 then 2 ^ 50 else 0

/-- The limbs of the product after its carries. -/
def scCarried : Vector Nat 24 := Vector.ofFn fun i =>
  if i.val = 23 then 2 ^ 29 + 1 else if i.val % 2 = 0 then 2 ^ 30 else 2 ^ 20

/-- The limbs after the folds: twelve, and a carry. -/
def scFolded : Vector Nat 24 := Vector.ofFn fun i =>
  if i.val < 11 then 2 ^ 30 else if i.val = 11 then 2 ^ 20 else if i.val = 12 then 28 else 0

/-- The limbs after the first fold of the carry: digits, and a borrow. -/
def scDigits : Vector Range 24 := Vector.ofFn fun i =>
  if i.val < 12 then ⟨0, 2 ^ 21 - 1⟩ else if i.val = 12 then ⟨-1, 0⟩ else ⟨0, 0⟩

/-- **Nothing overflows** before the last fold. -/
theorem sc_fits : Limbs.Carries 64 scMulCarries scRows scCarried ∧
    Limbs.Carries 64 scReduceFolds scCarried scFolded ∧
    Limbs.Carries 64 scReduceFolds scLoadMax scFolded ∧
    ranges 64 scReduceDigits (uptos scFolded) = some scDigits :=
  ⟨by decide, by decide, by decide, by decide⟩

/-! ## The last fold -/

/-- The limbs after it. -/
def scLast : Vector Range 24 := Vector.ofFn fun i =>
  if i.val < 11 then ⟨0, 2 ^ 21 - 1⟩ else if i.val = 11 then ⟨-1, 2 ^ 21⟩ else ⟨0, 0⟩

theorem scReduceLast_ranges :
    ((scFold 12).range 64 scDigits).bind (ranges 64 scFloors) = some scLast := by
  decide

/-- The digits below the borrow represent less than `2 ^ 252`. -/
theorem scDigits_sums :
    value scOff (lows (scDigits.set (12 : Fin 24) ⟨0, 0⟩)) = 0 ∧
      value scOff (highs (scDigits.set (12 : Fin 24) ⟨0, 0⟩)) = 2 ^ 252 - 1 := by
  decide +kernel

/-- **The last fold**: the representative, and no borrow is left. -/
theorem scReduceLast_spec {h : Vector Int 24} (hh : Fits scDigits h) :
    ∃ h', Limbs.run 64 scReduceLast h = some h' ∧ Fits scLast h' ∧
      value scOff h' = value scOff h % scL := by
  obtain ⟨R, hR, hlast⟩ := Option.bind_eq_some_iff.mp scReduceLast_ranges
  obtain ⟨hfold, hfit⟩ := Move.run_of_range hR hh
  obtain ⟨h', hrun, hfit', hval⟩ := chain_spec scFloors hlast sc_keeps.2.1 hfit
  refine ⟨h', ?_, hfit', ?_⟩
  · rw [show scReduceLast = scFold 12 :: scFloors from rfl, Limbs.run, List.foldlM_cons, hfold]
    exact hrun
  · have htaken : (scFold 12).taken h = h[(12 : Fin 24)] := by
      rw [Move.taken, show (scFold 12).shift = 0 from rfl, Int.shiftRight_zero]
      exact add_zero _
    have hlow := hh.set (12 : Fin 24) (r := ⟨0, 0⟩) (x := 0) ⟨le_refl _, le_refl _⟩
    have hge := hlow.value_ge scOff
    have hle := hlow.value_le scOff
    rw [scDigits_sums.1] at hge
    rw [scDigits_sums.2] at hle
    have hborrow : (-1 : Int) ≤ h[(12 : Fin 24)] ∧ h[(12 : Fin 24)] ≤ (0 : Int) := hh 12
    rw [value_set, show scOff[(12 : Fin 24)] = 252 from rfl] at hge hle
    rw [Int.modEq_zero_iff] at hval
    rw [hval, Move.value_result_eq scOff (by decide), htaken, sc_keeps.2.2]
    have hl : (scL : Int) = 2 ^ 252 + 27742317777372353535851937790883648493 := rfl
    obtain hzero | hone : h[(12 : Fin 24)] = 0 ∨ h[(12 : Fin 24)] = -1 := by omega
    · rw [hzero] at hge hle
      rw [hzero, zero_mul, add_zero, Int.emod_eq_of_lt] <;> linarith
    · rw [hone] at hge hle
      rw [hone, ← Int.add_emod_right, neg_one_mul, neg_neg, Int.emod_eq_of_lt] <;> linarith

/-! ## The bytes -/

/-- Where the bytes are taken from: the limbs from 12 on are zero. -/
def scByteBounds (i : Fin 25) : Nat := if i.val < 12 then 21 * i.val else 256

theorem scByteBounds_ordered : Ordered scByteBounds := by decide

theorem scBytes_packs : Packs scByteBounds scBytes := by decide

theorem scByteBounds_off : ∀ i : Fin 24, 12 ≤ i.val ∨ scOff[i] = scByteBounds i.castSucc := by
  decide

/-- The limbs fit their bytes, but for the sign of the uppermost one; if that were negative, so
would be the value. -/
theorem scLast_width : (∀ i : Fin 24, (i = 11 ∨ scLast[i].lo = 0) ∧
      scLast[i].hi < 2 ^ width scByteBounds i) ∧
    value scOff (highs (scLast.set 11 ⟨-1, -1⟩)) < 0 := by
  decide +kernel

theorem scLast_high : ∀ i : Fin 24, 12 ≤ i.val → scLast[i] = ⟨0, 0⟩ := by decide

/-- Limbs with a value that is not negative are digits. -/
theorem scLast_digits {h : Vector Int 24} (hh : Fits scLast h) (hnn : 0 ≤ value scOff h)
    (i : Fin 24) : 0 ≤ h[i] ∧ h[i] < 2 ^ width scByteBounds i := by
  have htop : 0 ≤ h[(11 : Fin 24)] := by
    by_contra hneg
    have hone : -1 ≤ h[(11 : Fin 24)] := (hh 11).1
    have hfit : Fits (scLast.set 11 ⟨-1, -1⟩) (h.set 11 h[11]) :=
      hh.set 11 ⟨hone, by
        have : h[(11 : Fin 24)] < 0 := by omega
        exact Int.le_sub_one_of_lt this⟩
    have hle := hfit.value_le scOff
    rw [Vector.set_getElem_self] at hle
    linarith [scLast_width.2]
  obtain ⟨hlo, hhi⟩ := scLast_width.1 i
  refine ⟨?_, (hh i).2.trans_lt hhi⟩
  rcases hlo with rfl | hlo
  · exact htop
  · exact hlo ▸ (hh i).1

theorem scBytes_roomy : ∀ k : Fin 32, (scBytes.get k).Roomy 64 scByteBounds := by decide

/-- The shifts that put the bytes of such limbs together stay in `int64_t`. -/
theorem scBytes_shifts {h : Vector Int 24} (hh : Fits scLast h) (hnn : 0 ≤ value scOff h)
    (k : Fin 32) : (scBytes.get k).Shifts 64 h :=
  (scBytes_roomy k).shifts (scLast_digits hh hnn)

/-- **The bytes of limbs with a value that is not negative.** -/
theorem leVal_scBytes {h : Vector Int 24} (hh : Fits scLast h) (hnn : 0 ≤ value scOff h) :
    (leVal (pack 64 scBytes h) : Int) = value scOff h := by
  have hstart : ∀ i : Fin 24, (Vector.ofFn fun i : Fin 24 => scByteBounds i.castSucc)[i]
      = scByteBounds i.castSucc := fun i => by simp
  have hpack := leVal_pack (show 8 ≤ 64 by decide) scByteBounds_ordered hstart scBytes_packs rfl
    (scLast_digits hh hnn)
  rw [hpack, value, value]
  refine Finset.sum_congr rfl fun i _ => ?_
  rcases scByteBounds_off i with hhigh | hoff
  · have hzero : h[i] = 0 := by
      have hi := hh i
      rw [scLast_high i hhigh] at hi
      exact le_antisymm hi.2 hi.1
    rw [hzero, mul_zero, mul_zero]
  · rw [hoff]
    simp

/-- **The end of both functions**: from twelve limbs and a carry, the bytes of the
representative. -/
theorem scReduceLimbs_spec {B : Vector Nat 24} {h : Vector Int 24}
    (hB : Limbs.Carries 64 scReduceFolds B scFolded) (hh : Upto B h) :
    ∃ r, scReduceLimbs h = some r ∧ (leVal r : Int) = value scOff h % scL := by
  obtain ⟨h₁, hrun₁, hup, hval₁⟩ := hB.run scReduceFolds_keeps hh
  obtain ⟨h₂, hrun₂, hfit, hval₂⟩ :=
    chain_spec scReduceDigits sc_fits.2.2.2 scReduceDigits_keeps (fits_uptos.mpr hup)
  obtain ⟨h₃, hrun₃, hlast, hval₃⟩ := scReduceLast_spec hfit
  have hval : value scOff h₃ = value scOff h % scL := hval₃.trans (hval₂.trans hval₁)
  have hnn : 0 ≤ value scOff h₃ := hval ▸ Int.emod_nonneg _ (by decide)
  refine ⟨pack 64 scBytes h₃, ?_, ?_⟩
  · have hrun : Limbs.run 64 (scReduceFolds ++ scReduceDigits ++ scReduceLast) h = some h₃ := by
      rw [run_append, run_append, hrun₁]
      exact (congrArg (· >>= Limbs.run 64 scReduceLast) hrun₂).trans hrun₃
    rw [scReduceLimbs, hrun]
    exact if_pos (scBytes_shifts hlast hnn)
  · rw [← hval]
    exact leVal_scBytes hlast hnn

/-- **`sc_reduce` reduces** the number in 64 bytes. -/
theorem scReduce_spec (s : Vector byte 64) :
    ∃ r, scReduce s = some r ∧ leVal r = leVal s % scL := by
  obtain ⟨r, hr, hval⟩ := scReduceLimbs_spec sc_fits.2.2.1 (scLoads_upto s)
  rw [value_scLoads] at hval
  exact ⟨r, hr, by exact_mod_cast hval⟩

/-! ## `sc_muladd` -/

/-- Row `k` has the products of which the indices sum up to `k`. -/
theorem scMulRow_sum (k : Fin 24) (i j : Fin 12) :
    ((scMulRow k).map fun t => if t.i = i ∧ t.j = j then t.a * t.b else 0).sum
      = if k.val = i.val + j.val then 1 else 0 := by
  rw [scMulRow, sum_map_filterMap, ← Fin.sum_univ_def, Finset.sum_eq_single i]
  · by_cases hk : i.val ≤ k.val ∧ k.val - i.val < 12
    · have hiff : (⟨k.val - i.val, hk.2⟩ : Fin 12) = j ↔ k.val = i.val + j.val := by
        simp only [Fin.ext_iff]
        omega
      simp [hk, hiff]
    · have hne : ¬ k.val = i.val + j.val := by omega
      simp [hk, hne]
  · intro i' _ hne
    split <;> simp [hne]
  · simp

theorem scMulRow_multiplies : Multiplies scOff scOff12 scL scMulRow := by
  intro i j
  have hrow : coefficient scOff scMulRow i j = 2 ^ scOff12[i] * 2 ^ scOff12[j] := by
    simp only [coefficient, scMulRow_sum]
    rw [Finset.sum_eq_single ⟨i.val + j.val, by omega⟩]
    · simp [scOff, scOff12, mul_add, pow_add]
    · intro k _ hk
      rw [if_neg fun h => hk (Fin.ext h), mul_zero]
    · simp
  rw [hrow, sub_self]
  exact dvd_zero _

/-- The limbs of the summand. -/
def scAddMax : Vector Nat 24 :=
  Vector.ofFn fun k => if h : k.val < 12 then scLoadMax12[k.val] else 0

theorem scMulRow_bounds : Bounds 64 64 scMulRow scLoadMax12 scLoadMax12 scAddMax scRows := by
  decide

/-- Twelve limbs as twenty-four. -/
theorem scAdd_upto {f : Vector Int 12} (hc : Upto scLoadMax12 f) :
    Upto scAddMax (Vector.ofFn fun k : Fin 24 => if h : k.val < 12 then f[k.val] else 0) := by
  intro k
  simp only [scAddMax, Fin.getElem_fin, Vector.getElem_ofFn]
  split
  case isTrue hk => exact hc ⟨k.val, hk⟩
  case isFalse => exact le_refl _

theorem value_scAdd (f : Vector Int 12) :
    value scOff (Vector.ofFn fun k : Fin 24 => if h : k.val < 12 then f[k.val] else 0)
      = value scOff12 f := by
  have hlow : ∀ i : Fin 12, scOff[Fin.castAdd 12 i] = scOff12[i] := by decide
  refine (Fin.sum_univ_add (a := 12) (b := 12) _).trans ?_
  have hzero : ∀ i : Fin 12, (Vector.ofFn fun k : Fin 24 =>
      if h : k.val < 12 then f[k.val] else 0)[Fin.natAdd 12 i] = 0 := fun i => by simp
  have hsame : ∀ i : Fin 12, (Vector.ofFn fun k : Fin 24 =>
      if h : k.val < 12 then f[k.val] else 0)[Fin.castAdd 12 i] = f[i] := fun i => by simp
  simp only [hzero, hsame, hlow, mul_zero, Finset.sum_const_zero, add_zero]
  rfl

/-- **`sc_muladd` multiplies and adds** modulo the order. -/
theorem scMuladd_spec (a b c : Vector byte 32) :
    ∃ r, scMuladd a b c = some r ∧ leVal r = (leVal a * leVal b + leVal c) % scL := by
  obtain ⟨h, hrows, hup, hval⟩ := products_spec scMulRow_bounds scOff (scLoads12_upto a)
    (scLoads12_upto b) (scAdd_upto (scLoads12_upto c))
  obtain ⟨h', hrun, hup', hval'⟩ := sc_fits.1.run scMulCarries_keeps hup
  obtain ⟨r, hr, hrval⟩ := scReduceLimbs_spec sc_fits.2.1 hup'
  refine ⟨r, ?_, ?_⟩
  · simp only [scMuladd, hrows, hrun, Option.bind_eq_bind, Option.bind_some]
    exact hr
  · have hmod := scMulRow_multiplies.sum_modEq (scLoads12 a) (scLoads12 b)
    rw [value_scLoads12, value_scLoads12] at hmod
    rw [value_scAdd, value_scLoads12] at hval
    have htotal : value scOff h' ≡ leVal a * leVal b + leVal c [ZMOD scL] := by
      rw [add_comm]
      exact hval'.trans (hval ▸ hmod.add_left _)
    rw [htotal] at hrval
    exact_mod_cast hrval

/-- **Scalars.** For all bytes neither function overflows, and both write the representative modulo
the order: of the number in the 64 bytes, and of the product plus the summand. -/
theorem scalar_arithmetic (s : Vector byte 64) (a b c : Vector byte 32) :
    (∃ r, scReduce s = some r ∧ leVal r = leVal s % scL) ∧
      ∃ r, scMuladd a b c = some r ∧ leVal r = (leVal a * leVal b + leVal c) % scL :=
  ⟨scReduce_spec s, scMuladd_spec a b c⟩

end Ntfw
