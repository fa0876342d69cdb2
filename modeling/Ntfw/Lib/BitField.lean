import Mathlib.Tactic

set_option autoImplicit false

/-! # Bit fields of a machine word

A C bit-field, a lock bit or a byte of a union is a run of bits of a word. `BitField w`
names such a run (`lo`, `len`) together with the proof that it lies inside the word, and
`get` and `set` are the read and the read-modify-write a compiler emits for it. The laws
below say that a write to one field is seen by that field and by no field disjoint from it;
they are all a proof about packed words ever needs, so the masks are never unfolded again.
-/

namespace BitField

/-- A field of a `w`-bit word: `len` bits from bit `lo` upwards. -/
structure Field (w : Nat) where
  lo : Nat
  len : Nat
  fits : lo + len ≤ w

namespace Field

variable {w : Nat}

/-- The bits of the word that belong to the field. -/
def mask (f : Field w) : BitVec w := (BitVec.allOnes f.len).setWidth w <<< f.lo

/-- Read a field. -/
def get (f : Field w) (v : BitVec w) : BitVec f.len := v.extractLsb' f.lo f.len

/-- Write a field: clear its bits and put the new ones in. -/
def set (f : Field w) (v : BitVec w) (x : BitVec f.len) : BitVec w :=
  (v &&& ~~~f.mask) ||| (x.setWidth w <<< f.lo)

/-- Two fields share no bit. -/
def Disjoint (f g : Field w) : Prop := f.lo + f.len ≤ g.lo ∨ g.lo + g.len ≤ f.lo

instance (f g : Field w) : Decidable (f.Disjoint g) :=
  inferInstanceAs (Decidable (_ ∨ _))

theorem Disjoint.symm {f g : Field w} (h : f.Disjoint g) : g.Disjoint f := Or.symm h

/-! ## The laws, bit by bit -/

theorem getLsbD_get (f : Field w) (v : BitVec w) (i : Nat) :
    (f.get v).getLsbD i = (decide (i < f.len) && v.getLsbD (f.lo + i)) := by
  simp [get, BitVec.getLsbD_extractLsb']

theorem getLsbD_mask (f : Field w) (i : Nat) :
    f.mask.getLsbD i = decide (f.lo ≤ i ∧ i < f.lo + f.len) := by
  have hf := f.fits
  simp only [mask, BitVec.getLsbD_shiftLeft, BitVec.getLsbD_setWidth, BitVec.getLsbD_allOnes]
  by_cases hlo : f.lo ≤ i
  · by_cases hhi : i < f.lo + f.len
    · have h1 : i < w := by omega
      have h2 : i - f.lo < w := by omega
      have h3 : i - f.lo < f.len := by omega
      have h4 : ¬ i < f.lo := by omega
      simp [hlo, hhi, h1, h2, h3, h4]
    · have h3 : ¬ i - f.lo < f.len := by omega
      simp [hhi, h3]
  · have h4 : i < f.lo := by omega
    simp [hlo, h4]

/-- A written word bit by bit: the field's bits are the new ones, the others stay. -/
theorem getLsbD_set (f : Field w) (v : BitVec w) (x : BitVec f.len) (i : Nat) :
    (f.set v x).getLsbD i
      = if f.lo ≤ i ∧ i < f.lo + f.len then x.getLsbD (i - f.lo) else v.getLsbD i := by
  have hf := f.fits
  simp only [set, BitVec.getLsbD_or, BitVec.getLsbD_and, BitVec.getLsbD_not, getLsbD_mask,
    BitVec.getLsbD_shiftLeft, BitVec.getLsbD_setWidth]
  by_cases hin : f.lo ≤ i ∧ i < f.lo + f.len
  · have h1 : i < w := by omega
    have h2 : i - f.lo < w := by omega
    have h4 : ¬ i < f.lo := by omega
    simp [hin, h1, h2, h4]
  · rw [if_neg hin]
    by_cases hw : i < w
    · by_cases hlo : i < f.lo
      · simp [hw, hlo, hin]
      · -- Above the field, what was written has no bits left.
        have hx : x.getLsbD (i - f.lo) = false :=
          BitVec.getLsbD_of_ge _ _ (by omega)
        simp [hw, hlo, hin, hx]
    · have hv : v.getLsbD i = false := BitVec.getLsbD_of_ge _ _ (by omega)
      simp [hw, hv]

/-! ## The laws -/

/-- **A field reads back what was written to it.** -/
@[simp] theorem get_set (f : Field w) (v : BitVec w) (x : BitVec f.len) :
    f.get (f.set v x) = x := by
  apply BitVec.eq_of_getLsbD_eq
  intro i hi
  have h1 : f.lo ≤ f.lo + i ∧ f.lo + i < f.lo + f.len := by omega
  have h2 : f.lo + i - f.lo = i := by omega
  rw [getLsbD_get, getLsbD_set, if_pos h1, h2]
  simp [hi]

/-- **A write is invisible to every disjoint field.** -/
theorem get_set_of_disjoint (g f : Field w) (h : g.Disjoint f) (v : BitVec w)
    (x : BitVec f.len) : g.get (f.set v x) = g.get v := by
  apply BitVec.eq_of_getLsbD_eq
  intro i hi
  have hout : ¬ (f.lo ≤ g.lo + i ∧ g.lo + i < f.lo + f.len) := by
    rcases h with h | h <;> omega
  rw [getLsbD_get, getLsbD_get, getLsbD_set, if_neg hout]

/-- A second write to a field undoes the first. -/
@[simp] theorem set_set (f : Field w) (v : BitVec w) (x y : BitVec f.len) :
    f.set (f.set v x) y = f.set v y := by
  apply BitVec.eq_of_getLsbD_eq
  intro i _
  rw [getLsbD_set, getLsbD_set, getLsbD_set]
  by_cases hin : f.lo ≤ i ∧ i < f.lo + f.len
  · rw [if_pos hin, if_pos hin]
  · rw [if_neg hin, if_neg hin, if_neg hin]

/-- To write what a field holds changes nothing. -/
@[simp] theorem set_get (f : Field w) (v : BitVec w) : f.set v (f.get v) = v := by
  apply BitVec.eq_of_getLsbD_eq
  intro i _
  rw [getLsbD_set, getLsbD_get]
  by_cases hin : f.lo ≤ i ∧ i < f.lo + f.len
  · have h1 : i - f.lo < f.len := by omega
    have h2 : f.lo + (i - f.lo) = i := by omega
    simp [hin, h1, h2]
  · rw [if_neg hin]

/-- The bits a mask keeps are determined by the field. -/
theorem and_mask_congr (f : Field w) {v v' : BitVec w} (h : f.get v = f.get v') :
    v &&& f.mask = v' &&& f.mask := by
  apply BitVec.eq_of_getLsbD_eq
  intro i _
  rw [BitVec.getLsbD_and, BitVec.getLsbD_and, getLsbD_mask]
  by_cases hin : f.lo ≤ i ∧ i < f.lo + f.len
  · have hbit := congrArg (fun x => x.getLsbD (i - f.lo)) h
    have h1 : i - f.lo < f.len := by omega
    have h2 : f.lo + (i - f.lo) = i := by omega
    simp only [getLsbD_get, h1, h2, decide_true, Bool.true_and] at hbit
    rw [hbit]
  · simp [hin]

/-- A mask shows whether the field is zero. -/
theorem and_mask_eq_zero_iff (f : Field w) (v : BitVec w) : v &&& f.mask = 0 ↔ f.get v = 0 := by
  constructor
  · intro h
    apply BitVec.eq_of_getLsbD_eq
    intro i hi
    have hin : f.lo ≤ f.lo + i ∧ f.lo + i < f.lo + f.len := by omega
    have hbit := congrArg (fun x => x.getLsbD (f.lo + i)) h
    simp only [BitVec.getLsbD_and, getLsbD_mask, decide_eq_true hin, Bool.and_true] at hbit
    rw [getLsbD_get, decide_eq_true hi, Bool.true_and, hbit]
    simp
  · intro h
    have hzero : f.get 0 = 0 := by simp [get]
    rw [f.and_mask_congr (h.trans hzero.symm)]
    simp

end Field

end BitField
