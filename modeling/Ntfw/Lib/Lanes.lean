import Mathlib.Tactic

set_option autoImplicit false

/-! # Lanes of a vector register

A register of `n` lanes of `w` bits is a word of `n * w` bits, the first lane in the low ones.
To find a value among the lanes, vector code compares them all with a register that holds the
value in every lane, gathers the top bit of every byte into a mask, and counts the trailing
zeros of the mask. `Marks` says what such a mask is, and `Marks.find` what it is good for;
`Marks.append` joins the masks of two registers.
-/

namespace Lanes

variable {n w : ℕ}

/-! ## Registers -/

/-- The word with the given bits, the first in the lowest place. -/
def ofBits (f : Fin w → Bool) : BitVec w := BitVec.ofNat w (Nat.ofBits f)

theorem getLsbD_ofBits (f : Fin w → Bool) {i : ℕ} (hi : i < w) :
    (ofBits f).getLsbD i = f ⟨i, hi⟩ := by
  rw [ofBits, BitVec.getLsbD_ofNat, decide_eq_true hi, Bool.true_and, Nat.testBit_ofBits_lt f i hi]

/-- The register with the given lanes. -/
def pack (f : Fin n → BitVec w) : BitVec (n * w) :=
  ofBits fun i => (f i.divNat).getLsbD i.modNat.val

def lane (v : BitVec (n * w)) (k : Fin n) : BitVec w := v.extractLsb' (k.val * w) w

/-- All ones in every lane where the two registers agree, zero in the others. -/
def cmpeq (a b : BitVec (n * w)) : BitVec (n * w) :=
  pack fun k => if lane a k = lane b k then BitVec.allOnes w else 0#w

/-- The top bit of every byte. -/
def movemask {u : ℕ} (len : ℕ) (v : BitVec u) : BitVec len :=
  ofBits fun i => v.getLsbD (8 * i.val + 7)

theorem getLsbD_pack (f : Fin n → BitVec w) {k : Fin n} {i : ℕ} (hi : i < w) :
    (pack f).getLsbD (k.val * w + i) = (f k).getLsbD i := by
  have hlt : k.val * w + i < n * w := by
    have hk : (k.val + 1) * w ≤ n * w := Nat.mul_le_mul_right w k.isLt
    rw [Nat.succ_mul] at hk
    omega
  have hdiv : (⟨k.val * w + i, hlt⟩ : Fin (n * w)).divNat = k := by
    apply Fin.ext
    show (k.val * w + i) / w = k.val
    rw [Nat.mul_comm, Nat.mul_add_div (by omega), Nat.div_eq_of_lt hi, Nat.add_zero]
  have hmod : (⟨k.val * w + i, hlt⟩ : Fin (n * w)).modNat.val = i := by
    show (k.val * w + i) % w = i
    rw [Nat.mul_comm, Nat.mul_add_mod, Nat.mod_eq_of_lt hi]
  rw [pack, getLsbD_ofBits _ hlt, hdiv, hmod]

theorem lane_pack (f : Fin n → BitVec w) (k : Fin n) : lane (pack f) k = f k := by
  apply BitVec.eq_of_getLsbD_eq
  intro i hi
  rw [lane, BitVec.getLsbD_extractLsb', getLsbD_pack f hi, decide_eq_true hi, Bool.true_and]

/-- The lanes of a run of lanes. -/
theorem lane_extractLsb' {m : ℕ} (v : BitVec (n * w)) (a : ℕ) (k : Fin m) (h : a + m ≤ n) :
    lane (v.extractLsb' (a * w) (m * w)) k = lane v ⟨a + k.val, by omega⟩ := by
  apply BitVec.eq_of_getLsbD_eq
  intro i hi
  have hlt : k.val * w + i < m * w := by
    have hk : (k.val + 1) * w ≤ m * w := Nat.mul_le_mul_right w k.isLt
    rw [Nat.succ_mul] at hk
    omega
  simp only [lane, BitVec.getLsbD_extractLsb', hi, hlt, decide_true, Bool.true_and]
  rw [Nat.add_mul, Nat.add_assoc]

/-! ## Masks -/

/-- The mask has `c` bits for each lane, and those of the lanes with the property are set. -/
def Marks (c : ℕ) (P : Fin n → Prop) {u : ℕ} (m : BitVec u) : Prop :=
  ∀ i, m.getLsbD i = true ↔ ∃ k : Fin n, P k ∧ i / c = k.val

/-- Bit `i` of the mask is the top bit of byte `i % c` of lane `i / c`. -/
theorem getLsbD_movemask {c u : ℕ} (f : Fin n → BitVec (8 * c)) {i : ℕ} (hi : i < n * c)
    (hu : i < u) :
    (movemask u (pack f)).getLsbD i
      = (f ⟨i / c, Nat.div_lt_of_lt_mul (by rwa [Nat.mul_comm] at hi)⟩).getLsbD
          (8 * (i % c) + 7) := by
  have hc : 0 < c := Nat.pos_of_ne_zero fun hc => by simp [hc] at hi
  have hbyte : i % c < c := Nat.mod_lt i hc
  have hpos : 8 * i + 7 = i / c * (8 * c) + (8 * (i % c) + 7) := by
    calc 8 * i + 7 = 8 * (c * (i / c) + i % c) + 7 := by rw [Nat.div_add_mod]
      _ = i / c * (8 * c) + (8 * (i % c) + 7) := by ring
  have hk : i / c < n := Nat.div_lt_of_lt_mul (by rwa [Nat.mul_comm] at hi)
  have hbit := getLsbD_pack f (k := ⟨i / c, hk⟩) (show 8 * (i % c) + 7 < 8 * c by omega)
  rw [movemask, getLsbD_ofBits _ hu]
  show (pack f).getLsbD (8 * i + 7) = _
  rw [hpos]
  exact hbit

/-- Behind the last lane the mask is zero. -/
theorem getLsbD_movemask_of_le {c u : ℕ} (v : BitVec (n * (8 * c))) {i : ℕ} (hi : n * c ≤ i) :
    (movemask u v).getLsbD i = false := by
  by_cases hu : i < u
  · rw [movemask, getLsbD_ofBits _ hu]
    refine BitVec.getLsbD_of_ge v _ ?_
    show n * (8 * c) ≤ 8 * i + 7
    calc n * (8 * c) = 8 * (n * c) := by ring
      _ ≤ 8 * i := Nat.mul_le_mul_left 8 hi
      _ ≤ 8 * i + 7 := Nat.le_add_right _ _
  · exact BitVec.getLsbD_of_ge _ i (Nat.le_of_not_lt hu)

/-- **A comparison, gathered**, marks the lanes that agree: a lane of `c` bytes has `c` bits. -/
theorem marks_movemask_cmpeq {c u : ℕ} (hc : 0 < c) (hu : n * c ≤ u)
    (a b : BitVec (n * (8 * c))) :
    Marks c (fun k => lane a k = lane b k) (movemask u (cmpeq a b)) := by
  intro i
  by_cases hi : i < n * c
  · have hk : i / c < n := Nat.div_lt_of_lt_mul (by rwa [Nat.mul_comm] at hi)
    have hbyte : i % c < c := Nat.mod_lt i hc
    rw [cmpeq, getLsbD_movemask _ hi (Nat.lt_of_lt_of_le hi hu)]
    by_cases heq : lane a ⟨i / c, hk⟩ = lane b ⟨i / c, hk⟩
    · rw [if_pos heq, BitVec.getLsbD_allOnes]
      exact iff_of_true (decide_eq_true (by omega)) ⟨⟨i / c, hk⟩, heq, rfl⟩
    · rw [if_neg heq, BitVec.getLsbD_zero]
      refine iff_of_false Bool.false_ne_true ?_
      rintro ⟨k, hk', hik⟩
      obtain rfl : ⟨i / c, hk⟩ = k := Fin.ext hik
      exact heq hk'
  · rw [getLsbD_movemask_of_le _ (Nat.le_of_not_lt hi)]
    refine iff_of_false Bool.false_ne_true ?_
    rintro ⟨k, -, hik⟩
    have hlt : i / c < n := hik ▸ k.isLt
    exact hi ((Nat.div_lt_iff_lt_mul hc).mp hlt)

variable {c u : ℕ} {P : Fin n → Prop} {m : BitVec u}

theorem Marks.congr {Q : Fin n → Prop} (h : Marks c P m) (hPQ : ∀ k, P k ↔ Q k) :
    Marks c Q m := by
  intro i
  rw [h i]
  exact exists_congr fun k => and_congr_left' (hPQ k)

theorem Marks.eq_zero_iff (h : Marks c P m) (hc : 0 < c) : m = 0 ↔ ∀ k, ¬ P k := by
  constructor
  · intro hm k hk
    have hbit := (h (k.val * c)).mpr ⟨k, hk, Nat.mul_div_cancel _ hc⟩
    subst hm
    have hzero : (0#u).getLsbD (k.val * c) = true := hbit
    rw [BitVec.getLsbD_zero] at hzero
    cases hzero
  · intro hnone
    apply BitVec.eq_of_getLsbD_eq
    intro i hi
    refine (Bool.eq_false_iff.mpr fun hbit => ?_).trans BitVec.getLsbD_zero.symm
    obtain ⟨k, hk, -⟩ := (h i).mp hbit
    exact hnone k hk

/-- **The trailing zeros of a mask** lead to the first lane it marks. -/
theorem Marks.first (h : Marks c P m) (hc : 0 < c) (hm : m ≠ 0) :
    ∃ k : Fin n, m.ctz.toNat / c = k.val ∧ P k ∧ ∀ j < k, ¬ P j := by
  obtain ⟨k, hk, hctz⟩ := (h _).mp (BitVec.getLsbD_true_ctz_of_ne_zero hm)
  refine ⟨k, hctz, hk, fun j hj hPj => ?_⟩
  -- A match in an earlier lane would have set a bit below the lowest one.
  have hlt : j.val * c < m.ctz.toNat := by
    have hdiv : j.val < m.ctz.toNat / c := by
      rw [hctz]
      exact hj
    have hle : (j.val + 1) * c ≤ m.ctz.toNat := (Nat.le_div_iff_mul_le hc).mp hdiv
    rw [Nat.succ_mul] at hle
    omega
  have hbit := (h (j.val * c)).mpr ⟨j, hPj, Nat.mul_div_cancel _ hc⟩
  rw [BitVec.getLsbD_false_of_lt_ctz hlt] at hbit
  cases hbit

/-- The two together: what a scan of the lanes finds can be told from the mask. -/
theorem Marks.find [DecidablePred P] (h : Marks c P m) (hc : 0 < c) :
    (m = 0 ∧ Fin.find? (fun k => decide (P k)) = none)
    ∨ (m ≠ 0 ∧ ∃ k, Fin.find? (fun k => decide (P k)) = some k ∧ m.ctz.toNat / c = k.val) := by
  by_cases hm : m = 0
  · refine Or.inl ⟨hm, Fin.find?_eq_none_iff.mpr fun k => ?_⟩
    exact decide_eq_false ((h.eq_zero_iff hc).mp hm k)
  · obtain ⟨k, hctz, hk, hfirst⟩ := h.first hc hm
    refine Or.inr ⟨hm, k, Fin.find?_eq_some_iff.mpr ⟨decide_eq_true hk, fun j hj => ?_⟩, hctz⟩
    exact decide_eq_false (hfirst j hj)

/-- **Two registers one behind the other**: the second mask goes behind the bits of the first. -/
theorem Marks.append {a b : ℕ} {P : Fin (a + b) → Prop} {m' : BitVec u}
    (hlow : Marks c (fun k : Fin a => P (k.castAdd b)) m)
    (hhigh : Marks c (fun k : Fin b => P (k.natAdd a)) m')
    (hc : 0 < c) (hu : (a + b) * c ≤ u) : Marks c P (m ||| m' <<< (a * c)) := by
  intro i
  have hdiv : (i - a * c) / c = i / c - a := by rw [Nat.mul_comm, Nat.sub_mul_div]
  have hle : a * c ≤ i ↔ a ≤ i / c := (Nat.le_div_iff_mul_le hc).symm
  rw [BitVec.getLsbD_or, Bool.or_eq_true, hlow i, BitVec.getLsbD_shiftLeft]
  simp only [Bool.and_eq_true, decide_eq_true_eq, Bool.not_eq_true', decide_eq_false_iff_not]
  constructor
  · rintro (⟨k, hk, hik⟩ | ⟨⟨-, hge⟩, hbit⟩)
    · exact ⟨k.castAdd b, hk, hik⟩
    · obtain ⟨k, hk, hik⟩ := (hhigh _).mp hbit
      refine ⟨k.natAdd a, hk, ?_⟩
      have ha := hle.mp (Nat.le_of_not_lt hge)
      rw [hdiv] at hik
      show i / c = a + k.val
      omega
  · rintro ⟨k, hk, hik⟩
    cases k using Fin.addCases with
    | left k => exact Or.inl ⟨k, hk, hik⟩
    | right k =>
        have hik' : i / c = a + k.val := hik
        have hlt : i < (a + b) * c := (Nat.div_lt_iff_lt_mul hc).mp (by omega)
        have ha := hle.mpr (by omega)
        refine Or.inr ⟨⟨by omega, by omega⟩, (hhigh _).mpr ⟨k, hk, ?_⟩⟩
        rw [hdiv]
        omega

end Lanes
