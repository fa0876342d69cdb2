import Mathlib.Data.ZMod.Basic
import Ntfw.Ed25519.Fe

set_option autoImplicit false

/-! # What the field arithmetic computes

`fe.c` documents bounds of the limbs for each of its operations. Within them no operation
overflows, its result is within the bounds it documents, and the element it represents is the one
of the field operation. `Elem k a h` says that the limbs `h` represent `a` and are up to `k` times
the bound of a product, which is all that a sequence of operations has to keep track of. -/

namespace Ntfw

open Limbs

/-- `2 ^ 255 - 19`. -/
def feP : Nat := 2 ^ 255 - 19

/-- The element that the limbs represent. -/
def feVal (h : Fe) : ZMod feP := (value feOff h : Int)

/-- What the operands of a product are bounded by: `1.65*2^26, 1.65*2^25, ...`. -/
def feLoose : Vector Nat 10 :=
  Vector.ofFn fun i => if i.val % 2 = 0 then 110729625 else 55364812

/-- `k` times the bound of a product: `1.01*2^25, 1.01*2^24, ...`. -/
def feTight (k : Nat) : Vector Nat 10 :=
  Vector.ofFn fun i => k * if i.val % 2 = 0 then 33889976 else 16944988

/-- Elements are the same exactly if numbers that represent them are congruent. -/
theorem element_eq_iff {x y : Int} : (x : ZMod feP) = y ↔ x ≡ y [ZMOD (feP : Int)] :=
  ZMod.intCast_eq_intCast_iff x y feP

theorem feVal_eq_iff {f : Fe} {x : Int} :
    feVal f = (x : ZMod feP) ↔ value feOff f ≡ x [ZMOD (feP : Int)] := element_eq_iff

/-! ## The chains and the tables -/

/-- No row of a product is larger than this. -/
def feRows : Vector Nat 10 := Vector.replicate 10 (2 ^ 61)

theorem feCarries_keeps : ∀ mv ∈ feMulCarries ++ feWideCarries, mv.Keeps feOff feP := by
  decide

/-- **The table of `fe_mul` is that of the product.** -/
theorem feMulRow_multiplies : Multiplies feOff feOff feP feMulRow := by
  intro i
  fin_cases i <;> decide +kernel

/-- **The table of `fe_sq` is that of the square.** -/
theorem feSqRow_squares : Squares feOff feOff feP feSqRow := by
  intro i
  fin_cases i <;> decide +kernel

/-- **The products fit**, and the carries after them. -/
theorem feTables_fit :
    Bounds 32 64 feMulRow feLoose feLoose (Vector.replicate 10 0) feRows ∧
      Bounds 32 64 feSqRow feLoose feLoose (Vector.replicate 10 0) feRows ∧
      Limbs.Carries 64 feMulCarries (Vector.replicate 10 (2 ^ 62)) (feTight 1) :=
  ⟨by decide, by decide, by decide⟩

theorem feMulCarries_keeps : ∀ mv ∈ feMulCarries, mv.Keeps feOff feP :=
  fun mv h => feCarries_keeps mv (List.mem_append_left _ h)

theorem feWideCarries_keeps : ∀ mv ∈ feWideCarries, mv.Keeps feOff feP :=
  fun mv h => feCarries_keeps mv (List.mem_append_right _ h)

theorem feTight_fitting : Fitting 32 (feTight 3) := by decide

/-! ## Elements -/

/-- The limbs represent `a`, and are up to `k` times the bound of a product. -/
structure Elem (k : Nat) (a : ZMod feP) (h : Fe) : Prop where
  upto : Upto (feTight k) h
  val : feVal h = a

theorem feTight_mono {j k : Nat} (hjk : j ≤ k) : Below (feTight j) (feTight k) := by
  intro i
  simp only [feTight, Fin.getElem_fin, Vector.getElem_ofFn]
  exact Nat.mul_le_mul_right _ hjk

theorem Elem.mono {j k : Nat} {a : ZMod feP} {h : Fe} (hh : Elem j a h) (hjk : j ≤ k) :
    Elem k a h := ⟨hh.upto.mono (feTight_mono hjk), hh.val⟩

theorem feTight_loose : Below (feTight 3) feLoose := by decide

theorem Elem.loose {k : Nat} {a : ZMod feP} {h : Fe} (hh : Elem k a h) (hk : k ≤ 3) :
    Upto feLoose h := (hh.mono hk).upto.mono feTight_loose

theorem feStore_of_upto {h : Fe} (hh : Upto (feTight 3) h) : feStore h = some h := by
  have hsame : (Vector.ofFn fun i : Fin 10 => h[i]) = h := Vector.ext fun i hi => by simp
  rw [feStore, collect_signed feTight_fitting (hsame.symm ▸ hh), hsame]

/-! ## Sums -/

theorem feTight_add (j k : Nat) :
    sums (feTight j) (feTight k) = feTight (j + k) := by
  refine Vector.ext fun i hi => ?_
  simp only [sums, feTight, Fin.getElem_fin, Vector.getElem_ofFn]
  ring

theorem feTight_le {k : Nat} (hk : k ≤ 3) : Fitting 32 (feTight k) :=
  (feTight_mono hk).fitting feTight_fitting

theorem feAdd_elem {j k : Nat} {a b : ZMod feP} {f g : Fe} (hf : Elem j a f) (hg : Elem k b g)
    (hjk : j + k ≤ 3) : ∃ h, feAdd f g = some h ∧ Elem (j + k) (a + b) h := by
  have hup := hf.upto.add hg.upto
  rw [feTight_add] at hup
  refine ⟨_, collect_signed (feTight_le hjk) hup, hup, ?_⟩
  rw [feVal, value_ofFn_add, ← hf.val, ← hg.val]
  push_cast [feVal]
  rfl

theorem feSub_elem {j k : Nat} {a b : ZMod feP} {f g : Fe} (hf : Elem j a f) (hg : Elem k b g)
    (hjk : j + k ≤ 3) : ∃ h, feSub f g = some h ∧ Elem (j + k) (a - b) h := by
  have hup := hf.upto.sub hg.upto
  rw [feTight_add] at hup
  refine ⟨_, collect_signed (feTight_le hjk) hup, hup, ?_⟩
  rw [feVal, value_ofFn_sub, ← hf.val, ← hg.val]
  push_cast [feVal]
  rfl

theorem feNeg_elem {k : Nat} {a : ZMod feP} {f : Fe} (hf : Elem k a f) (hk : k ≤ 3) :
    ∃ h, feNeg f = some h ∧ Elem k (-a) h := by
  have hup := hf.upto.neg
  refine ⟨_, collect_signed (feTight_le hk) hup, hup, ?_⟩
  rw [feVal, value_ofFn_neg, ← hf.val]
  push_cast [feVal]
  rfl

/-! ## Products -/

theorem feP_cast : (feP : Int) = 2 ^ 255 - 19 := by norm_num [feP]

theorem isCoprime_feP_two : IsCoprime (feP : Int) 2 := by
  rw [feP_cast, Int.isCoprime_iff_gcd_eq_one]
  norm_num

theorem value_zeros (off : Vector Nat 10) : value off (Vector.replicate 10 0) = 0 := by
  simp [value]

/-- The end of every product: the carries, and the conversion of the limbs. -/
theorem feMulCarries_store {h : Vector Int 10} (hh : Upto (Vector.replicate 10 (2 ^ 62)) h) :
    ∃ r, (do let h ← Limbs.run 64 feMulCarries h; feStore h) = some r ∧ Upto (feTight 1) r ∧
      value feOff r ≡ value feOff h [ZMOD (feP : Int)] := by
  obtain ⟨r, hrun, hup, hval⟩ := feTables_fit.2.2.run feMulCarries_keeps hh
  refine ⟨r, ?_, hup, hval⟩
  rw [hrun]
  exact feStore_of_upto (hup.mono (feTight_mono (by decide)))

theorem feRows_le : Below feRows (Vector.replicate 10 (2 ^ 62)) := by decide

theorem feRows_twice : Below (sums feRows feRows) (Vector.replicate 10 (2 ^ 62)) := by decide

/-- **`fe_mul` multiplies**: within its bounds it does not overflow. -/
theorem feMul_spec {f g : Fe} (hf : Upto feLoose f) (hg : Upto feLoose g) :
    ∃ h, feMul f g = some h ∧ Elem 1 (feVal f * feVal g) h := by
  obtain ⟨h, hp, hup, hval⟩ := products_spec feTables_fit.1 feOff hf hg
    (e := Vector.replicate 10 0) (fun i => by simp)
  obtain ⟨r, hr, htight, hmod⟩ := feMulCarries_store (hup.mono feRows_le)
  refine ⟨r, ?_, htight, ?_⟩
  · rw [feMul, hp]
    exact hr
  · rw [value_zeros, zero_add] at hval
    have hprod := hmod.trans (hval ▸ feMulRow_multiplies.sum_modEq f g)
    simpa [feVal] using feVal_eq_iff.mpr hprod

/-- **`fe_sq` squares**: within its bounds it does not overflow. -/
theorem feSq_spec {f : Fe} (hf : Upto feLoose f) :
    ∃ h, feSq f = some h ∧ Elem 1 (feVal f ^ 2) h := by
  obtain ⟨h, hp, hup, hval⟩ := products_spec feTables_fit.2.1 feOff hf hf
    (e := Vector.replicate 10 0) (fun i => by simp)
  obtain ⟨r, hr, htight, hmod⟩ := feMulCarries_store (hup.mono feRows_le)
  refine ⟨r, ?_, htight, ?_⟩
  · rw [feSq, hp]
    exact hr
  · rw [value_zeros, zero_add] at hval
    have hprod := hmod.trans (hval ▸ feSqRow_squares.sum_modEq isCoprime_feP_two f)
    simpa [feVal, pow_two] using feVal_eq_iff.mpr hprod

/-- **`fe_sq2` gives twice the square**: within its bounds it does not overflow. -/
theorem feSq2_spec {f : Fe} (hf : Upto feLoose f) :
    ∃ h, feSq2 f = some h ∧ Elem 1 (2 * feVal f ^ 2) h := by
  obtain ⟨h, hp, hup, hval⟩ := products_spec feTables_fit.2.1 feOff hf hf
    (e := Vector.replicate 10 0) (fun i => by simp)
  have htwice := (hup.add hup).mono feRows_twice
  have hc := collect_signed (w := 64) (by decide) htwice
  obtain ⟨r, hr, htight, hmod⟩ := feMulCarries_store htwice
  refine ⟨r, ?_, htight, ?_⟩
  · rw [feSq2, hp, Option.bind_eq_bind, Option.bind_some, hc]
    exact hr
  · rw [value_zeros, zero_add] at hval
    have hsq := hval ▸ feSqRow_squares.sum_modEq isCoprime_feP_two f
    rw [value_ofFn_add] at hmod
    have hprod := hmod.trans (hsq.add hsq)
    simpa [feVal, pow_two, two_mul] using feVal_eq_iff.mpr hprod

/-- **The products of `fe.c` are exact**: with limbs up to the bounds documented for them,
`fe_mul`, `fe_sq` and `fe_sq2` compute the product, the square and twice the square modulo
`2 ^ 255 - 19`, without a signed overflow, and their limbs are up to the bounds documented for the
results. -/
theorem fe_products {f g : Fe} (hf : Upto feLoose f) (hg : Upto feLoose g) :
    (∃ h, feMul f g = some h ∧ Upto (feTight 1) h ∧
      value feOff h ≡ value feOff f * value feOff g [ZMOD (feP : Int)]) ∧
    (∃ h, feSq f = some h ∧ Upto (feTight 1) h ∧
      value feOff h ≡ value feOff f ^ 2 [ZMOD (feP : Int)]) ∧
    (∃ h, feSq2 f = some h ∧ Upto (feTight 1) h ∧
      value feOff h ≡ 2 * value feOff f ^ 2 [ZMOD (feP : Int)]) := by
  obtain ⟨h, hmul, hm⟩ := feMul_spec hf hg
  obtain ⟨s, hsq, hs⟩ := feSq_spec hf
  obtain ⟨t, hsq2, ht⟩ := feSq2_spec hf
  refine ⟨⟨h, hmul, hm.upto, feVal_eq_iff.mp ?_⟩, ⟨s, hsq, hs.upto, feVal_eq_iff.mp ?_⟩,
    ⟨t, hsq2, ht.upto, feVal_eq_iff.mp ?_⟩⟩
  · rw [hm.val]
    push_cast [feVal]
    rfl
  · rw [hs.val]
    push_cast [feVal]
    rfl
  · rw [ht.val]
    push_cast [feVal]
    rfl

/-- The largest limbs there may be, of both signs. -/
def feExtreme : Fe := #v[110729625, -55364812, 110729625, 55364812, -110729625, 55364812,
  110729625, -55364812, -110729625, -55364812]

theorem fe_products_extreme :
    (∃ h, feMul feExtreme feExtreme = some h ∧ Upto (feTight 1) h ∧
      value feOff h ≡ value feOff feExtreme * value feOff feExtreme [ZMOD (feP : Int)]) ∧
    (∃ h, feSq feExtreme = some h ∧ Upto (feTight 1) h ∧
      value feOff h ≡ value feOff feExtreme ^ 2 [ZMOD (feP : Int)]) ∧
    (∃ h, feSq2 feExtreme = some h ∧ Upto (feTight 1) h ∧
      value feOff h ≡ 2 * value feOff feExtreme ^ 2 [ZMOD (feP : Int)]) :=
  fe_products (by decide) (by decide)

theorem feMul_elem {j k : Nat} {a b : ZMod feP} {f g : Fe} (hf : Elem j a f) (hg : Elem k b g)
    (hj : j ≤ 3) (hk : k ≤ 3) : ∃ h, feMul f g = some h ∧ Elem 1 (a * b) h := by
  obtain ⟨h, hmul, hh⟩ := feMul_spec (hf.loose hj) (hg.loose hk)
  exact ⟨h, hmul, hf.val ▸ hg.val ▸ hh⟩

theorem feSq_elem {k : Nat} {a : ZMod feP} {f : Fe} (hf : Elem k a f) (hk : k ≤ 3) :
    ∃ h, feSq f = some h ∧ Elem 1 (a ^ 2) h := by
  obtain ⟨h, hsq, hh⟩ := feSq_spec (hf.loose hk)
  exact ⟨h, hsq, hf.val ▸ hh⟩

theorem feSq2_elem {k : Nat} {a : ZMod feP} {f : Fe} (hf : Elem k a f) (hk : k ≤ 3) :
    ∃ h, feSq2 f = some h ∧ Elem 1 (2 * a ^ 2) h := by
  obtain ⟨h, hsq, hh⟩ := feSq2_spec (hf.loose hk)
  exact ⟨h, hsq, hf.val ▸ hh⟩

end Ntfw
