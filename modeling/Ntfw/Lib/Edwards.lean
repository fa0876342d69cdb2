import Mathlib.Algebra.Field.Basic
import Mathlib.Algebra.Group.Defs
import Mathlib.Tactic

set_option autoImplicit false

/-! # Twisted Edwards curves

The curve `-x² + y² = 1 + d x² y²` over a field in which `-1` is a square and `d` is none. Its
addition law has no exceptions (`complete`), and the points are a commutative group. Points are
computed with in projective coordinates: `Extended` and `Completed` say which point such
coordinates are, and the formulas for a sum (`Extended.add`) and for a double (`Extended.double`)
are those of the group. -/

namespace Edwards

/-- The parameters of a curve. -/
structure Curve (F : Type) [Field F] where
  d : F
  i : F
  i_sq : i * i = -1
  nonsquare : ∀ z : F, z * z ≠ d
  two_ne : (2 : F) ≠ 0

variable {F : Type} [Field F]

/-- A point of the curve. -/
@[ext]
structure Point (E : Curve F) where
  x : F
  y : F
  on : -x ^ 2 + y ^ 2 = 1 + E.d * x ^ 2 * y ^ 2

variable {E : Curve F}

/-! ## Completeness -/

/-- `d a²` is no square, unless it is zero. -/
theorem Curve.eq_zero_of_sq {a b : F} (h : b ^ 2 = E.d * a ^ 2) : a = 0 := by
  by_contra ha
  refine E.nonsquare (b / a) ?_
  rw [← pow_two, div_pow, h, mul_div_assoc, div_self (pow_ne_zero 2 ha), mul_one]

/-- The term of the denominators. -/
def Point.cross (P Q : Point E) : F := E.d * P.x * Q.x * P.y * Q.y

/-- **The addition law is complete**: its denominators are never zero. -/
theorem Point.cross_sq_ne (P Q : Point E) : P.cross Q ^ 2 ≠ 1 := by
  intro h1
  have hP := P.on
  have hQ := Q.on
  have hi := E.i_sq
  have he : P.cross Q = E.d * P.x * Q.x * P.y * Q.y := rfl
  set e := P.cross Q
  have hplus : (E.i * P.x + e * P.y) ^ 2 = E.d * (P.x * P.y * (E.i * Q.x + Q.y)) ^ 2 := by
    linear_combination (P.x ^ 2 - E.d * P.x ^ 2 * P.y ^ 2 * Q.x ^ 2) * hi + hP
      - E.d * P.x ^ 2 * P.y ^ 2 * hQ + (P.y ^ 2 - 1) * h1
      + (2 * E.i * P.x * P.y + e + E.d * P.x * Q.x * P.y * Q.y) * he
  have hminus : (E.i * P.x - e * P.y) ^ 2 = E.d * (P.x * P.y * (E.i * Q.x - Q.y)) ^ 2 := by
    linear_combination (P.x ^ 2 - E.d * P.x ^ 2 * P.y ^ 2 * Q.x ^ 2) * hi + hP
      - E.d * P.x ^ 2 * P.y ^ 2 * hQ + (P.y ^ 2 - 1) * h1
      + (-(2 * E.i * P.x * P.y) + e + E.d * P.x * Q.x * P.y * Q.y) * he
  have hne : P.x * P.y ≠ 0 := by
    intro h0
    have hzero : e = E.d * Q.x * Q.y * (P.x * P.y) := by rw [he]; ring
    rw [hzero, h0, mul_zero, zero_pow two_ne_zero] at h1
    exact zero_ne_one h1
  have hp := (mul_eq_zero.mp (E.eq_zero_of_sq hplus)).resolve_left hne
  have hm := (mul_eq_zero.mp (E.eq_zero_of_sq hminus)).resolve_left hne
  have hy : Q.y = 0 := by
    have htwo : 2 * Q.y = 0 := by linear_combination hp - hm
    exact (mul_eq_zero.mp htwo).resolve_left E.two_ne
  rw [he, hy, mul_zero, zero_pow two_ne_zero] at h1
  exact zero_ne_one h1

theorem Point.one_add_cross_ne (P Q : Point E) : 1 + P.cross Q ≠ 0 := fun h =>
  P.cross_sq_ne Q (by linear_combination (P.cross Q - 1) * h)

theorem Point.one_sub_cross_ne (P Q : Point E) : 1 - P.cross Q ≠ 0 := fun h =>
  P.cross_sq_ne Q (by linear_combination (-P.cross Q - 1) * h)

/-! ## The group -/

namespace Point

/-- The numerators and denominators of a sum satisfy the equation of the curve. -/
theorem sum_on (P Q : Point E) {a b : F} (ha : a * (1 + P.cross Q) = P.x * Q.y + P.y * Q.x)
    (hb : b * (1 - P.cross Q) = P.y * Q.y + P.x * Q.x) :
    -a ^ 2 + b ^ 2 = 1 + E.d * a ^ 2 * b ^ 2 := by
  have hP := P.on
  have hQ := Q.on
  obtain ⟨x₁, y₁, _⟩ := P
  obtain ⟨x₂, y₂, _⟩ := Q
  have h1 := one_add_cross_ne ⟨x₁, y₁, hP⟩ ⟨x₂, y₂, hQ⟩
  have h2 := one_sub_cross_ne ⟨x₁, y₁, hP⟩ ⟨x₂, y₂, hQ⟩
  simp only [cross] at *
  set d := E.d
  set e := d * x₁ * x₂ * y₁ * y₂ with he
  have hpoly : -((x₁ * y₂ + y₁ * x₂) * (1 - e)) ^ 2 + ((y₁ * y₂ + x₁ * x₂) * (1 + e)) ^ 2
      = ((1 + e) * (1 - e)) ^ 2 + d * ((x₁ * y₂ + y₁ * x₂) * (y₁ * y₂ + x₁ * x₂)) ^ 2 := by
    rw [he]
    linear_combination (d ^ 2 * x₂ ^ 4 * y₂ ^ 4 * (d * x₁ ^ 2 * y₁ ^ 2 - x₁ ^ 2 + y₁ ^ 2 - 1)
        + d * x₂ ^ 2 * y₂ ^ 2 * ((y₁ ^ 2 - x₁ ^ 2) * (x₂ ^ 2 - y₂ ^ 2) - 2 - 2 * x₂ ^ 2 * y₂ ^ 2)
        - 2 * x₂ ^ 4 * y₂ ^ 2 + 2 * x₂ ^ 2 * y₂ ^ 4 - 4 * x₂ ^ 2 * y₂ ^ 2 + x₂ ^ 4 + y₂ ^ 4) * hP
      + (d * x₂ ^ 2 * y₂ ^ 2 * (x₁ ^ 4 + 2 * x₁ ^ 2 + y₁ ^ 4 - 2 * y₁ ^ 2 + 1)
        + (x₁ ^ 2 - y₁ ^ 2 + 1) * (2 * x₂ ^ 2 * y₂ ^ 2 - x₂ ^ 2 + y₂ ^ 2) + 1) * hQ
  rw [← ha, ← hb] at hpoly
  refine mul_left_cancel₀ (pow_ne_zero 2 (mul_ne_zero h1 h2)) ?_
  linear_combination hpoly

/-- The sum of two points. -/
def add (P Q : Point E) : Point E where
  x := (P.x * Q.y + P.y * Q.x) / (1 + P.cross Q)
  y := (P.y * Q.y + P.x * Q.x) / (1 - P.cross Q)
  on := sum_on P Q (div_mul_cancel₀ _ (P.one_add_cross_ne Q))
    (div_mul_cancel₀ _ (P.one_sub_cross_ne Q))

/-- The neutral point. -/
def zero (E : Curve F) : Point E := ⟨0, 1, by ring⟩

/-- The opposite of a point. -/
def neg (P : Point E) : Point E := ⟨-P.x, P.y, by have := P.on; linear_combination this⟩

theorem add_x (P Q : Point E) :
    (P.add Q).x * (1 + P.cross Q) = P.x * Q.y + P.y * Q.x :=
  div_mul_cancel₀ _ (P.one_add_cross_ne Q)

theorem add_y (P Q : Point E) :
    (P.add Q).y * (1 - P.cross Q) = P.y * Q.y + P.x * Q.x :=
  div_mul_cancel₀ _ (P.one_sub_cross_ne Q)

/-- The sum, by its coordinates without division. -/
theorem eq_add {P Q S : Point E} (hx : S.x * (1 + P.cross Q) = P.x * Q.y + P.y * Q.x)
    (hy : S.y * (1 - P.cross Q) = P.y * Q.y + P.x * Q.x) : S = P.add Q :=
  Point.ext (mul_right_cancel₀ (P.one_add_cross_ne Q) (hx.trans (P.add_x Q).symm))
    (mul_right_cancel₀ (P.one_sub_cross_ne Q) (hy.trans (P.add_y Q).symm))

theorem cross_comm (P Q : Point E) : P.cross Q = Q.cross P := by
  simp only [cross]
  ring

theorem add_comm (P Q : Point E) : P.add Q = Q.add P := by
  refine eq_add ?_ ?_
  · rw [← cross_comm, add_x]
    ring
  · rw [← cross_comm, add_y]
    ring

/-- The denominator of a sum of three points, without the inner division. -/
theorem cross_add (P Q R : Point E) :
    (1 + P.cross Q) * (1 - P.cross Q) * (P.add Q).cross R
      = E.d * (P.x * Q.y + P.y * Q.x) * (P.y * Q.y + P.x * Q.x) * R.x * R.y := by
  rw [← P.add_x Q, ← P.add_y Q, cross.eq_1 (P.add Q)]
  ring

theorem cross_add' (P Q R : Point E) :
    (1 + Q.cross R) * (1 - Q.cross R) * P.cross (Q.add R)
      = E.d * (Q.x * R.y + Q.y * R.x) * (Q.y * R.y + Q.x * R.x) * P.x * P.y := by
  rw [P.cross_comm, cross_add]

end Point

/-- Two fractions are equal. -/
theorem eq_of_mul_eq {a b m n p q : F} (ha : a * m = p) (hb : b * n = q) (hm : m ≠ 0) (hn : n ≠ 0)
    (h : p * n = q * m) : a = b := by
  refine mul_right_cancel₀ (mul_ne_zero hm hn) ?_
  linear_combination n * ha - m * hb + h

section Associativity

variable {d x₁ y₁ x₂ y₂ x₃ y₃ A B e A' B' e' : F} (h₁ : -x₁ ^ 2 + y₁ ^ 2 = 1 + d * x₁ ^ 2 * y₁ ^ 2)
  (h₂ : -x₂ ^ 2 + y₂ ^ 2 = 1 + d * x₂ ^ 2 * y₂ ^ 2)
  (h₃ : -x₃ ^ 2 + y₃ ^ 2 = 1 + d * x₃ ^ 2 * y₃ ^ 2)
  (hA : A = x₁ * y₂ + y₁ * x₂) (hB : B = y₁ * y₂ + x₁ * x₂) (he : e = d * x₁ * x₂ * y₁ * y₂)
  (hA' : A' = x₂ * y₃ + y₂ * x₃) (hB' : B' = y₂ * y₃ + x₂ * x₃) (he' : e' = d * x₂ * x₃ * y₂ * y₃)

include h₁ h₂ h₃ hA hB he hA' hB' he'

/-- Associativity in `x`: the two fractions agree modulo the equations of the points. -/
theorem assoc_x :
    (A * (1 - e) * y₃ + B * (1 + e) * x₃) * ((1 + e') * (1 - e') + d * A' * B' * x₁ * y₁)
      = (x₁ * B' * (1 + e') + y₁ * A' * (1 - e'))
        * ((1 + e) * (1 - e) + d * A * B * x₃ * y₃) := by
  have hcof : (A * (1 - e) * y₃ + B * (1 + e) * x₃) * ((1 + e') * (1 - e') + d * A' * B' * x₁ * y₁)
      - (x₁ * B' * (1 + e') + y₁ * A' * (1 - e')) * ((1 + e) * (1 - e) + d * A * B * x₃ * y₃)
      = d * x₂ * y₂ * (x₁ * B' * (A' * (y₂ * y₃ - x₂ * x₃) - x₂ * y₂ * (1 + e'))
          + y₁ * A' * (B' * (x₂ * y₃ - y₂ * x₃) - x₂ * y₂ * (1 - e')))
          * (-x₁ ^ 2 + y₁ ^ 2 - (1 + d * x₁ ^ 2 * y₁ ^ 2))
        + e' * ((x₁ ^ 2 - y₁ ^ 2 + 1) * (x₁ * B' - y₁ * A')
            + d * x₁ * y₁ * x₃ * y₃ * (x₁ * (x₂ * x₃ - y₂ * y₃) - y₁ * (x₂ * y₃ - y₂ * x₃)))
          * (-x₂ ^ 2 + y₂ ^ 2 - (1 + d * x₂ ^ 2 * y₂ ^ 2))
        + (d * x₂ ^ 2 * y₂ ^ 2 * (x₁ ^ 2 - y₁ ^ 2 + 1) * (x₁ * B' + y₁ * A')
            + e * (A * y₃ - B * x₃))
          * (-x₃ ^ 2 + y₃ ^ 2 - (1 + d * x₃ ^ 2 * y₃ ^ 2)) := by
    rw [hA, hB, he, hA', hB', he']
    ring
  rw [← sub_eq_zero, hcof, sub_eq_zero.mpr h₁, sub_eq_zero.mpr h₂, sub_eq_zero.mpr h₃]
  ring

/-- Associativity in `y`. -/
theorem assoc_y :
    (B * (1 + e) * y₃ + A * (1 - e) * x₃) * ((1 + e') * (1 - e') - d * A' * B' * x₁ * y₁)
      = (y₁ * B' * (1 + e') + x₁ * A' * (1 - e'))
        * ((1 + e) * (1 - e) - d * A * B * x₃ * y₃) := by
  have hcof : (B * (1 + e) * y₃ + A * (1 - e) * x₃) * ((1 + e') * (1 - e') - d * A' * B' * x₁ * y₁)
      - (y₁ * B' * (1 + e') + x₁ * A' * (1 - e')) * ((1 + e) * (1 - e) - d * A * B * x₃ * y₃)
      = d * x₂ * y₂ * (y₁ * B' * (A' * (y₂ * y₃ - x₂ * x₃) - x₂ * y₂ * (1 + e'))
          + x₁ * A' * (B' * (x₂ * y₃ - y₂ * x₃) - x₂ * y₂ * (1 - e')))
          * (-x₁ ^ 2 + y₁ ^ 2 - (1 + d * x₁ ^ 2 * y₁ ^ 2))
        + e' * ((x₁ ^ 2 - y₁ ^ 2 + 1) * (y₁ * B' - x₁ * A')
            + d * x₁ * y₁ * x₃ * y₃ * (x₁ * (x₂ * y₃ - y₂ * x₃) - y₁ * (x₂ * x₃ - y₂ * y₃)))
          * (-x₂ ^ 2 + y₂ ^ 2 - (1 + d * x₂ ^ 2 * y₂ ^ 2))
        + (d * x₂ ^ 2 * y₂ ^ 2 * (x₁ ^ 2 - y₁ ^ 2 + 1) * (y₁ * B' + x₁ * A')
            - e * (B * y₃ - A * x₃))
          * (-x₃ ^ 2 + y₃ ^ 2 - (1 + d * x₃ ^ 2 * y₃ ^ 2)) := by
    rw [hA, hB, he, hA', hB', he']
    ring
  rw [← sub_eq_zero, hcof, sub_eq_zero.mpr h₁, sub_eq_zero.mpr h₂, sub_eq_zero.mpr h₃]
  ring

end Associativity

namespace Point

/-- **The sum is associative.** Both sides are fractions, equal modulo the equations of the
points. -/
theorem add_assoc (P Q R : Point E) : (P.add Q).add R = P.add (Q.add R) := by
  have h := mul_ne_zero (P.one_add_cross_ne Q) (P.one_sub_cross_ne Q)
  have h' := mul_ne_zero (Q.one_add_cross_ne R) (Q.one_sub_cross_ne R)
  have hl := cross_add P Q R
  have hr := cross_add' P Q R
  refine Point.ext ?_ ?_
  · have hL : ((P.add Q).add R).x * ((1 + P.cross Q) * (1 - P.cross Q)
          + E.d * (P.x * Q.y + P.y * Q.x) * (P.y * Q.y + P.x * Q.x) * R.x * R.y)
        = (P.x * Q.y + P.y * Q.x) * (1 - P.cross Q) * R.y
          + (P.y * Q.y + P.x * Q.x) * (1 + P.cross Q) * R.x := by
      rw [← hl, ← P.add_x Q, ← P.add_y Q]
      linear_combination (1 + P.cross Q) * (1 - P.cross Q) * (P.add Q).add_x R
    have hM : (P.add (Q.add R)).x * ((1 + Q.cross R) * (1 - Q.cross R)
          + E.d * (Q.x * R.y + Q.y * R.x) * (Q.y * R.y + Q.x * R.x) * P.x * P.y)
        = P.x * (Q.y * R.y + Q.x * R.x) * (1 + Q.cross R)
          + P.y * (Q.x * R.y + Q.y * R.x) * (1 - Q.cross R) := by
      rw [← hr, ← Q.add_x R, ← Q.add_y R]
      linear_combination (1 + Q.cross R) * (1 - Q.cross R) * P.add_x (Q.add R)
    refine eq_of_mul_eq hL hM ?_ ?_ (assoc_x P.on Q.on R.on rfl rfl rfl rfl rfl rfl)
    · rw [← hl, ← mul_one_add]
      exact mul_ne_zero h ((P.add Q).one_add_cross_ne R)
    · rw [← hr, ← mul_one_add]
      exact mul_ne_zero h' (P.one_add_cross_ne (Q.add R))
  · have hL : ((P.add Q).add R).y * ((1 + P.cross Q) * (1 - P.cross Q)
          - E.d * (P.x * Q.y + P.y * Q.x) * (P.y * Q.y + P.x * Q.x) * R.x * R.y)
        = (P.y * Q.y + P.x * Q.x) * (1 + P.cross Q) * R.y
          + (P.x * Q.y + P.y * Q.x) * (1 - P.cross Q) * R.x := by
      rw [← hl, ← P.add_x Q, ← P.add_y Q]
      linear_combination (1 + P.cross Q) * (1 - P.cross Q) * (P.add Q).add_y R
    have hM : (P.add (Q.add R)).y * ((1 + Q.cross R) * (1 - Q.cross R)
          - E.d * (Q.x * R.y + Q.y * R.x) * (Q.y * R.y + Q.x * R.x) * P.x * P.y)
        = P.y * (Q.y * R.y + Q.x * R.x) * (1 + Q.cross R)
          + P.x * (Q.x * R.y + Q.y * R.x) * (1 - Q.cross R) := by
      rw [← hr, ← Q.add_x R, ← Q.add_y R]
      linear_combination (1 + Q.cross R) * (1 - Q.cross R) * P.add_y (Q.add R)
    refine eq_of_mul_eq hL hM ?_ ?_ (assoc_y P.on Q.on R.on rfl rfl rfl rfl rfl rfl)
    · rw [← hl, ← mul_one_sub]
      exact mul_ne_zero h ((P.add Q).one_sub_cross_ne R)
    · rw [← hr, ← mul_one_sub]
      exact mul_ne_zero h' (P.one_sub_cross_ne (Q.add R))

theorem zero_add (P : Point E) : (zero E).add P = P := by
  symm
  refine eq_add ?_ ?_ <;> simp [zero, cross]

theorem neg_add_cancel (P : Point E) : P.neg.add P = zero E := by
  symm
  refine eq_add ?_ ?_
  · simp only [zero, neg]
    ring
  · have h := P.on
    simp only [zero, neg, cross]
    linear_combination -h

instance : Zero (Point E) := ⟨zero E⟩
instance : Neg (Point E) := ⟨neg⟩
instance : Add (Point E) := ⟨add⟩

instance : AddCommGroup (Point E) where
  add_assoc := add_assoc
  zero_add := zero_add
  add_zero P := (add_comm P (zero E)).trans (zero_add P)
  neg_add_cancel := neg_add_cancel
  add_comm := add_comm
  nsmul := nsmulRec
  zsmul := zsmulRec

theorem sum_x (P Q : Point E) : (P + Q).x * (1 + P.cross Q) = P.x * Q.y + P.y * Q.x := P.add_x Q

theorem sum_y (P Q : Point E) : (P + Q).y * (1 - P.cross Q) = P.y * Q.y + P.x * Q.x := P.add_y Q

@[simp] theorem zero_x : (0 : Point E).x = 0 := rfl
@[simp] theorem zero_y : (0 : Point E).y = 1 := rfl
@[simp] theorem neg_x (P : Point E) : (-P).x = -P.x := rfl
@[simp] theorem neg_y (P : Point E) : (-P).y = P.y := rfl

/-- A point is its opposite's opposite in `x` only. -/
theorem eq_or_eq_neg {P Q : Point E} (h : P.y = Q.y) : P = Q ∨ P = -Q := by
  have hP := P.on
  have hQ := Q.on
  rw [h] at hP
  have hne : -1 - E.d * Q.y ^ 2 ≠ 0 := by
    intro h0
    refine absurd (E.eq_zero_of_sq (a := Q.y) (b := E.i) ?_) ?_
    · linear_combination E.i_sq + h0
    · intro hy
      rw [hy] at h0
      norm_num at h0
  have hsq : (-1 - E.d * Q.y ^ 2) * ((P.x - Q.x) * (P.x + Q.x)) = 0 := by
    linear_combination hP - hQ
  rcases mul_eq_zero.mp ((mul_eq_zero.mp hsq).resolve_left hne) with hx | hx
  · exact .inl (Point.ext (sub_eq_zero.mp hx) h)
  · exact .inr (Point.ext (eq_neg_of_add_eq_zero_left hx) h)

end Point

/-! ## Coordinates to compute with -/

/-- The coordinates `(X : Y : Z)` of a point. -/
structure Projective (P : Point E) (X Y Z : F) : Prop where
  ne : Z ≠ 0
  x : X = P.x * Z
  y : Y = P.y * Z

/-- The coordinates `(X : Y : Z : T)`, with `T` the product of the two of the point. -/
structure Extended (P : Point E) (X Y Z T : F) : Prop extends Projective P X Y Z where
  t : T = P.x * P.y * Z

/-- The coordinates `((X : Z), (Y : T))`. -/
structure Completed (P : Point E) (X Y Z T : F) : Prop where
  zne : Z ≠ 0
  tne : T ≠ 0
  x : X = P.x * Z
  y : Y = P.y * T

/-- What a summand is prepared to: the sum and the difference of its coordinates, and `2 d T`. -/
structure Prepared (P : Point E) (yplusx yminusx Z t2d : F) : Prop where
  ne : Z ≠ 0
  plus : yplusx = (P.y + P.x) * Z
  minus : yminusx = (P.y - P.x) * Z
  t2d : t2d = 2 * E.d * (P.x * P.y) * Z

theorem Projective.zero : Projective (0 : Point E) 0 1 1 :=
  ⟨one_ne_zero, by simp, by simp⟩

theorem Extended.zero : Extended (0 : Point E) 0 1 1 0 :=
  ⟨Projective.zero, by simp⟩

theorem Extended.prepared {P : Point E} {X Y Z T : F} (h : Extended P X Y Z T) :
    Prepared P (Y + X) (Y - X) Z (T * (2 * E.d)) :=
  ⟨h.ne, by rw [h.x, h.y]; ring, by rw [h.x, h.y]; ring, by rw [h.t]; ring⟩

/-- The opposite of a summand. -/
theorem Prepared.neg {P : Point E} {a b Z t : F} (h : Prepared P a b Z t) :
    Prepared (-P) b a Z (-t) :=
  ⟨h.ne, by rw [h.minus, Point.neg_x, Point.neg_y]; ring,
    by rw [h.plus, Point.neg_x, Point.neg_y]; ring,
    by rw [h.t2d, Point.neg_x, Point.neg_y]; ring⟩

/-- **The sum** of a point and a prepared one. -/
theorem Extended.add {P Q : Point E} {X Y Z T a b Z' t : F} (hP : Extended P X Y Z T)
    (hQ : Prepared Q a b Z' t) :
    Completed (P + Q) ((Y + X) * a - (Y - X) * b) ((Y + X) * a + (Y - X) * b)
      (Z * Z' + Z * Z' + t * T) (Z * Z' + Z * Z' - t * T) := by
  have h1 := P.one_add_cross_ne Q
  have h2 := P.one_sub_cross_ne Q
  have hz : 2 * (Z * Z') ≠ 0 := mul_ne_zero E.two_ne (mul_ne_zero hP.ne hQ.ne)
  have hplus : Z * Z' + Z * Z' + t * T = (1 + P.cross Q) * (2 * (Z * Z')) := by
    rw [hP.t, hQ.t2d, Point.cross]
    ring
  have hminus : Z * Z' + Z * Z' - t * T = (1 - P.cross Q) * (2 * (Z * Z')) := by
    rw [hP.t, hQ.t2d, Point.cross]
    ring
  refine ⟨hplus ▸ mul_ne_zero h1 hz, hminus ▸ mul_ne_zero h2 hz, ?_, ?_⟩
  · rw [hplus, ← mul_assoc, Point.sum_x, hP.x, hP.y, hQ.plus, hQ.minus]
    ring
  · rw [hminus, ← mul_assoc, Point.sum_y, hP.x, hP.y, hQ.plus, hQ.minus]
    ring

/-- **The double** of a point. -/
theorem Projective.double {P : Point E} {X Y Z : F} (hP : Projective P X Y Z) :
    Completed (P + P) ((X + Y) ^ 2 - (Y ^ 2 + X ^ 2)) (Y ^ 2 + X ^ 2) (Y ^ 2 - X ^ 2)
      (2 * Z ^ 2 - (Y ^ 2 - X ^ 2)) := by
  have h1 := P.one_add_cross_ne P
  have h2 := P.one_sub_cross_ne P
  have hz : Z ^ 2 ≠ 0 := pow_ne_zero 2 hP.ne
  have hplus : Y ^ 2 - X ^ 2 = (1 + P.cross P) * Z ^ 2 := by
    rw [hP.x, hP.y, Point.cross]
    linear_combination Z ^ 2 * P.on
  have hminus : 2 * Z ^ 2 - (Y ^ 2 - X ^ 2) = (1 - P.cross P) * Z ^ 2 := by
    rw [hplus]
    ring
  refine ⟨hplus ▸ mul_ne_zero h1 hz, hminus ▸ mul_ne_zero h2 hz, ?_, ?_⟩
  · rw [hplus, ← mul_assoc, Point.sum_x, hP.x, hP.y]
    ring
  · rw [hminus, ← mul_assoc, Point.sum_y, hP.x, hP.y]
    ring

theorem Completed.projective {P : Point E} {X Y Z T : F} (h : Completed P X Y Z T) :
    Projective P (X * T) (Y * Z) (Z * T) :=
  ⟨mul_ne_zero h.zne h.tne, by rw [h.x]; ring, by rw [h.y]; ring⟩

theorem Completed.extended {P : Point E} {X Y Z T : F} (h : Completed P X Y Z T) :
    Extended P (X * T) (Y * Z) (Z * T) (X * Y) :=
  ⟨h.projective, by rw [h.x, h.y]; ring⟩

end Edwards
