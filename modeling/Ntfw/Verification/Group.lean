import Ntfw.Ed25519.Ge
import Ntfw.Lib.Edwards
import Ntfw.Verification.Powers

set_option autoImplicit false

/-! # What the group arithmetic computes

The points are those of the curve with `d = -121665/121666`. Each representation of `ge.h` says
which point its limbs stand for, and carries the bounds that the next operation relies on; within
them nothing overflows, and the operations are those of the group. -/

namespace Ntfw

open Limbs Radix Edwards Lucas

/-! ## The curve -/

/-- `d`, as a number. -/
def geDNat : Nat :=
  37095705934669439343138083508754565189542113879843219016388785533085940283555

theorem feVal_geD : feVal geD = ((geDNat : Int) : ZMod feP) := feVal_eq_iff.mpr (by decide)

theorem feVal_geD2 : feVal geD2 = 2 * feVal geD := by
  have hcast : value feOff geD2 ≡ 2 * value feOff geD [ZMOD (feP : Int)] := by decide
  have hval := feVal_eq_iff.mpr hcast
  rw [hval, feVal]
  push_cast
  rfl

theorem feVal_geSqrtm1 : feVal geSqrtm1 * feVal geSqrtm1 = -1 := by
  have hcast : value feOff geSqrtm1 * value feOff geSqrtm1 ≡ -1 [ZMOD (feP : Int)] := by decide
  have hval := element_eq_iff.mpr hcast
  push_cast at hval
  exact hval

/-- Euler's criterion for `d`. -/
theorem geDNat_power : powMod feP 255 geDNat ((feP - 1) / 2) ≠ 1 := by decide +kernel

theorem geD_nonsquare (z : ZMod feP) : z * z ≠ feVal geD := by
  intro h
  have hd : feVal geD = (geDNat : ZMod feP) := by rw [feVal_geD, Int.cast_natCast]
  rw [hd] at h
  have hz : z ≠ 0 := by
    rintro rfl
    rw [mul_zero, eq_comm, ZMod.natCast_eq_zero_iff] at h
    exact absurd h (by decide)
  have hlt : (feP - 1) / 2 < 2 ^ 255 := by norm_num [feP]
  refine geDNat_power ((powMod_eq_one_iff geDNat (by norm_num [feP]) hlt).mpr ?_)
  rw [← h, ← pow_two, ← pow_mul, show 2 * ((feP - 1) / 2) = feP - 1 by norm_num [feP]]
  exact ZMod.pow_card_sub_one_eq_one hz

theorem two_ne_zero_feP : (2 : ZMod feP) ≠ 0 := by
  intro h
  have hdvd : feP ∣ 2 := (ZMod.natCast_eq_zero_iff 2 feP).mp (by exact_mod_cast h)
  exact absurd (Nat.le_of_dvd (by decide) hdvd) (by norm_num [feP])

/-- The curve of the signatures. -/
def curve : Curve (ZMod feP) where
  d := feVal geD
  i := feVal geSqrtm1
  i_sq := feVal_geSqrtm1
  nonsquare := geD_nonsquare
  two_ne := two_ne_zero_feP

theorem curve_d : curve.d = (geDNat : ZMod feP) :=
  feVal_geD.trans (Int.cast_natCast _)

/-- The point with coordinates that are given as numbers. -/
def pointOf (x y : Int)
    (h : -x ^ 2 + y ^ 2 ≡ 1 + geDNat * x ^ 2 * y ^ 2 [ZMOD (feP : Int)]) : Point curve where
  x := x
  y := y
  on := by
    have hcast := element_eq_iff.mpr h
    push_cast at hcast
    rw [curve_d]
    exact hcast

/-! ## Representations -/

theorem elem_self {k : Nat} {f : Fe} (h : Upto (feTight k) f) : Elem k (feVal f) f := ⟨h, rfl⟩

/-- The projective limbs stand for `P`. -/
structure GeP2.Is (p : GeP2) (P : Point curve) : Prop where
  X : Upto (feTight 1) p.X
  Y : Upto (feTight 1) p.Y
  Z : Upto (feTight 1) p.Z
  point : Projective P (feVal p.X) (feVal p.Y) (feVal p.Z)

/-- The extended limbs stand for `P`. -/
structure GeP3.Is (p : GeP3) (P : Point curve) : Prop where
  X : Upto (feTight 1) p.X
  Y : Upto (feTight 1) p.Y
  Z : Upto (feTight 1) p.Z
  T : Upto (feTight 1) p.T
  point : Extended P (feVal p.X) (feVal p.Y) (feVal p.Z) (feVal p.T)

/-- The completed limbs stand for `P`; they are as large as sums. -/
structure GeP1p1.Is (p : GeP1p1) (P : Point curve) : Prop where
  X : Upto (feTight 3) p.X
  Y : Upto (feTight 3) p.Y
  Z : Upto (feTight 3) p.Z
  T : Upto (feTight 3) p.T
  point : Completed P (feVal p.X) (feVal p.Y) (feVal p.Z) (feVal p.T)

/-- The summand stands for `P`. -/
structure GeCached.Is (q : GeCached) (P : Point curve) : Prop where
  plus : Upto (feTight 2) q.YplusX
  minus : Upto (feTight 2) q.YminusX
  Z : Upto (feTight 1) q.Z
  t2d : Upto (feTight 1) q.T2d
  point : Prepared P (feVal q.YplusX) (feVal q.YminusX) (feVal q.Z) (feVal q.T2d)

/-- The entry of a table stands for `P`. -/
structure GePrecomp.Is (q : GePrecomp) (P : Point curve) : Prop where
  plus : Upto (feTight 1) q.yplusx
  minus : Upto (feTight 1) q.yminusx
  xy2d : Upto (feTight 1) q.xy2d
  point : Prepared P (feVal q.yplusx) (feVal q.yminusx) 1 (feVal q.xy2d)

/-- Completed limbs, from what the operations that made them computed. -/
theorem GeP1p1.Is.of_elem {P : Point curve} {r : GeP1p1} {i j k l : Nat} {a b c d : ZMod feP}
    (hX : Elem i a r.X) (hY : Elem j b r.Y) (hZ : Elem k c r.Z) (hT : Elem l d r.T)
    (hi : i ≤ 3) (hj : j ≤ 3) (hk : k ≤ 3) (hl : l ≤ 3) (h : Completed P a b c d) : r.Is P :=
  ⟨(hX.mono hi).upto, (hY.mono hj).upto, (hZ.mono hk).upto, (hT.mono hl).upto,
    by rw [hX.val, hY.val, hZ.val, hT.val]; exact h⟩

/-! ## Sums -/

/-- **`ge_add` adds.** -/
theorem geAdd_spec {P Q : Point curve} {p : GeP3} {q : GeCached} (hp : p.Is P) (hq : q.Is Q) :
    ∃ r, geAdd p q = some r ∧ r.Is (P + Q) := by
  refine bind_spec (feAdd_elem (elem_self hp.Y) (elem_self hp.X) (by decide)) fun X hX => ?_
  refine bind_spec (feSub_elem (elem_self hp.Y) (elem_self hp.X) (by decide)) fun Y hY => ?_
  refine bind_spec (feMul_elem hX (elem_self hq.plus) (by decide) (by decide)) fun Z hZ => ?_
  refine bind_spec (feMul_elem hY (elem_self hq.minus) (by decide) (by decide)) fun Y hY => ?_
  refine bind_spec (feMul_elem (elem_self hq.t2d) (elem_self hp.T) (by decide) (by decide))
    fun T hT => ?_
  refine bind_spec (feMul_elem (elem_self hp.Z) (elem_self hq.Z) (by decide) (by decide))
    fun X hX => ?_
  refine bind_spec (feAdd_elem hX hX (by decide)) fun t0 ht0 => ?_
  refine bind_spec (feSub_elem hZ hY (by decide)) fun X hX => ?_
  refine bind_spec (feAdd_elem hZ hY (by decide)) fun Y hY => ?_
  refine bind_spec (feAdd_elem ht0 hT (by decide)) fun Z hZ => ?_
  refine bind_spec (feSub_elem ht0 hT (by decide)) fun T hT => ?_
  exact ⟨_, rfl, .of_elem hX hY hZ hT (by decide) (by decide) (by decide) (by decide)
    (hp.point.add hq.point)⟩

/-- **`ge_sub` subtracts.** -/
theorem geSub_spec {P Q : Point curve} {p : GeP3} {q : GeCached} (hp : p.Is P) (hq : q.Is Q) :
    ∃ r, geSub p q = some r ∧ r.Is (P - Q) := by
  have hsum := hp.point.add hq.point.neg
  rw [neg_mul, sub_neg_eq_add, ← sub_eq_add_neg, ← sub_eq_add_neg] at hsum
  refine bind_spec (feAdd_elem (elem_self hp.Y) (elem_self hp.X) (by decide)) fun X hX => ?_
  refine bind_spec (feSub_elem (elem_self hp.Y) (elem_self hp.X) (by decide)) fun Y hY => ?_
  refine bind_spec (feMul_elem hX (elem_self hq.minus) (by decide) (by decide)) fun Z hZ => ?_
  refine bind_spec (feMul_elem hY (elem_self hq.plus) (by decide) (by decide)) fun Y hY => ?_
  refine bind_spec (feMul_elem (elem_self hq.t2d) (elem_self hp.T) (by decide) (by decide))
    fun T hT => ?_
  refine bind_spec (feMul_elem (elem_self hp.Z) (elem_self hq.Z) (by decide) (by decide))
    fun X hX => ?_
  refine bind_spec (feAdd_elem hX hX (by decide)) fun t0 ht0 => ?_
  refine bind_spec (feSub_elem hZ hY (by decide)) fun X hX => ?_
  refine bind_spec (feAdd_elem hZ hY (by decide)) fun Y hY => ?_
  refine bind_spec (feSub_elem ht0 hT (by decide)) fun Z hZ => ?_
  refine bind_spec (feAdd_elem ht0 hT (by decide)) fun T hT => ?_
  exact ⟨_, rfl, .of_elem hX hY hZ hT (by decide) (by decide) (by decide) (by decide) hsum⟩

/-- **`ge_madd` adds** an entry of a table. -/
theorem geMadd_spec {P Q : Point curve} {p : GeP3} {q : GePrecomp} (hp : p.Is P) (hq : q.Is Q) :
    ∃ r, geMadd p q = some r ∧ r.Is (P + Q) := by
  have hsum := hp.point.add hq.point
  rw [mul_one] at hsum
  refine bind_spec (feAdd_elem (elem_self hp.Y) (elem_self hp.X) (by decide)) fun X hX => ?_
  refine bind_spec (feSub_elem (elem_self hp.Y) (elem_self hp.X) (by decide)) fun Y hY => ?_
  refine bind_spec (feMul_elem hX (elem_self hq.plus) (by decide) (by decide)) fun Z hZ => ?_
  refine bind_spec (feMul_elem hY (elem_self hq.minus) (by decide) (by decide)) fun Y hY => ?_
  refine bind_spec (feMul_elem (elem_self hq.xy2d) (elem_self hp.T) (by decide) (by decide))
    fun T hT => ?_
  refine bind_spec (feAdd_elem (elem_self hp.Z) (elem_self hp.Z) (by decide)) fun t0 ht0 => ?_
  refine bind_spec (feSub_elem hZ hY (by decide)) fun X hX => ?_
  refine bind_spec (feAdd_elem hZ hY (by decide)) fun Y hY => ?_
  refine bind_spec (feAdd_elem ht0 hT (by decide)) fun Z hZ => ?_
  refine bind_spec (feSub_elem ht0 hT (by decide)) fun T hT => ?_
  exact ⟨_, rfl, .of_elem hX hY hZ hT (by decide) (by decide) (by decide) (by decide) hsum⟩

/-- **`ge_msub` subtracts** an entry of a table. -/
theorem geMsub_spec {P Q : Point curve} {p : GeP3} {q : GePrecomp} (hp : p.Is P) (hq : q.Is Q) :
    ∃ r, geMsub p q = some r ∧ r.Is (P - Q) := by
  have hsum := hp.point.add hq.point.neg
  rw [neg_mul, sub_neg_eq_add, ← sub_eq_add_neg, ← sub_eq_add_neg, mul_one] at hsum
  refine bind_spec (feAdd_elem (elem_self hp.Y) (elem_self hp.X) (by decide)) fun X hX => ?_
  refine bind_spec (feSub_elem (elem_self hp.Y) (elem_self hp.X) (by decide)) fun Y hY => ?_
  refine bind_spec (feMul_elem hX (elem_self hq.minus) (by decide) (by decide)) fun Z hZ => ?_
  refine bind_spec (feMul_elem hY (elem_self hq.plus) (by decide) (by decide)) fun Y hY => ?_
  refine bind_spec (feMul_elem (elem_self hq.xy2d) (elem_self hp.T) (by decide) (by decide))
    fun T hT => ?_
  refine bind_spec (feAdd_elem (elem_self hp.Z) (elem_self hp.Z) (by decide)) fun t0 ht0 => ?_
  refine bind_spec (feSub_elem hZ hY (by decide)) fun X hX => ?_
  refine bind_spec (feAdd_elem hZ hY (by decide)) fun Y hY => ?_
  refine bind_spec (feSub_elem ht0 hT (by decide)) fun Z hZ => ?_
  refine bind_spec (feAdd_elem ht0 hT (by decide)) fun T hT => ?_
  exact ⟨_, rfl, .of_elem hX hY hZ hT (by decide) (by decide) (by decide) (by decide) hsum⟩

/-! ## Doubles -/

/-- **`ge_p2_dbl` doubles.** -/
theorem geP2Dbl_spec {P : Point curve} {p : GeP2} (hp : p.Is P) :
    ∃ r, geP2Dbl p = some r ∧ r.Is (P + P) := by
  refine bind_spec (feSq_elem (elem_self hp.X) (by decide)) fun X hX => ?_
  refine bind_spec (feSq_elem (elem_self hp.Y) (by decide)) fun Z hZ => ?_
  refine bind_spec (feSq2_elem (elem_self hp.Z) (by decide)) fun T hT => ?_
  refine bind_spec (feAdd_elem (elem_self hp.X) (elem_self hp.Y) (by decide)) fun Y hY => ?_
  refine bind_spec (feSq_elem hY (by decide)) fun t0 ht0 => ?_
  refine bind_spec (feAdd_elem hZ hX (by decide)) fun Y hY => ?_
  refine bind_spec (feSub_elem hZ hX (by decide)) fun Z hZ => ?_
  refine bind_spec (feSub_elem ht0 hY (by decide)) fun X hX => ?_
  refine bind_spec (feSub_elem hT hZ (by decide)) fun T hT => ?_
  exact ⟨_, rfl, .of_elem hX hY hZ hT (by decide) (by decide) (by decide) (by decide)
    hp.point.double⟩

/-! ## Conversions -/

theorem geP1p1ToP2_spec {P : Point curve} {p : GeP1p1} (hp : p.Is P) :
    ∃ r, geP1p1ToP2 p = some r ∧ r.Is P := by
  refine bind_spec (feMul_elem (elem_self hp.X) (elem_self hp.T) (by decide) (by decide))
    fun X hX => ?_
  refine bind_spec (feMul_elem (elem_self hp.Y) (elem_self hp.Z) (by decide) (by decide))
    fun Y hY => ?_
  refine bind_spec (feMul_elem (elem_self hp.Z) (elem_self hp.T) (by decide) (by decide))
    fun Z hZ => ?_
  exact ⟨_, rfl, hX.upto, hY.upto, hZ.upto,
    by rw [hX.val, hY.val, hZ.val]; exact hp.point.projective⟩

theorem geP1p1ToP3_spec {P : Point curve} {p : GeP1p1} (hp : p.Is P) :
    ∃ r, geP1p1ToP3 p = some r ∧ r.Is P := by
  refine bind_spec (feMul_elem (elem_self hp.X) (elem_self hp.T) (by decide) (by decide))
    fun X hX => ?_
  refine bind_spec (feMul_elem (elem_self hp.Y) (elem_self hp.Z) (by decide) (by decide))
    fun Y hY => ?_
  refine bind_spec (feMul_elem (elem_self hp.Z) (elem_self hp.T) (by decide) (by decide))
    fun Z hZ => ?_
  refine bind_spec (feMul_elem (elem_self hp.X) (elem_self hp.Y) (by decide) (by decide))
    fun T hT => ?_
  exact ⟨_, rfl, hX.upto, hY.upto, hZ.upto, hT.upto,
    by rw [hX.val, hY.val, hZ.val, hT.val]; exact hp.point.extended⟩

theorem geD2_upto : Upto (feTight 1) geD2 := by decide

theorem geP3ToCached_spec {P : Point curve} {p : GeP3} (hp : p.Is P) :
    ∃ q, geP3ToCached p = some q ∧ q.Is P := by
  refine bind_spec (feAdd_elem (elem_self hp.Y) (elem_self hp.X) (by decide)) fun a ha => ?_
  refine bind_spec (feSub_elem (elem_self hp.Y) (elem_self hp.X) (by decide)) fun b hb => ?_
  refine bind_spec (feMul_elem (elem_self hp.T) (elem_self geD2_upto) (by decide) (by decide))
    fun t ht => ?_
  refine ⟨_, rfl, ha.upto, hb.upto, hp.Z, ht.upto, ?_⟩
  rw [ha.val, hb.val, ht.val, feVal_geD2]
  exact hp.point.prepared

theorem geP3ToP2_is {P : Point curve} {p : GeP3} (hp : p.Is P) : (geP3ToP2 p).Is P :=
  ⟨hp.X, hp.Y, hp.Z, hp.point.toProjective⟩

theorem geP3Dbl_spec {P : Point curve} {p : GeP3} (hp : p.Is P) :
    ∃ r, geP3Dbl p = some r ∧ r.Is (P + P) := geP2Dbl_spec (geP3ToP2_is hp)

theorem feVal_fe0 : feVal fe0 = 0 := by
  have h : value feOff fe0 ≡ 0 [ZMOD (feP : Int)] := by decide
  exact (feVal_eq_iff.mpr h).trans Int.cast_zero

theorem feVal_fe1 : feVal fe1 = 1 := by
  have h : value feOff fe1 ≡ 1 [ZMOD (feP : Int)] := by decide
  exact (feVal_eq_iff.mpr h).trans Int.cast_one

theorem geP30_is : geP30.Is 0 := by
  refine ⟨by decide, by decide, by decide, by decide, ?_⟩
  show Extended (0 : Point curve) (feVal fe0) (feVal fe1) (feVal fe1) (feVal fe0)
  rw [feVal_fe0, feVal_fe1]
  exact Extended.zero

theorem geP20_is : geP20.Is 0 := geP3ToP2_is geP30_is

/-! ## The base point -/

/-- `x` and `y` of the base point. -/
def baseX : Int := 15112221349535400772501151409588531511454012693041857206046113283949847762202
def baseY : Int := 46316835694926478169428394003475163141307993866256225615783033603165251855960

theorem base_on :
    -baseX ^ 2 + baseY ^ 2 ≡ 1 + geDNat * baseX ^ 2 * baseY ^ 2 [ZMOD (feP : Int)] := by
  decide

/-- The base point. -/
def base : Point curve := pointOf baseX baseY base_on

/-- The limbs are `x`, `y` and `x y`, times a `Z` that is not zero. -/
def Coordinates (p : GeP3) (x y : Int) : Prop :=
  (Upto (feTight 1) p.X ∧ Upto (feTight 1) p.Y ∧ Upto (feTight 1) p.Z ∧ Upto (feTight 1) p.T) ∧
    ¬value feOff p.Z ≡ 0 [ZMOD (feP : Int)] ∧
    value feOff p.X ≡ x * value feOff p.Z [ZMOD (feP : Int)] ∧
    value feOff p.Y ≡ y * value feOff p.Z [ZMOD (feP : Int)] ∧
    value feOff p.T ≡ x * y * value feOff p.Z [ZMOD (feP : Int)]

instance (p : GeP3) (x y : Int) : Decidable (Coordinates p x y) :=
  inferInstanceAs (Decidable (_ ∧ _ ∧ _ ∧ _ ∧ _))

theorem Coordinates.is {p : GeP3} {x y : Int} (hp : Coordinates p x y) (h) :
    p.Is (pointOf x y h) := by
  obtain ⟨⟨hX, hY, hZ, hT⟩, hne, hx, hy, ht⟩ := hp
  have hx' := element_eq_iff.mpr hx
  have hy' := element_eq_iff.mpr hy
  have ht' := element_eq_iff.mpr ht
  push_cast at hx' hy' ht'
  refine ⟨hX, hY, hZ, hT, ⟨fun h0 => hne ?_, hx', hy'⟩, ht'⟩
  exact element_eq_iff.mp (h0.trans Int.cast_zero.symm)

/-- Extended limbs of the base point, with `Z = 1` and with `Z = 2`. -/
def geBase : GeP3 where
  X := #v[-14297830, -7645148, 16144683, -16471763, 27570974, -2696100, -26142465, 8378389,
    20764389, 8758491]
  Y := #v[-26843541, -6710886, 13421773, -13421773, 26843546, 6710886, -13421773, 13421773,
    -26843546, -6710886]
  Z := fe1
  T := #v[28827062, -6116119, -27349572, 244363, 8635006, 11264893, 19351346, 13413597, 16611511,
    -6414980]
def geBaseScaled : GeP3 where
  X := #v[-28595641, -15290296, 32289366, 610906, -11966917, -5392199, 14823934, 16756777,
    -25580086, -16037449]
  Y := #v[13421782, -13421773, 26843546, 6710886, -13421773, 13421773, -26843546, -6710886,
    13421773, -13421773]
  Z := #v[2, 0, 0, 0, 0, 0, 0, 0, 0, 0]
  T := #v[-9454740, -12232237, 12409720, 488725, 17270012, -11024646, -28406171, -6727237, 33223023,
    -12829960]

theorem geBase_is : geBase.Is base :=
  Coordinates.is (show Coordinates geBase baseX baseY by decide) base_on

theorem geBaseScaled_is : geBaseScaled.Is base :=
  Coordinates.is (show Coordinates geBaseScaled baseX baseY by decide) base_on

/-! ## The group -/

/-- **The group operations.** From extended limbs that stand for `P` and `Q`, nothing overflows in
preparing `Q`, adding it to or subtracting it from `P`, or doubling `P`, nor in converting the
result back, and it stands for the sum, the difference and the double: also where `P` and `Q` are
equal, opposite or neutral. -/
theorem ge_group {P Q : Point curve} {p q : GeP3} (hp : p.Is P) (hq : q.Is Q) :
    ∃ c, geP3ToCached q = some c ∧
      (∃ r s, geAdd p c = some r ∧ geP1p1ToP3 r = some s ∧ s.Is (P + Q)) ∧
      (∃ r s, geSub p c = some r ∧ geP1p1ToP3 r = some s ∧ s.Is (P - Q)) ∧
      ∃ r s t, geP3Dbl p = some r ∧ geP1p1ToP3 r = some s ∧ s.Is (P + P) ∧
        geP1p1ToP2 r = some t ∧ t.Is (P + P) := by
  obtain ⟨c, hc, hcQ⟩ := geP3ToCached_spec hq
  obtain ⟨a, ha, haP⟩ := geAdd_spec hp hcQ
  obtain ⟨b, hb, hbP⟩ := geSub_spec hp hcQ
  obtain ⟨e, he, heP⟩ := geP3Dbl_spec hp
  obtain ⟨a', ha', haP'⟩ := geP1p1ToP3_spec haP
  obtain ⟨b', hb', hbP'⟩ := geP1p1ToP3_spec hbP
  obtain ⟨e', he', heP'⟩ := geP1p1ToP3_spec heP
  obtain ⟨t, ht, htP⟩ := geP1p1ToP2_spec heP
  exact ⟨c, hc, ⟨a, a', ha, ha', haP'⟩, ⟨b, b', hb, hb', hbP'⟩, e, e', t, he, he', heP', ht, htP⟩

theorem ge_group_base :
    ∃ c, geP3ToCached geBaseScaled = some c ∧
      (∃ r s, geAdd geBase c = some r ∧ geP1p1ToP3 r = some s ∧ s.Is (base + base)) ∧
      (∃ r s, geSub geBase c = some r ∧ geP1p1ToP3 r = some s ∧ s.Is (base - base)) ∧
      ∃ r s t, geP3Dbl geBase = some r ∧ geP1p1ToP3 r = some s ∧ s.Is (base + base) ∧
        geP1p1ToP2 r = some t ∧ t.Is (base + base) :=
  ge_group geBase_is geBaseScaled_is

/-! ## Points as bytes -/

/-- The number that the bytes of a point are: `y`, and the parity of `x` as the uppermost bit. -/
def encode (P : Point curve) : Nat := P.y.val + 2 ^ 255 * (P.x.val % 2)

/-- Bytes that differ in the uppermost one only. -/
theorem leVal_last {s t : Vector byte 32}
    (hlow : ∀ i : Fin 31, t.get i.castSucc = s.get i.castSucc) :
    leVal t + 2 ^ 248 * (s.get (Fin.last 31)).toNat
      = leVal s + 2 ^ 248 * (t.get (Fin.last 31)).toNat := by
  have hsplit : ∀ u : Vector byte 32, leVal u = ∑ i : Fin 31, 2 ^ (8 * i.val) *
      (u.get i.castSucc).toNat + 2 ^ 248 * (u.get (Fin.last 31)).toNat :=
    fun u => Fin.sum_univ_castSucc _
  rw [hsplit s, hsplit t]
  simp only [hlow]
  ring

theorem signByte_low (s : Vector byte 32) (negative : byte) (i : Fin 31) :
    (signByte s negative).get i.castSucc = s.get i.castSucc := by
  have hne : (31 : Nat) ≠ i.val := by omega
  exact Vector.getElem_set_ne _ _ hne

theorem signByte_last (s : Vector byte 32) (negative : byte) :
    (signByte s negative).get (Fin.last 31) = s.get (Fin.last 31) ^^^ negative <<< 7 :=
  Vector.getElem_set_self _

theorem byte_sign : ∀ a : byte, a.toNat < 128 → (a ^^^ 1 <<< 7).toNat = a.toNat + 128 := by decide

/-- The sign is put above the number. -/
theorem leVal_signByte {s : Vector byte 32} {negative : byte} (hs : leVal s < 2 ^ 255)
    (hn : negative.toNat < 2) :
    leVal (signByte s negative) = leVal s + 2 ^ 255 * negative.toNat := by
  have htop : (s.get (Fin.last 31)).toNat < 128 := by
    have hbits := bits_leVal s (Fin.last 31)
    rw [bits] at hbits
    have hdiv : leVal s / 2 ^ (8 * (Fin.last 31).val) < 128 := by
      rw [Nat.div_lt_iff_lt_mul (by positivity)]
      exact hs
    exact hbits.symm.trans_lt ((Nat.mod_le _ _).trans_lt hdiv)
  have hset := leVal_last (signByte_low s negative)
  rw [signByte_last] at hset
  have hsign : (s.get (Fin.last 31) ^^^ negative <<< 7).toNat
      = (s.get (Fin.last 31)).toNat + 128 * negative.toNat := by
    obtain h0 | h1 : negative.toNat = 0 ∨ negative.toNat = 1 := by omega
    · obtain rfl : negative = 0 := BitVec.eq_of_toNat_eq h0
      simp
    · obtain rfl : negative = 1 := BitVec.eq_of_toNat_eq h1
      exact byte_sign _ htop
  rw [hsign] at hset
  linarith

/-- **`ge_tobytes` writes the point.** -/
theorem geTobytes_spec {P : Point curve} {p : GeP2} (hp : p.Is P) :
    ∃ s, geTobytes p = some s ∧ leVal s = encode P := by
  have hx : feVal p.X * (feVal p.Z)⁻¹ = P.x := by
    rw [hp.point.x, mul_assoc, mul_inv_cancel₀ hp.point.ne, mul_one]
  have hy : feVal p.Y * (feVal p.Z)⁻¹ = P.y := by
    rw [hp.point.y, mul_assoc, mul_inv_cancel₀ hp.point.ne, mul_one]
  refine bind_spec (feInvert_elem (elem_self hp.Z) (by decide)) fun z hz => ?_
  refine bind_spec (feMul_elem (elem_self hp.X) hz (by decide) (by decide)) fun x hx' => ?_
  refine bind_spec (feMul_elem (elem_self hp.Y) hz (by decide) (by decide)) fun y hy' => ?_
  rw [hx] at hx'
  rw [hy] at hy'
  refine bind_spec (feTobytes_spec (hy'.loose (by decide))) fun s hs => ?_
  refine bind_spec (feIsnegative_spec (hx'.loose (by decide))) fun b hb => ?_
  rw [hy'.val] at hs
  rw [hx'.val] at hb
  have hlt : leVal s < 2 ^ 255 := hs ▸ (ZMod.val_lt P.y).trans (by norm_num [feP])
  refine ⟨_, rfl, ?_⟩
  rw [leVal_signByte hlt (hb ▸ Nat.mod_lt _ (by decide)), hs, hb]
  rfl

/-- Opposite elements other than zero differ in parity. -/
theorem val_neg_parity {a : ZMod feP} (ha : a ≠ 0) : (-a).val % 2 ≠ a.val % 2 := by
  have hneg := ZMod.neg_val a
  rw [if_neg ha] at hneg
  have hlt := ZMod.val_lt a
  have hodd : feP % 2 = 1 := by norm_num [feP]
  omega

/-- **The bytes tell the points apart.** -/
theorem encode_injective {P Q : Point curve} (h : encode P = encode Q) : P = Q := by
  have hP : P.y.val < 2 ^ 255 := (ZMod.val_lt P.y).trans (by norm_num [feP])
  have hQ : Q.y.val < 2 ^ 255 := (ZMod.val_lt Q.y).trans (by norm_num [feP])
  simp only [encode] at h
  have hy : P.y = Q.y := ZMod.val_injective feP (by omega)
  have hx : P.x.val % 2 = Q.x.val % 2 := by omega
  rcases Point.eq_or_eq_neg hy with rfl | rfl
  · rfl
  · by_cases h0 : Q.x = 0
    · exact Point.ext (by rw [Point.neg_x, h0, neg_zero]) hy
    · exact absurd hx (val_neg_parity h0)

/-- **The bytes of points.** From extended limbs that stand for `P` and `Q`, `ge_p3_tobytes` writes
`y` below `2 ^ 255 - 19` with the parity of `x` above it, whatever the limbs are; the bytes are the
same exactly when the points are. -/
theorem ge_bytes {P Q : Point curve} {p q : GeP3} (hp : p.Is P) (hq : q.Is Q) :
    ∃ s t, geP3Tobytes p = some s ∧ geP3Tobytes q = some t ∧ leVal s = encode P ∧
      (s = t ↔ P = Q) := by
  obtain ⟨s, hs, hsP⟩ := geTobytes_spec (geP3ToP2_is hp)
  obtain ⟨t, ht, htQ⟩ := geTobytes_spec (geP3ToP2_is hq)
  refine ⟨s, t, hs, ht, hsP, fun h => encode_injective ?_, fun h => leVal_injective ?_⟩
  · rw [← hsP, ← htQ, h]
  · rw [hsP, htQ, h]

theorem ge_bytes_base :
    ∃ s t, geP3Tobytes geBase = some s ∧ geP3Tobytes geBaseScaled = some t ∧
      leVal s = encode base ∧ (s = t ↔ base = base) :=
  ge_bytes geBase_is geBaseScaled_is

end Ntfw
