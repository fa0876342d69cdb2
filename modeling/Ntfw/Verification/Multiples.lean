import Ntfw.Verification.Group
import Ntfw.Verification.Slide

set_option autoImplicit false

/-! # Multiples of points

`ge_double_scalarmult_vartime` goes down two lists of digits that are zero or odd and at most 15,
with a table of the odd multiples of each point, doubling at each digit. -/

namespace Ntfw

open Limbs Radix Edwards

/-! ## Tables -/

/-- The entries of a table stand for the odd multiples of a point up to 15. -/
def OddMultiples {Q : Type} (stands : Q → Point curve → Prop) (table : List Q)
    (A : Point curve) : Prop :=
  ∀ k : Nat, k < 8 → ∃ q, table[k]? = some q ∧ stands q ((2 * (k : Int) + 1) • A)

/-- The entry of an odd number. -/
theorem OddMultiples.entry {Q : Type} {stands : Q → Point curve → Prop} {table : List Q}
    {A : Point curve} (ht : OddMultiples stands table A) {d : Int} (h0 : 0 < d) (hodd : d % 2 = 1)
    (hle : d ≤ 15) : ∃ q, table[(d / 2).toNat]? = some q ∧ stands q (d • A) := by
  obtain ⟨q, hq, hstands⟩ := ht (d / 2).toNat (by omega)
  have hd : 2 * ((d / 2).toNat : Int) + 1 = d := by omega
  exact ⟨q, hq, hd ▸ hstands⟩

/-- **A digit** adds as many times the point. -/
theorem geDigit_spec {Q : Type} {stands : Q → Point curve → Prop}
    {add sub : GeP3 → Q → Option GeP1p1} {table : List Q} {A P : Point curve} {d : Int}
    {t : GeP1p1}
    (hadd : ∀ {P R p q}, p.Is P → stands q R → ∃ r, add p q = some r ∧ r.Is (P + R))
    (hsub : ∀ {P R p q}, p.Is P → stands q R → ∃ r, sub p q = some r ∧ r.Is (P - R))
    (ht : OddMultiples stands table A) (hd : Window d) (hP : t.Is P) :
    ∃ r, geDigit add sub table d t = some r ∧ r.Is (P + d • A) := by
  rw [geDigit]
  split_ifs with hpos hneg
  · obtain rfl | ⟨hodd, -, hle⟩ := hd
    · exact absurd hpos (lt_irrefl 0)
    · obtain ⟨q, hq, hstands⟩ := ht.entry hpos hodd hle
      refine bind_spec (geP1p1ToP3_spec hP) fun u hu => ?_
      rw [hq]
      exact hadd hu hstands
  · obtain rfl | ⟨hodd, hge, -⟩ := hd
    · exact absurd hneg (lt_irrefl 0)
    · obtain ⟨q, hq, hstands⟩ := ht.entry (d := -d) (by omega) (by omega) (by omega)
      refine bind_spec (geP1p1ToP3_spec hP) fun u hu => ?_
      rw [hq]
      obtain ⟨r, hr, hrP⟩ := hsub hu hstands
      rw [neg_smul, sub_neg_eq_add] at hrP
      exact ⟨r, hr, hrP⟩
  · obtain rfl : d = 0 := by omega
    exact ⟨t, rfl, by rwa [zero_smul, add_zero]⟩

/-- **The table** that is made of a point. -/
theorem geOddMultiples_spec {A A' : Point curve} {A2 : GeP3} (h2 : A2.Is (A + A)) :
    ∀ (n : Nat) {q : GeCached}, q.Is A' →
      ∃ table, geOddMultiples A2 n q = some table ∧
        ∀ k : Nat, k ≤ n → ∃ q, table[k]? = some q ∧ q.Is (A' + (2 * (k : Int)) • A)
  | 0, q, hq => ⟨[q], rfl, fun k hk => by
      obtain rfl : k = 0 := by omega
      exact ⟨q, rfl, by simpa using hq⟩⟩
  | n + 1, q, hq => by
      obtain ⟨t, h1, ht⟩ := geAdd_spec h2 hq
      obtain ⟨u, h2', hu⟩ := geP1p1ToP3_spec ht
      obtain ⟨q', h3, hq'⟩ := geP3ToCached_spec hu
      obtain ⟨table, h4, htable⟩ := geOddMultiples_spec h2 n hq'
      refine ⟨q :: table, ?_, fun k hk => ?_⟩
      · simp only [geOddMultiples, h1, h2', h3, h4, Option.bind_eq_bind, Option.bind_some,
          Option.pure_def]
      · cases k with
        | zero => exact ⟨q, rfl, by simpa using hq⟩
        | succ k =>
            obtain ⟨e, he, heP⟩ := htable k (by omega)
            refine ⟨e, he, ?_⟩
            have hsum : A + A + A' + (2 * (k : Int)) • A
                = A' + (2 * ((k + 1 : Nat) : Int)) • A := by
              push_cast
              module
            rwa [hsum] at heP

/-! ## The loop -/

/-- **The main loop**: what is there is doubled once for each digit. -/
theorem geLoop_spec {A B : Point curve} {Ai : List GeCached} {ra rb : Vector Int 256}
    (hA : OddMultiples GeCached.Is Ai A) (hB : OddMultiples GePrecomp.Is geBi.toList B)
    (ha : Windows ra) (hb : Windows rb) :
    ∀ (n : Nat) {P : Point curve} {r : GeP2}, r.Is P →
      ∃ s, geLoop Ai ra rb n r = some s ∧
        s.Is ((2 ^ n : Int) • P + digitSum ra n • A + digitSum rb n • B)
  | 0, P, r, hr => ⟨r, rfl, by simpa [digitSum] using hr⟩
  | n + 1, P, r, hr => by
      refine bind_spec (geP2Dbl_spec hr) fun t ht => ?_
      refine bind_spec (geDigit_spec geAdd_spec geSub_spec hA (ha n) ht) fun t ht => ?_
      refine bind_spec (geDigit_spec geMadd_spec geMsub_spec hB (hb n) ht) fun t ht => ?_
      refine bind_spec (geP1p1ToP2_spec ht) fun r hr => ?_
      obtain ⟨s, hs, hsP⟩ := geLoop_spec hA hB ha hb n hr
      refine ⟨s, hs, ?_⟩
      have hsum : (2 ^ n : Int) • (P + P + slideDigit ra n • A + slideDigit rb n • B)
          + digitSum ra n • A + digitSum rb n • B
          = (2 ^ (n + 1) : Int) • P + digitSum ra (n + 1) • A + digitSum rb (n + 1) • B := by
        simp only [digitSum]
        module
      rwa [hsum] at hsP

/-! ## The base point -/

/-- A half, modulo `2 ^ 255 - 19`. -/
def half : Int := 2 ^ 254 - 9

theorem half_feP : (half : ZMod feP) * 2 = 1 := by
  have h : half * 2 ≡ 1 [ZMOD (feP : Int)] := by decide
  have hcast := element_eq_iff.mpr h
  rw [Int.cast_mul] at hcast
  exact_mod_cast hcast

/-- `x` and `y` of an entry of the table. -/
def entryX (q : GePrecomp) : Int := (value feOff q.yplusx - value feOff q.yminusx) * half
def entryY (q : GePrecomp) : Int := (value feOff q.yplusx + value feOff q.yminusx) * half

/-- The entry is of a point. -/
structure EntryOn (q : GePrecomp) : Prop where
  plus : Upto (feTight 1) q.yplusx
  minus : Upto (feTight 1) q.yminusx
  xy2d : Upto (feTight 1) q.xy2d
  on : -entryX q ^ 2 + entryY q ^ 2 ≡ 1 + geDNat * entryX q ^ 2 * entryY q ^ 2 [ZMOD (feP : Int)]
  t2d : value feOff q.xy2d ≡ 2 * geDNat * (entryX q * entryY q) [ZMOD (feP : Int)]

theorem entryOn_iff (q : GePrecomp) : EntryOn q ↔ Upto (feTight 1) q.yplusx ∧
    Upto (feTight 1) q.yminusx ∧ Upto (feTight 1) q.xy2d ∧
    -entryX q ^ 2 + entryY q ^ 2 ≡ 1 + geDNat * entryX q ^ 2 * entryY q ^ 2 [ZMOD (feP : Int)] ∧
    value feOff q.xy2d ≡ 2 * geDNat * (entryX q * entryY q) [ZMOD (feP : Int)] :=
  ⟨fun ⟨a, b, c, d, e⟩ => ⟨a, b, c, d, e⟩, fun ⟨a, b, c, d, e⟩ => ⟨a, b, c, d, e⟩⟩

instance (q : GePrecomp) : Decidable (EntryOn q) := decidable_of_iff' _ (entryOn_iff q)

/-- The coordinates of twice the base point. -/
def twoX : Int := 24727413235106541002554574571675588834622768167397638456726423682521233608206
def twoY : Int := 15549675580280190176352668710449542251549572066445060580507079593062643049417

/-- `x` and `y` are the sum of two points, without division. -/
def SumOf (x y x₁ y₁ x₂ y₂ : Int) : Prop :=
  x * (1 + geDNat * x₁ * x₂ * y₁ * y₂) ≡ x₁ * y₂ + y₁ * x₂ [ZMOD (feP : Int)] ∧
    y * (1 - geDNat * x₁ * x₂ * y₁ * y₂) ≡ y₁ * y₂ + x₁ * x₂ [ZMOD (feP : Int)]

instance (x y x₁ y₁ x₂ y₂ : Int) : Decidable (SumOf x y x₁ y₁ x₂ y₂) :=
  inferInstanceAs (Decidable (_ ∧ _))

theorem geBi_on : ∀ k : Fin 8, EntryOn (geBi.get k) := by decide

theorem zero_lt_entries : 0 < 8 := Nat.zero_lt_succ 7

/-- The entry of the base point itself. -/
def geBiFirst : GePrecomp := geBi.get ⟨0, zero_lt_entries⟩

theorem geBi_steps : ∀ k : Fin 7,
    SumOf (entryX (geBi.get k.succ)) (entryY (geBi.get k.succ)) twoX twoY
      (entryX (geBi.get k.castSucc)) (entryY (geBi.get k.castSucc)) := by
  decide

theorem two_on : -twoX ^ 2 + twoY ^ 2 ≡ 1 + geDNat * twoX ^ 2 * twoY ^ 2 [ZMOD (feP : Int)] := by
  decide

theorem two_sumOf : SumOf twoX twoY (entryX geBiFirst) (entryY geBiFirst) (entryX geBiFirst)
    (entryY geBiFirst) := by
  decide

theorem pointOf_sum {x y x₁ y₁ x₂ y₂ : Int} (hsum : SumOf x y x₁ y₁ x₂ y₂) (h h₁ h₂) :
    pointOf x y h = pointOf x₁ y₁ h₁ + pointOf x₂ y₂ h₂ := by
  have hx := element_eq_iff.mpr hsum.1
  have hy := element_eq_iff.mpr hsum.2
  push_cast at hx hy
  rw [← curve_d] at hx hy
  exact Point.eq_add hx hy

/-- The point of an entry. -/
def geBiPoint (k : Fin 8) : Point curve :=
  pointOf (entryX (geBi.get k)) (entryY (geBi.get k)) (geBi_on k).on

theorem geBiFirst_base : entryX geBiFirst ≡ baseX [ZMOD (feP : Int)] ∧
    entryY geBiFirst ≡ baseY [ZMOD (feP : Int)] := by
  decide

/-- The first entry is of the base point itself. -/
theorem geBiPoint_first : geBiPoint ⟨0, zero_lt_entries⟩ = base :=
  Point.ext (element_eq_iff.mpr geBiFirst_base.1) (element_eq_iff.mpr geBiFirst_base.2)

theorem two_eq : pointOf twoX twoY two_on = base + base :=
  geBiPoint_first ▸ pointOf_sum two_sumOf _ (geBi_on _).on (geBi_on _).on

theorem geBiPoint_eq (k : Fin 8) : geBiPoint k = (2 * (k.val : Int) + 1) • base := by
  induction k using Fin.induction with
  | zero => exact geBiPoint_first.trans (one_smul Int base).symm
  | succ k ih =>
      have hstep : geBiPoint k.succ = pointOf twoX twoY two_on + geBiPoint k.castSucc :=
        pointOf_sum (geBi_steps k) _ _ _
      rw [hstep, two_eq, ih, Fin.val_castSucc, Fin.val_succ]
      push_cast
      module

theorem geBi_is (k : Fin 8) : (geBi.get k).Is (geBiPoint k) := by
  have hon := geBi_on k
  have hx : (geBiPoint k).x = (entryX (geBi.get k) : ZMod feP) := rfl
  have hy : (geBiPoint k).y = (entryY (geBi.get k) : ZMod feP) := rfl
  refine ⟨hon.plus, hon.minus, hon.xy2d, one_ne_zero, ?_, ?_, ?_⟩
  · simp only [hx, hy, entryX, entryY, Int.cast_mul, Int.cast_add, Int.cast_sub, feVal]
    linear_combination -(value feOff (geBi.get k).yplusx : ZMod feP) * half_feP
  · simp only [hx, hy, entryX, entryY, Int.cast_mul, Int.cast_add, Int.cast_sub, feVal]
    linear_combination -(value feOff (geBi.get k).yminusx : ZMod feP) * half_feP
  · have hcast := element_eq_iff.mpr hon.t2d
    push_cast at hcast
    rw [hx, hy, curve_d, mul_one]
    exact hcast

/-- **The precomputed table** holds the odd multiples of the base point. -/
theorem geBi_odd : OddMultiples GePrecomp.Is geBi.toList base := by
  intro k hk
  have his := geBi_is ⟨k, hk⟩
  rw [geBiPoint_eq] at his
  exact ⟨_, by simp [Vector.get, hk], his⟩

/-! ## The whole -/

theorem digitSum_geTop (ra rb : Vector Int 256) : ∀ n,
    digitSum ra (geTop ra rb n) = digitSum ra n ∧ digitSum rb (geTop ra rb n) = digitSum rb n
  | 0 => ⟨rfl, rfl⟩
  | n + 1 => by
      rw [geTop]
      split_ifs with h
      · exact ⟨rfl, rfl⟩
      · obtain ⟨ha, hb⟩ := not_or.mp h
        rw [digitSum, digitSum, not_ne_iff.mp ha, not_ne_iff.mp hb, mul_zero, zero_add, zero_add]
        exact digitSum_geTop ra rb n

/-- **`ge_double_scalarmult_vartime` sums two multiples.** -/
theorem geDoubleScalarmultVartime_spec {A : Point curve} {p : GeP3} {a b : Vector byte 32}
    (hp : p.Is A) (ha : leVal a < 2 ^ 255) (hb : leVal b < 2 ^ 255) :
    ∃ s, geDoubleScalarmultVartime a p b = some s ∧ s.Is (leVal a • A + leVal b • base) := by
  obtain ⟨ra, hra, hwa, hsa⟩ := slide_spec ha
  obtain ⟨rb, hrb, hwb, hsb⟩ := slide_spec hb
  obtain ⟨q, h1, hq⟩ := geP3ToCached_spec hp
  obtain ⟨t, h2, ht⟩ := geP3Dbl_spec hp
  obtain ⟨A2, h3, hA2⟩ := geP1p1ToP3_spec ht
  obtain ⟨Ai, h4, hAi⟩ := geOddMultiples_spec hA2 7 hq
  have hodd : OddMultiples GeCached.Is Ai A := fun k hk => by
    obtain ⟨e, he, heP⟩ := hAi k (by omega)
    refine ⟨e, he, ?_⟩
    rwa [add_smul, one_smul, add_comm]
  obtain ⟨s, h5, hs⟩ := geLoop_spec hodd geBi_odd hwa hwb (geTop ra rb 256) geP20_is
  obtain ⟨hta, htb⟩ := digitSum_geTop ra rb 256
  rw [smul_zero, zero_add, hta, htb, hsa, hsb, natCast_zsmul, natCast_zsmul] at hs
  refine ⟨s, ?_, hs⟩
  simp only [geDoubleScalarmultVartime, hra, hrb, h1, h2, h3, h4, h5, Option.bind_eq_bind,
    Option.bind_some]

/-- **The sum of two multiples.** For every point `A` and numbers `a` and `b` of at most 255 bits
`slide` makes digits that are zero or odd, at most 15, and stand for the number; the table holds the
odd multiples of the base point `B`; and `ge_double_scalarmult_vartime` runs without an overflow and
within its tables, and gives `a A + b B`. -/
theorem ge_multiples {A : Point curve} {p : GeP3} {a b : Vector byte 32} (hp : p.Is A)
    (ha : leVal a < 2 ^ 255) (hb : leVal b < 2 ^ 255) :
    (∃ r, slide a = some r ∧ Windows r ∧ digitSum r 256 = leVal a) ∧
      (∃ r, slide b = some r ∧ Windows r ∧ digitSum r 256 = leVal b) ∧
      OddMultiples GePrecomp.Is geBi.toList base ∧
      ∃ s, geDoubleScalarmultVartime a p b = some s ∧ s.Is (leVal a • A + leVal b • base) :=
  ⟨slide_spec ha, slide_spec hb, geBi_odd, geDoubleScalarmultVartime_spec hp ha hb⟩

theorem ge_multiples_base :
    (∃ r, slide (Vector.replicate 32 7) = some r ∧ Windows r ∧
        digitSum r 256 = leVal (Vector.replicate 32 7)) ∧
      (∃ r, slide (Vector.replicate 32 29) = some r ∧ Windows r ∧
        digitSum r 256 = leVal (Vector.replicate 32 29)) ∧
      OddMultiples GePrecomp.Is geBi.toList base ∧
      ∃ s, geDoubleScalarmultVartime (Vector.replicate 32 7) geBaseScaled (Vector.replicate 32 29)
          = some s ∧
        s.Is (leVal (Vector.replicate 32 7) • base + leVal (Vector.replicate 32 29) • base) :=
  ge_multiples geBaseScaled_is (by decide) (by decide)

end Ntfw
