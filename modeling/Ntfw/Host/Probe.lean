import Ntfw.Ntfe.Host

set_option autoImplicit false

/-! # Probing a bucket

`probeBucket` counts trailing zeros of a byte mask. Its two characterisations here,
`probeBucket_eq_some` and `probeBucket_eq_none`, are what every later proof uses. The two
compiled forms of the function come to the same index. -/

namespace Ntfw

/-! ## The byte mask -/

theorem getLsbD_lane (k : Slot) (i : Nat) (hi : i < 32) :
    ((0xF : u32) <<< (4 * k.val)).getLsbD i = decide (i / 4 = k.val) := by
  have h15 : (15 : Nat) = 2 ^ 4 - 1 := by decide
  have hF : ∀ j, (0xF : u32).getLsbD j = (decide (j < 32) && decide (j < 4)) := by
    intro j
    show (BitVec.ofNat 32 15).getLsbD j = _
    rw [BitVec.getLsbD_ofNat, h15, Nat.testBit_two_pow_sub_one]
  rw [BitVec.getLsbD_shiftLeft, hF]
  by_cases h : i / 4 = k.val
  · have h1 : ¬ i < 4 * k.val := by omega
    have h2 : i - 4 * k.val < 32 := by omega
    have h3 : i - 4 * k.val < 4 := by omega
    simp [hi, h, h1, h2, h3]
  · by_cases h1 : i < 4 * k.val
    · simp [h, h1]
    · have h3 : ¬ i - 4 * k.val < 4 := by omega
      simp [h, h3]

/-- Bit `i` of the mask is set exactly when lane `i / 4` holds the key. -/
theorem getLsbD_cmpeqMask (lanes : Slot → be32) (key : be32) (i : Nat) (hi : i < 32) :
    (cmpeqMask lanes key).getLsbD i = true ↔ ∃ k : Slot, lanes k = key ∧ i / 4 = k.val := by
  -- The fold over any list of lanes, for the mask collected so far.
  have key_fold : ∀ (ks : List Slot) (m : u32),
      (ks.foldl (fun m k => if lanes k = key then m ||| ((0xF : u32) <<< (4 * k.val)) else m)
        m).getLsbD i = true
        ↔ m.getLsbD i = true ∨ ∃ k ∈ ks, lanes k = key ∧ i / 4 = k.val := by
    intro ks
    induction ks with
    | nil => intro m; simp
    | cons k ks ih =>
        intro m
        rw [List.foldl_cons, ih]
        by_cases hk : lanes k = key
        · rw [if_pos hk, BitVec.getLsbD_or, getLsbD_lane k i hi]
          simp [hk, or_assoc]
        · simp [hk]
  rw [cmpeqMask, key_fold]
  simp

/-- The mask marks the lanes that hold the key, with four bits each. -/
theorem marks_cmpeqMask (lanes : Slot → be32) (key : be32) :
    Lanes.Marks 4 (fun k => lanes k = key) (cmpeqMask lanes key) := by
  intro i
  by_cases hi : i < 32
  · exact getLsbD_cmpeqMask lanes key i hi
  · rw [BitVec.getLsbD_of_ge _ i (Nat.le_of_not_lt hi)]
    refine iff_of_false Bool.false_ne_true ?_
    rintro ⟨k, -, hik⟩
    have hk : k.val < 8 := k.isLt
    omega

/-! ## The index -/

/-- The first slot of the bucket that holds the key. -/
def IsFirst (htb : HtBucket) (saddr : be32) (k : Slot) : Prop :=
  htb.saddr k = saddr ∧ ∀ j < k, htb.saddr j ≠ saddr

theorem IsFirst.unique {htb : HtBucket} {saddr : be32} {k l : Slot}
    (hk : IsFirst htb saddr k) (hl : IsFirst htb saddr l) : k = l := by
  rcases lt_trichotomy k l with h | h | h
  · exact absurd hk.1 (hl.2 k h)
  · exact h
  · exact absurd hl.1 (hk.2 l h)

/-- If the first slot is the last one of the bucket, it is the only one. -/
theorem IsFirst.ne_of_seven {htb : HtBucket} {saddr : be32} (h : IsFirst htb saddr 7) {j : Slot}
    (hj : j ≠ 7) : htb.saddr j ≠ saddr := by
  apply h.2 j
  have h1 : j.val ≠ 7 := fun hc => hj (Fin.ext hc)
  have h2 : j.val < 8 := j.isLt
  exact Fin.lt_def.mpr (show j.val < 7 by omega)

/-- The index that the trailing zeros of the mask lead to is where a scan ends. -/
theorem probeBucket_eq_find (htb : HtBucket) (saddr : be32) :
    probeBucket htb saddr = Fin.find? fun k => decide (htb.saddr k = saddr) := by
  rw [probeBucket]
  rcases (marks_cmpeqMask htb.saddr saddr).find (by decide) with ⟨h0, hnone⟩ | ⟨h0, k, hsome, hctz⟩
  · rw [if_pos h0, hnone]
  · have hk : k.val < 8 := k.isLt
    rw [if_neg h0, hsome]
    refine congrArg some (Fin.ext ?_)
    show (cmpeqMask htb.saddr saddr).ctz.toNat >>> 2 % 8 = k.val
    rw [Nat.shiftRight_eq_div_pow, ← hctz]
    omega

@[simp] theorem probeBucket_eq_none (htb : HtBucket) (saddr : be32) :
    probeBucket htb saddr = none ↔ ∀ k, htb.saddr k ≠ saddr := by
  rw [probeBucket_eq_find, Fin.find?_eq_none_iff]
  exact forall_congr' fun k => decide_eq_false_iff_not

/-- **Probing finds the first slot that holds the key.** -/
theorem probeBucket_eq_some (htb : HtBucket) (saddr : be32) (k : Slot) :
    probeBucket htb saddr = some k ↔ IsFirst htb saddr k := by
  rw [probeBucket_eq_find, Fin.find?_eq_some_iff, IsFirst, decide_eq_true_iff]
  exact and_congr_right' (forall₂_congr fun j _ => decide_eq_false_iff_not)

theorem probeBucket_isFirst {htb : HtBucket} {saddr : be32} {k : Slot}
    (h : probeBucket htb saddr = some k) : IsFirst htb saddr k :=
  (probeBucket_eq_some htb saddr k).mp h

/-- The index depends on the addresses only. -/
theorem probeBucket_congr {htb htb' : HtBucket} (h : htb'.saddr = htb.saddr) (saddr : be32) :
    probeBucket htb' saddr = probeBucket htb saddr := by
  rw [probeBucket, probeBucket, h]

/-- With at most one slot for the key, any slot that holds it is the one found. -/
theorem probeBucket_eq_some_of_unique {htb : HtBucket} {saddr : be32} {k : Slot}
    (hk : htb.saddr k = saddr) (huniq : ∀ j, htb.saddr j = saddr → j = k) :
    probeBucket htb saddr = some k := by
  rw [probeBucket_eq_some]
  refine ⟨hk, ?_⟩
  intro j hj hja
  exact absurd (huniq j hja) (ne_of_lt hj)

/-! ## The compiled forms -/

/-- The scan the vector code stands for: the lowest index that holds the key, or -1. -/
def linearScan (htb : HtBucket) (saddr : be32) : s8 :=
  (Fin.find? fun k => htb.saddr k = saddr).elim (-1) fun k => BitVec.ofNat 8 k.val

/-- A mask of the slots that hold the key comes to the index that the scan finds. -/
theorem maskIndex_eq {htb : HtBucket} {saddr : be32} {idx : u32}
    (h : Lanes.Marks 4 (fun k => htb.saddr k = saddr) idx) :
    maskIndex idx = linearScan htb saddr := by
  unfold maskIndex linearScan
  rcases h.find (by decide) with ⟨h0, hnone⟩ | ⟨h0, k, hsome, hctz⟩
  · rw [hnone, if_neg (not_not.mpr h0)]
    rfl
  · rw [hsome, if_pos h0]
    apply BitVec.eq_of_toNat_eq
    show (idx.ctz >>> 2).toNat % 2 ^ 8 = k.val % 2 ^ 8
    rw [BitVec.toNat_ushiftRight, Nat.shiftRight_eq_div_pow]
    exact congrArg (· % 2 ^ 8) hctz

/-- A register is compared with the key in every lane. -/
theorem marks_movemaskEpi8 {n : Nat} (hn : n * 4 ≤ 32) (v : BitVec (n * 32)) (saddr : be32) :
    Lanes.Marks 4 (fun k => Lanes.lane v k = saddr)
      (movemaskEpi8 (cmpeqEpi32 v (set1Epi32 n saddr))) := by
  have h := Lanes.marks_movemask_cmpeq (c := 4) (by decide) hn v (set1Epi32 n saddr)
  refine h.congr fun k => ?_
  rw [set1Epi32, Lanes.lane_pack]

theorem lane_load (htb : HtBucket) (k : Slot) : Lanes.lane htb.load k = htb.saddr k :=
  Lanes.lane_pack htb.saddr k

/-- The four lanes of a half are four slots in a row. -/
theorem lane_loadHalf (htb : HtBucket) {i : Nat} (hi : i < 2) (k : Fin 4) {l : Slot}
    (hl : l.val = i * 4 + k.val) : Lanes.lane (htb.loadHalf i) k = htb.saddr l := by
  have h := Lanes.lane_extractLsb' (n := 8) (w := 32) htb.load (i * 4) k (by omega)
  rw [Nat.mul_assoc] at h
  refine (h.trans (lane_load htb _)).trans (congrArg htb.saddr (Fin.ext ?_))
  exact hl.symm

theorem marks_avx2 (htb : HtBucket) (saddr : be32) :
    Lanes.Marks 4 (fun k : Slot => htb.saddr k = saddr)
      (movemaskEpi8 (cmpeqEpi32 htb.load (set1Epi32 8 saddr))) :=
  (marks_movemaskEpi8 (by decide) htb.load saddr).congr fun k => Eq.congr_left (lane_load htb k)

/-- The mask of the high half goes behind the sixteen bits of the low half. -/
theorem marks_avx (htb : HtBucket) (saddr : be32) :
    Lanes.Marks 4 (fun k : Slot => htb.saddr k = saddr)
      (movemaskEpi8 (cmpeqEpi32 (htb.loadHalf 0) (set1Epi32 4 saddr))
        ||| (movemaskEpi8 (cmpeqEpi32 (htb.loadHalf 1) (set1Epi32 4 saddr)) <<< 16)) := by
  have hlow := marks_movemaskEpi8 (by decide) (htb.loadHalf 0) saddr
  have hhigh := marks_movemaskEpi8 (by decide) (htb.loadHalf 1) saddr
  refine Lanes.Marks.append (a := 4) (b := 4) (hlow.congr fun k => ?_) (hhigh.congr fun k => ?_)
    (by decide) (by decide)
  · exact Eq.congr_left (lane_loadHalf htb (by decide) k (Nat.zero_add k.val).symm)
  · exact Eq.congr_left (lane_loadHalf htb (by decide) k rfl)

/-- The scan is `probeBucket`, with the index as the code returns it. -/
theorem linearScan_eq_probeBucket (htb : HtBucket) (saddr : be32) :
    linearScan htb saddr
      = (probeBucket htb saddr).elim (-1) fun k => BitVec.ofNat 8 k.val := by
  rw [linearScan, probeBucket_eq_find]

/-- The scan either finds the first slot that holds the key, or there is none. -/
theorem linearScan_cases (htb : HtBucket) (saddr : be32) :
    (∃ k, IsFirst htb saddr k ∧ (linearScan htb saddr).toInt = k.val)
    ∨ ((∀ k, htb.saddr k ≠ saddr) ∧ (linearScan htb saddr).toInt = -1) := by
  have hvalue : ∀ k : Slot, (BitVec.ofNat 8 k.val).toInt = k.val := by decide
  rw [linearScan_eq_probeBucket]
  cases hp : probeBucket htb saddr with
  | none => exact Or.inr ⟨(probeBucket_eq_none htb saddr).mp hp, rfl⟩
  | some k => exact Or.inl ⟨k, probeBucket_isFirst hp, hvalue k⟩

/-- **Vector probing is a linear scan**, in both compiled forms: they return the lowest index
that holds the key, or -1 if there is none. -/
theorem probeBucket_linear (htb : HtBucket) (saddr : be32) :
    probeBucketAvx2 htb saddr = linearScan htb saddr
    ∧ probeBucketAvx htb saddr = linearScan htb saddr
    ∧ (∀ k : Slot, (linearScan htb saddr).toInt = k.val ↔ IsFirst htb saddr k)
    ∧ ((linearScan htb saddr).toInt = -1 ↔ ∀ k, htb.saddr k ≠ saddr) := by
  refine ⟨maskIndex_eq (marks_avx2 htb saddr), maskIndex_eq (marks_avx htb saddr), ?_⟩
  rcases linearScan_cases htb saddr with ⟨l, hl, hvalue⟩ | ⟨hnone, hvalue⟩
  · rw [hvalue]
    refine ⟨fun k => ⟨fun h => ?_, fun hk => ?_⟩, ?_⟩
    · have hlk : l = k := Fin.ext (Int.ofNat.inj h)
      exact hlk ▸ hl
    · rw [hl.unique hk]
    · exact iff_of_false (by omega) fun h => h l hl.1
  · rw [hvalue]
    exact ⟨fun k => iff_of_false (by omega) fun hk => hnone k hk.1, iff_of_true rfl hnone⟩

end Ntfw
