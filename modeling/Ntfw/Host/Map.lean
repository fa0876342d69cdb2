import Ntfw.Host.Authorisation

set_option autoImplicit false

/-! # The host table is a partial map

Three facts together make the table a map from addresses to slots: a bucket holds a non-zero
address at most once (`HtBucket.Unique`), an address is stored in its own bucket only
(`AtHome`), and a lookup finds what is stored. The first two are kept by every step of every
CPU; a race of two CPUs for one address is settled by the probe each makes under the lock. -/

namespace Ntfw

/-! ## Addresses stay in their own bucket -/

/-- Every address the bucket `i` holds is one that `host_fetch_bucket` sends to it. -/
def AtHome (i : Fin HTBL_SIZE) (htb : HtBucket) : Prop :=
  ∀ k, htb.saddr k ≠ 0 → hostFetchBucket (htb.saddr k) = i

theorem Placed.atHome {i : Fin HTBL_SIZE} {htb htb' : HtBucket} {tsec : u16} {a : be32} {p : Nat}
    {r : Option Slot} (h : Placed htb tsec a p r htb') (ha : hostFetchBucket a = i)
    (hhome : AtHome i htb) : AtHome i htb' := by
  cases h with
  | found hk hs hp he =>
      rw [AtHome, hs]
      exact hhome
  | full hk hal hsame =>
      rw [AtHome, hsame.saddr]
      exact hhome
  | @entered _ k hk hal hs hp he =>
      intro j hj
      rw [hs] at hj ⊢
      by_cases hjk : j = k
      · rw [hjk, Function.update_self]
        exact ha
      · rw [Function.update_of_ne hjk] at hj ⊢
        exact hhome j hj

theorem Swept.atHome {i : Fin HTBL_SIZE} {htb htb' : HtBucket} (h : Swept htb htb')
    (hhome : AtHome i htb) : AtHome i htb' := by
  intro k hk
  rw [h.saddr] at hk ⊢
  by_cases h3 : htb.pri k = 3
  · rw [if_pos h3] at hk
    exact absurd rfl hk
  · rw [if_neg h3] at hk ⊢
    exact hhome k hk

theorem BucketStep.atHome {i : Fin HTBL_SIZE} {htb htb' : HtBucket} {op : HostOp}
    {r : Option Slot} (h : BucketStep i htb op r htb') (hhome : AtHome i htb) :
    AtHome i htb' := by
  cases h with
  | other => exact hhome
  | deferred => exact hhome
  | inserted hi hlock hplaced => exact hplaced.atHome hi hhome
  | authorized hi hplaced => exact hplaced.atHome hi hhome
  | swept hswept => exact hswept.atHome hhome

/-! ## The invariant -/

/-- The invariant: every bucket holds its own addresses only, each at most once. -/
structure TableMap (gs : Gs) : Prop where
  unique : ∀ i, (gs.host_tbl i).Unique
  home : ∀ i, AtHome i (gs.host_tbl i)

theorem tableMap_zero {gs : Gs} (h : gs.host_tbl = fun _ => HtBucket.zero) : TableMap gs := by
  have hz : ∀ i k, (gs.host_tbl i).saddr k = 0 := by
    intro i k
    rw [h]
    rfl
  refine ⟨fun i j k _ h0 => absurd (hz i j) h0, fun i k h0 => absurd (hz i k) h0⟩

/-- **Step lemma**: any call of any CPU keeps the invariant. -/
theorem tableMap_step {gs gs' : Gs} {op : HostOp} {r : Option Slot} (hmap : TableMap gs)
    (h : hostStep gs op = .ok (r, gs')) : TableMap gs' := by
  refine ⟨fun i => ?_, fun i => ?_⟩
  · exact (hostStep_bucket h i).unique (hmap.unique i)
  · exact (hostStep_bucket h i).atHome (hmap.home i)

theorem tableMap_run {gs₀ gs : Gs} {ops : List HostOp} (h0 : TableMap gs₀)
    (hrun : Transition.run hostStep gs₀ ops = .ok gs) : TableMap gs :=
  Transition.run_invariant (I := TableMap) (fun _ _ _ _ hI hstep => tableMap_step hI hstep) h0 hrun

/-! ## What the invariant says about lookups -/

/-- A stored address is in its own bucket. -/
theorem TableMap.bucket_eq {gs : Gs} (h : TableMap gs) {a : be32} (ha : a ≠ 0)
    {i : Fin HTBL_SIZE} {k : Slot} (hk : (gs.host_tbl i).saddr k = a) :
    i = hostFetchBucket a := by
  have hhome := h.home i k (hk ▸ ha)
  rw [hk] at hhome
  exact hhome.symm

/-- A lookup finds exactly the slot that holds the address. -/
theorem TableMap.hostLookup_eq_some {gs : Gs} (h : TableMap gs) {a : be32} (ha : a ≠ 0)
    {i : Fin HTBL_SIZE} {k : Slot} (hk : (gs.host_tbl i).saddr k = a) :
    hostLookup (gs.host_tbl (hostFetchBucket a)) a = some k := by
  -- The lookup looks into the bucket that has it, and there no other slot does.
  have hi := h.bucket_eq ha hk
  subst hi
  apply probeBucket_eq_some_of_unique hk
  intro j hj
  exact h.unique _ j k (hj.trans hk.symm) (fun h0 => ha (hj.symm.trans h0))

/-- A lookup fails exactly when no slot of the table holds the address. -/
theorem TableMap.hostLookup_eq_none {gs : Gs} (h : TableMap gs) {a : be32} (ha : a ≠ 0) :
    hostLookup (gs.host_tbl (hostFetchBucket a)) a = none
      ↔ ∀ i k, (gs.host_tbl i).saddr k ≠ a := by
  rw [hostLookup, probeBucket_eq_none]
  constructor
  · intro habs i k hk
    have hi := h.bucket_eq ha hk
    subst hi
    exact habs k hk
  · intro habs k
    exact habs _ k

/-- **The host table is a partial map.** After every run of calls from a zeroed table, a
non-zero address is in at most one slot of the whole table, that slot is in the bucket
`host_fetch_bucket` names, and `host_lookup` there returns that slot, or none if no slot holds
the address. -/
theorem hostTable_partialMap {gs₀ gs : Gs} {ops : List HostOp}
    (h0 : gs₀.host_tbl = fun _ => HtBucket.zero)
    (hrun : Transition.run hostStep gs₀ ops = .ok gs) (a : be32) (ha : a ≠ 0) :
    (∀ i j k l, (gs.host_tbl i).saddr k = a → (gs.host_tbl j).saddr l = a → i = j ∧ k = l)
    ∧ (∀ i k, (gs.host_tbl i).saddr k = a →
        i = hostFetchBucket a ∧ hostLookup (gs.host_tbl (hostFetchBucket a)) a = some k)
    ∧ ((∀ i k, (gs.host_tbl i).saddr k ≠ a) →
        hostLookup (gs.host_tbl (hostFetchBucket a)) a = none) := by
  have hmap : TableMap gs := tableMap_run (tableMap_zero h0) hrun
  refine ⟨?_, ?_, (hmap.hostLookup_eq_none ha).mpr⟩
  · intro i j k l hk hl
    have hsome := hmap.hostLookup_eq_some ha hk
    rw [hmap.hostLookup_eq_some ha hl] at hsome
    exact ⟨(hmap.bucket_eq ha hk).trans (hmap.bucket_eq ha hl).symm, (Option.some.inj hsome).symm⟩
  · intro i k hk
    exact ⟨hmap.bucket_eq ha hk, hmap.hostLookup_eq_some ha hk⟩

/-- The map after a sweep and a race of two CPUs for one host. -/
theorem hostTable_partialMap_race :
    ∃ gs, Transition.run hostStep Gs.zero
        [.clearStatic, .insertAuthorized ⟨0, false, 0⟩ 5 ⟨1, by decide⟩,
          .insertAuthorized ⟨1, true, 0⟩ 5 ⟨2, by decide⟩] = .ok gs
      ∧ (∀ i j k l, (gs.host_tbl i).saddr k = 5 → (gs.host_tbl j).saddr l = 5 → i = j ∧ k = l)
      ∧ (∀ i k, (gs.host_tbl i).saddr k = 5 →
          i = hostFetchBucket 5 ∧ hostLookup (gs.host_tbl (hostFetchBucket 5)) 5 = some k)
      ∧ ((∀ i k, (gs.host_tbl i).saddr k ≠ 5) →
          hostLookup (gs.host_tbl (hostFetchBucket 5)) 5 = none) := by
  refine ⟨_, rfl, ?_⟩
  exact @hostTable_partialMap Gs.zero _
    [.clearStatic, .insertAuthorized ⟨0, false, 0⟩ 5 ⟨1, by decide⟩,
      .insertAuthorized ⟨1, true, 0⟩ 5 ⟨2, by decide⟩]
    rfl rfl 5 (by decide)

end Ntfw
