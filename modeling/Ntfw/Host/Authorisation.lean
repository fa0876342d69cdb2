import Ntfw.Host.Ops
import Ntfw.Lib.PriorityMap

set_option autoImplicit false

/-! # The host table refines an authorisation map

The table's purpose is to remember which hosts are authorised and how. Its abstract model is
a `PriorityMap` from non-zero addresses, watched over a run: grants are the authorised
insertions that return a slot, the sweep of a restart revokes the static class, and nothing
else changes the map. The refinement rests on one invariant of a bucket, that it holds a
non-zero address at most once. -/

namespace Ntfw

/-! ## Buckets as partial maps -/

/-- A non-zero address is in at most one slot. -/
def HtBucket.Unique (htb : HtBucket) : Prop :=
  ∀ j k, htb.saddr j = htb.saddr k → htb.saddr j ≠ 0 → j = k

/-- The priority with which a bucket holds an address; `0` if it does not. -/
def HtBucket.priOf (htb : HtBucket) (a : be32) : Nat :=
  match probeBucket htb a with
  | none => 0
  | some k => htb.pri k

theorem priOf_of_mem {htb : HtBucket} (hu : htb.Unique) {k : Slot} (h0 : htb.saddr k ≠ 0) :
    htb.priOf (htb.saddr k) = htb.pri k := by
  have hp : probeBucket htb (htb.saddr k) = some k :=
    probeBucket_eq_some_of_unique rfl (fun j hj => hu j k hj (hj ▸ h0))
  simp [HtBucket.priOf, hp]

theorem priOf_of_not_mem {htb : HtBucket} {a : be32} (h : ∀ k, htb.saddr k ≠ a) :
    htb.priOf a = 0 := by
  simp [HtBucket.priOf, (probeBucket_eq_none htb a).mpr h]

theorem priOf_congr {htb htb' : HtBucket} (h : SameEntries htb htb') (a : be32) :
    htb'.priOf a = htb.priOf a := by
  simp only [HtBucket.priOf, probeBucket_congr h.saddr, h.pri]

/-- An allocated slot holds no authorised host: it is free, or its entry has no priority. -/
theorem allocSlot_saddr_or_pri {htb : HtBucket} {tsec : u16} {k : Slot}
    (h : allocSlot htb tsec = some k) : htb.saddr k = 0 ∨ htb.pri k = 0 := by
  cases he : htb.exhausted with
  | false =>
      rw [allocSlot_of_not_exhausted he] at h
      exact Or.inl (probeBucket_isFirst h).1
  | true => exact Or.inr (pri_of_allocSlot he h)

theorem Written.unique {htb htb' : HtBucket} {k : Slot} {a : be32} {p : Nat}
    (h : Written htb htb' k a p) (hu : htb.Unique) (habs : ∀ j, htb.saddr j ≠ a) :
    htb'.Unique := by
  intro i j hij h0
  by_cases hi : i = k
  · by_cases hj : j = k
    · rw [hi, hj]
    · -- The address was not in the bucket, so it is not in another slot.
      rw [hi, h.saddr, h.saddr_of_ne j hj] at hij
      exact absurd hij.symm (habs j)
  · rw [h.saddr_of_ne i hi] at hij h0
    by_cases hj : j = k
    · rw [hj, h.saddr] at hij
      exact absurd hij (habs i)
    · rw [h.saddr_of_ne j hj] at hij
      exact hu i j hij h0

theorem Placed.unique {htb htb' : HtBucket} {tsec : u16} {a : be32} {p : Nat} {r : Option Slot}
    (h : Placed htb tsec a p r htb') (hu : htb.Unique) : htb'.Unique := by
  cases h with
  | found hk hs hp he =>
      rw [HtBucket.Unique, hs]
      exact hu
  | full hk ha hsame =>
      rw [HtBucket.Unique, hsame.saddr]
      exact hu
  | entered hk ha hs hp he =>
      exact (Written.of_update hs hp).unique hu ((probeBucket_eq_none htb a).mp hk)

/-- A new entry, seen by the map: whatever the slot held had no priority to lose. -/
theorem Written.priOf {htb htb' : HtBucket} {k : Slot} {a : be32} {p : Nat}
    (h : Written htb htb' k a p) (hu : htb.Unique) (habs : ∀ j, htb.saddr j ≠ a)
    (hold : htb.saddr k = 0 ∨ htb.pri k = 0) {x : be32} (hx : x ≠ 0) :
    htb'.priOf x = if x = a then p else htb.priOf x := by
  have hu' : htb'.Unique := h.unique hu habs
  -- The new address, an address that was stored, and one that was not.
  by_cases hxa : x = a
  · subst hxa
    have hself := priOf_of_mem hu' (k := k) (by rw [h.saddr]; exact hx)
    rw [h.saddr, h.pri] at hself
    rw [if_pos rfl, hself]
  · rw [if_neg hxa]
    by_cases hmem : ∃ j, htb.saddr j = x
    · obtain ⟨j, hj⟩ := hmem
      have hj0 : htb.saddr j ≠ 0 := hj ▸ hx
      by_cases hjk : j = k
      · -- `x` was evicted: it is not there any more, and was not authorised before.
        subst hjk
        have hgone : ∀ i, htb'.saddr i ≠ x := by
          intro i hi
          by_cases hij : i = j
          · rw [hij, h.saddr] at hi
            exact hxa hi.symm
          · rw [h.saddr_of_ne i hij] at hi
            exact hij (hu i j (hi.trans hj.symm) (hi ▸ hx))
        calc htb'.priOf x = 0 := priOf_of_not_mem hgone
          _ = htb.pri j := (hold.resolve_left hj0).symm
          _ = htb.priOf x := by rw [← hj, priOf_of_mem hu hj0]
      · have hsj := h.saddr_of_ne j hjk
        have hj0' : htb'.saddr j ≠ 0 := by rwa [hsj]
        calc htb'.priOf x = htb'.pri j := by rw [← hj, ← hsj, priOf_of_mem hu' hj0']
          _ = htb.pri j := h.pri_of_ne j hjk
          _ = htb.priOf x := by rw [← hj, priOf_of_mem hu hj0]
    · -- `x` was in no slot, and only `a` has come in.
      rw [not_exists] at hmem
      rw [priOf_of_not_mem hmem]
      apply priOf_of_not_mem
      intro i hi
      by_cases hik : i = k
      · rw [hik, h.saddr] at hi
        exact hxa hi.symm
      · rw [h.saddr_of_ne i hik] at hi
        exact hmem i hi

/-- **An insertion seen by the map**: the address inserted goes to the maximum of its
priorities if a slot was returned; no other address moves. -/
theorem Placed.priOf {htb htb' : HtBucket} {tsec : u16} {a : be32} {p : Nat} {r : Option Slot}
    (h : Placed htb tsec a p r htb') (hu : htb.Unique) {x : be32} (hx : x ≠ 0) :
    htb'.priOf x = if r.isSome ∧ x = a then max (htb.priOf a) p else htb.priOf x := by
  cases h with
  | @found _ k hk hs hp he =>
      have hka : htb.saddr k = a := (probeBucket_isFirst hk).1
      by_cases hxa : x = a
      · subst hxa
        simp [HtBucket.priOf, probeBucket_congr hs, hk, hp]
      · -- Another address is found in another slot, whose priority stays.
        rw [if_neg (fun hc => hxa hc.2)]
        simp only [HtBucket.priOf, probeBucket_congr hs]
        cases hj : probeBucket htb x with
        | none => rfl
        | some j =>
            have hjk : j ≠ k := by
              rintro rfl
              exact hxa ((probeBucket_isFirst hj).1.symm.trans hka)
            simp [hp, hjk]
  | full hk ha hsame =>
      simp [priOf_congr hsame]
  | entered hk ha hs hp he =>
      -- The slot was free, or its host had no priority to lose.
      have habs := (probeBucket_eq_none htb a).mp hk
      rw [(Written.of_update hs hp).priOf hu habs (allocSlot_saddr_or_pri ha) hx,
        priOf_of_not_mem habs, Nat.max_eq_right (Nat.zero_le p)]
      simp

theorem Swept.unique {htb htb' : HtBucket} (h : Swept htb htb') (hu : htb.Unique) :
    htb'.Unique := by
  intro i j hij h0
  have hi : ¬ htb.pri i = 3 := fun hc => h0 (by rw [h.saddr, if_pos hc])
  have hj : ¬ htb.pri j = 3 := fun hc => h0 (by rw [hij, h.saddr, if_pos hc])
  rw [h.saddr, h.saddr, if_neg hi, if_neg hj] at hij
  rw [h.saddr, if_neg hi] at h0
  exact hu i j hij h0

/-- **The sweep seen by the map**: the static class goes, the others stay. -/
theorem Swept.priOf {htb htb' : HtBucket} (h : Swept htb htb') (hu : htb.Unique) {x : be32}
    (hx : x ≠ 0) : htb'.priOf x = if htb.priOf x = 3 then 0 else htb.priOf x := by
  have hu' : htb'.Unique := h.unique hu
  by_cases hmem : ∃ j, htb.saddr j = x
  · obtain ⟨j, hj⟩ := hmem
    have hj0 : htb.saddr j ≠ 0 := hj ▸ hx
    rw [← hj, priOf_of_mem hu hj0]
    by_cases h3 : htb.pri j = 3
    · -- Any slot that still held the address would be the one that was cleared.
      rw [if_pos h3]
      apply priOf_of_not_mem
      intro i hi
      rw [h.saddr] at hi
      by_cases hi3 : htb.pri i = 3
      · rw [if_pos hi3] at hi
        exact hj0 hi.symm
      · rw [if_neg hi3] at hi
        exact hi3 (hu i j hi (hi ▸ hj0) ▸ h3)
    · rw [if_neg h3]
      have hs : htb'.saddr j = htb.saddr j := by rw [h.saddr, if_neg h3]
      have hp := priOf_of_mem hu' (k := j) (by rw [hs]; exact hj0)
      rw [hs, h.pri] at hp
      exact hp
  · -- `x` was nowhere, and the sweep brings nobody in.
    rw [not_exists] at hmem
    rw [priOf_of_not_mem hmem, if_neg (by decide)]
    apply priOf_of_not_mem
    intro i hi
    rw [h.saddr] at hi
    split at hi
    · exact hx hi.symm
    · exact hmem i hi

/-! ## The abstract map -/

/-- The keys of the map: the addresses a host can have. -/
abbrev HostAddr := {a : be32 // a ≠ 0}

/-- The class of the hosts the configuration names. -/
def staticPriority : Priority := ⟨3, by decide⟩

/-- How the map follows the calls: by their answers, not by the table. -/
def authWatch (m : PriorityMap HostAddr Priority) (op : HostOp) (r : Option Slot) :
    PriorityMap HostAddr Priority :=
  match op with
  | .insertAuthorized _ a p =>
      if h : a ≠ 0 then (if r.isSome then m.grant ⟨a, h⟩ p else m) else m
  | .clearStatic => m.revoke staticPriority
  | _ => m

/-- The number a bucket holds for an abstract priority. -/
def priCode : WithBot Priority → Nat := WithBot.recBotCoe 0 Subtype.val

theorem priCode_eq_iff (m : WithBot Priority) (p : Priority) : priCode m = p.1 ↔ m = p := by
  cases m with
  | bot =>
      have := p.2.1
      simp [priCode]
      omega
  | coe q => simp [priCode, Subtype.ext_iff]

theorem priCode_sup (m : WithBot Priority) (p : Priority) :
    priCode (m ⊔ p) = max (priCode m) p.1 := by
  cases m with
  | bot => simp [priCode]
  | coe q =>
      rw [← WithBot.coe_sup]
      rcases le_total q p with h | h
      · have h' : q.1 ≤ p.1 := h
        simp [priCode, sup_eq_right.mpr h, max_eq_right h']
      · have h' : p.1 ≤ q.1 := h
        simp [priCode, sup_eq_left.mpr h, max_eq_left h']

/-- The simulation relation: every bucket is a partial map, and the table holds for every
address the priority the abstract map has for it. -/
structure Refines (gs : Gs) (m : PriorityMap HostAddr Priority) : Prop where
  unique : ∀ i, (gs.host_tbl i).Unique
  priOf : ∀ a : HostAddr, (gs.host_tbl (hostFetchBucket a.1)).priOf a.1 = priCode (m a)

theorem BucketStep.unique {i : Fin HTBL_SIZE} {htb htb' : HtBucket} {op : HostOp}
    {r : Option Slot} (h : BucketStep i htb op r htb') (hu : htb.Unique) : htb'.Unique := by
  cases h with
  | other => exact hu
  | deferred => exact hu
  | inserted hi hlock hplaced => exact hplaced.unique hu
  | authorized hi hplaced => exact hplaced.unique hu
  | swept hswept => exact hswept.unique hu

/-- One step of the table is one step of the map, address by address. -/
theorem BucketStep.priOf_watch {htb htb' : HtBucket} {op : HostOp} {r : Option Slot}
    {a : HostAddr} (h : BucketStep (hostFetchBucket a.1) htb op r htb') (hu : htb.Unique)
    {m : PriorityMap HostAddr Priority} (hm : htb.priOf a.1 = priCode (m a)) :
    htb'.priOf a.1 = priCode (authWatch m op r a) := by
  cases h with
  | other hop hclear =>
      cases op with
      | insert env b => exact hm
      | insertAuthorized env b p =>
          have hab : a.1 ≠ b := by
            rintro rfl
            exact hop a.1 (Or.inr ⟨env, p, rfl⟩) rfl
          simp only [authWatch]
          split
          · rename_i h0
            split
            · rw [PriorityMap.grant_of_ne (fun hc => hab (congrArg Subtype.val hc))]
              exact hm
            · exact hm
          · exact hm
      | clearStatic => exact absurd rfl hclear
      | prepare cpu hpc => exact hm
  | deferred hi hlock => exact hm
  | inserted hi hlock hplaced =>
      -- Priority 0 raises nothing, so the map does not move.
      rw [hplaced.priOf hu a.2]
      show _ = priCode (m a)
      rw [← hm]
      split
      · rename_i hc
        rw [hc.2, Nat.max_eq_left (Nat.zero_le _)]
      · rfl
  | @authorized env b p tsec _ _ hi hplaced =>
      rw [hplaced.priOf hu a.2]
      simp only [authWatch]
      by_cases hr : r.isSome
      · by_cases hab : a.1 = b
        · subst hab
          rw [if_pos ⟨hr, rfl⟩, dif_pos a.2, if_pos hr, PriorityMap.grant_self, priCode_sup, hm]
        · rw [if_neg (fun hc => hab hc.2)]
          split
          · rw [PriorityMap.grant_of_ne (fun hc => hab (congrArg Subtype.val hc))]
            exact hm
          · exact hm
      · rw [if_neg (fun hc => hr hc.1)]
        split <;> exact hm
  | swept hswept =>
      rw [hswept.priOf hu a.2, hm]
      have h3 : priCode (m a) = 3 ↔ m a = staticPriority := priCode_eq_iff (m a) staticPriority
      simp only [authWatch, PriorityMap.revoke, h3]
      split <;> rfl

theorem refines_step {sm tn : Gs × PriorityMap HostAddr Priority} {op : HostOp}
    {r : Option Slot} (hr : Refines sm.1 sm.2)
    (h : Transition.observe hostStep authWatch sm op = .ok (r, tn)) : Refines tn.1 tn.2 := by
  obtain ⟨hstep, hwatch⟩ := Transition.observe_ok.mp h
  refine ⟨?_, ?_⟩
  · intro i
    exact (hostStep_bucket hstep i).unique (hr.unique i)
  · intro a
    rw [hwatch]
    exact (hostStep_bucket hstep (hostFetchBucket a.1)).priOf_watch (hr.unique _) (hr.priOf a)

theorem refines_zero {gs : Gs} (h : gs.host_tbl = fun _ => HtBucket.zero) :
    Refines gs PriorityMap.empty := by
  have hp : ∀ i, (gs.host_tbl i).saddr = fun _ => 0 := by
    intro i
    rw [h]
    rfl
  refine ⟨?_, ?_⟩
  · intro i j k _ h0
    rw [hp] at h0
    exact absurd rfl h0
  · intro a
    rw [priOf_of_not_mem]
    · rfl
    · intro k
      rw [hp]
      exact a.2.symm

/-! ## The refinement -/

/-- `host_lookup` of the address finds a slot of that priority. -/
def FoundWith (gs : Gs) (a : HostAddr) (p : Priority) : Prop :=
  ∃ k, hostLookup (gs.host_tbl (hostFetchBucket a.1)) a.1 = some k
    ∧ ((gs.host_tbl (hostFetchBucket a.1)).ctrl k).pri.toNat = p.1

theorem foundWith_iff_priOf (gs : Gs) (a : HostAddr) (p : Priority) :
    FoundWith gs a p ↔ (gs.host_tbl (hostFetchBucket a.1)).priOf a.1 = p.1 := by
  have hp := p.2.1
  simp only [FoundWith, hostLookup, HtBucket.priOf]
  cases probeBucket (gs.host_tbl (hostFetchBucket a.1)) a.1 with
  | none =>
      constructor
      · rintro ⟨k, hk, -⟩
        cases hk
      · intro h
        simp only at h
        omega
  | some k =>
      constructor
      · rintro ⟨j, hj, hpri⟩
        cases hj
        exact hpri
      · intro h
        exact ⟨k, rfl, h⟩

theorem Refines.foundWith_iff {gs : Gs} {m : PriorityMap HostAddr Priority} (h : Refines gs m)
    (a : HostAddr) (p : Priority) : FoundWith gs a p ↔ m a = p := by
  calc FoundWith gs a p
      ↔ (gs.host_tbl (hostFetchBucket a.1)).priOf a.1 = p.1 := foundWith_iff_priOf gs a p
    _ ↔ priCode (m a) = p.1 := by rw [h.priOf]
    _ ↔ m a = p := priCode_eq_iff (m a) p

/-- **The host table refines the authorisation map.** After every run from a zeroed table, a
lookup finds an address with a priority exactly when the watched map sends it there; and an
unauthorised insertion, with whatever it evicts, changes no lookup of an authorised host. -/
theorem hostTable_refines_authMap {gs₀ gs : Gs} {ops : List HostOp}
    {m : PriorityMap HostAddr Priority} (h0 : gs₀.host_tbl = fun _ => HtBucket.zero)
    (hrun : Transition.run (Transition.observe hostStep authWatch) (gs₀, PriorityMap.empty) ops
      = .ok (gs, m)) :
    (∀ (a : HostAddr) (p : Priority), FoundWith gs a p ↔ m a = p)
    ∧ ∀ (env : Env) (b : be32) (r : Option Slot) (gs' : Gs),
        hostInsert env gs (hostFetchBucket b) b = .ok (r, gs') →
        ∀ (a : HostAddr) (p : Priority), FoundWith gs' a p ↔ FoundWith gs a p := by
  have href : Refines gs m :=
    Transition.run_invariant (I := fun sm => Refines sm.1 sm.2)
      (fun sm op r tn hI hstep => refines_step hI hstep) (refines_zero h0) hrun
  refine ⟨href.foundWith_iff, ?_⟩
  intro env b r gs' hins a p
  have hstep : Transition.observe hostStep authWatch (gs, m) (.insert env b) = .ok (r, gs', m) :=
    Transition.observe_ok.mpr ⟨hins, rfl⟩
  calc FoundWith gs' a p ↔ m a = p := (refines_step href hstep).foundWith_iff a p
    _ ↔ FoundWith gs a p := (href.foundWith_iff a p).symm

/-- The refinement at a run that authorises a host and then sweeps the table. -/
theorem hostTable_refines_authMap_grant_sweep :
    ∃ gs m, Transition.run (Transition.observe hostStep authWatch) (Gs.zero, PriorityMap.empty)
        [.insertAuthorized ⟨0, false, 0⟩ 5 ⟨1, by decide⟩, .clearStatic] = .ok (gs, m)
      ∧ ((∀ (a : HostAddr) (p : Priority), FoundWith gs a p ↔ m a = p)
        ∧ ∀ (env : Env) (b : be32) (r : Option Slot) (gs' : Gs),
          hostInsert env gs (hostFetchBucket b) b = .ok (r, gs') →
          ∀ (a : HostAddr) (p : Priority), FoundWith gs' a p ↔ FoundWith gs a p) := by
  refine ⟨_, _, rfl, ?_⟩
  exact @hostTable_refines_authMap Gs.zero _
    [.insertAuthorized ⟨0, false, 0⟩ 5 ⟨1, by decide⟩, .clearStatic] _ rfl rfl

end Ntfw
