import Ntfw.Host.Ops

set_option autoImplicit false

/-! # The exhausted flag

The flag is meant to say that a bucket has no free slot. The insertion that takes slot 7
raises it, which is right as long as free slots are taken in order and stay taken. Two kinds
of step break it: an insertion that takes the last free slot where that is another than
slot 7 (one the sweep freed), and the insertion of address 0, the mark of a free slot, into a
bucket that has none. `flagsExact_step` shows that nothing else does. -/

namespace Ntfw

/-! ## The property -/

/-- What the flag promises about a bucket, and what `allocate` makes of it. -/
structure ExhaustedExact (htb : HtBucket) : Prop where
  /-- The flag is up exactly when no slot is free. -/
  flag : htb.exhausted = true ↔ ∀ k, htb.saddr k ≠ 0
  /-- Allocation never fails for want of a free slot in a bucket that is not exhausted. -/
  alloc : htb.exhausted = false → ∀ (pool : Nat → HostState) (tsec : u16) (p : u32),
    (allocate htb pool tsec p).1 ≠ none
  /-- Allocation never evicts a live entry while there is a free slot. -/
  evict : ∀ (pool : Nat → HostState) (tsec : u16) (p : u32) (k : Slot),
    (allocate htb pool tsec p).1 = some k → htb.saddr k ≠ 0 → ∀ j, htb.saddr j ≠ 0

/-- The flag alone carries the rest. -/
theorem exhaustedExact_of_flag {htb : HtBucket}
    (h : htb.exhausted = true ↔ ∀ k, htb.saddr k ≠ 0) : ExhaustedExact htb := by
  refine ⟨h, ?_, ?_⟩
  · intro he pool tsec p hnone
    have hprobe : probeBucket htb 0 = none := by simpa [allocate, he] using hnone
    have := h.mpr ((probeBucket_eq_none htb 0).mp hprobe)
    rw [he] at this
    exact Bool.false_ne_true this
  · intro pool tsec p k hk hlive
    cases he : htb.exhausted with
    | true => exact h.mp he
    | false =>
        have hprobe : probeBucket htb 0 = some k := by simpa [allocate, he] using hk
        exact absurd (probeBucket_isFirst hprobe).1 hlive

theorem exhaustedExact_iff (htb : HtBucket) :
    ExhaustedExact htb ↔ (htb.exhausted = true ↔ ∀ k, htb.saddr k ≠ 0) :=
  ⟨fun h => h.flag, exhaustedExact_of_flag⟩

/-! ## The condition on an insertion -/

/-- The insertion of `a` leaves the flag right: the address is there already; or it is
address 0 and no entry can be evicted for it; or it is another address and, if the bucket has
exactly one free slot, that is slot 7. -/
def KeepsFlag (htb : HtBucket) (a : be32) : Prop :=
  (∃ k, htb.saddr k = a)
  ∨ (a = 0 ∧ ∀ k, htb.pri k ≠ 0)
  ∨ (a ≠ 0 ∧ ∀ k, htb.saddr k = 0 → (∀ j, htb.saddr j = 0 → j = k) → k = 7)

/-- In an exhausted bucket the entry evicted makes room for a live address, or for the mark
of a free slot. -/
theorem entered_exhausted_iff {htb htb' : HtBucket} {tsec : u16} {a : be32} {k : Slot}
    (hfull : ∀ j, htb.saddr j ≠ 0) (he : htb.exhausted = true) (habs : ∀ j, htb.saddr j ≠ a)
    (ha : allocSlot htb tsec = some k) (hs : htb'.saddr = Function.update htb.saddr k a)
    (he' : htb'.exhausted = (htb.exhausted || decide (k = 7))) :
    ExhaustedExact htb' ↔ KeepsFlag htb a := by
  have hk0 : htb.pri k = 0 := pri_of_allocSlot he ha
  rw [exhaustedExact_iff, he', he]
  by_cases ha0 : a = 0
  · subst ha0
    constructor
    · -- The mark of a free slot was stored while the flag is up.
      intro h
      have hk : htb'.saddr k ≠ 0 := h.mp rfl k
      rw [hs, Function.update_self] at hk
      exact absurd rfl hk
    · rintro (⟨j, hj⟩ | ⟨-, hpri⟩ | ⟨hne, -⟩)
      · exact absurd hj (habs j)
      · exact absurd hk0 (hpri k)
      · exact absurd rfl hne
  · -- The victim gives its slot to a live address, and the bucket stays full.
    have hlive : ∀ j, htb'.saddr j ≠ 0 := by
      intro j
      rw [hs]
      by_cases hj : j = k
      · rw [hj, Function.update_self]
        exact ha0
      · rw [Function.update_of_ne hj]
        exact hfull j
    refine iff_of_true (iff_of_true rfl hlive) (Or.inr (Or.inr ⟨ha0, ?_⟩))
    intro j hj _
    exact absurd hj (hfull j)

/-- In a bucket with free slots the first of them is taken; the flag is right afterwards
unless it was the only one and not slot 7. -/
theorem entered_free_iff {htb htb' : HtBucket} {a : be32} {k : Slot}
    (he : htb.exhausted = false) (habs : ∀ j, htb.saddr j ≠ a) (hk : IsFirst htb 0 k)
    (hs : htb'.saddr = Function.update htb.saddr k a)
    (he' : htb'.exhausted = (htb.exhausted || decide (k = 7))) :
    ExhaustedExact htb' ↔ KeepsFlag htb a := by
  have ha0 : a ≠ 0 := fun h => habs k (hk.1.trans h.symm)
  have hkeeps : KeepsFlag htb a
      ↔ ∀ j, htb.saddr j = 0 → (∀ i, htb.saddr i = 0 → i = j) → j = 7 := by
    constructor
    · rintro (⟨j, hj⟩ | ⟨h0, -⟩ | ⟨-, h⟩)
      · exact absurd hj (habs j)
      · exact absurd h0 ha0
      · exact h
    · intro h
      exact Or.inr (Or.inr ⟨ha0, h⟩)
  -- The bucket is full afterwards exactly if `k` was the only free slot.
  have hlive : (∀ j, htb'.saddr j ≠ 0) ↔ ∀ j, htb.saddr j = 0 → j = k := by
    rw [hs]
    constructor
    · intro h j hj
      by_contra hjk
      have := h j
      rw [Function.update_of_ne hjk] at this
      exact this hj
    · intro h j
      by_cases hj : j = k
      · rw [hj, Function.update_self]
        exact ha0
      · rw [Function.update_of_ne hj]
        exact fun h0 => hj (h j h0)
  rw [exhaustedExact_iff, he', he, hkeeps, hlive]
  by_cases h7 : k = 7
  · -- Slot 7 is the first free slot, so it is the only one.
    subst h7
    have honly : ∀ j, htb.saddr j = 0 → j = 7 := by
      intro j hj
      by_contra hj7
      exact hk.ne_of_seven hj7 hj
    exact iff_of_true (iff_of_true (by simp) honly) fun j hj _ => honly j hj
  · -- The flag stays down, which is right as long as another slot is free.
    constructor
    · intro h j hj honly
      have hjk : j = k := (honly k hk.1).symm
      subst hjk
      have := h.mpr honly
      simp [h7] at this
    · intro h
      refine iff_of_false (by simp [h7]) ?_
      intro honly
      exact h7 (h k hk.1 honly)

/-- **An insertion keeps the flag right exactly when it meets the condition.** -/
theorem Placed.exhaustedExact_iff {htb htb' : HtBucket} {tsec : u16} {a : be32} {p : Nat}
    {r : Option Slot} (h : Placed htb tsec a p r htb') (hex : ExhaustedExact htb) :
    ExhaustedExact htb' ↔ KeepsFlag htb a := by
  cases h with
  | @found _ k hk hs hp he =>
      refine iff_of_true ?_ (Or.inl ⟨k, (probeBucket_isFirst hk).1⟩)
      apply exhaustedExact_of_flag
      rw [he, hs]
      exact hex.flag
  | full hk ha hsame =>
      -- Only an exhausted bucket turns an address away: another one has a free slot.
      have hexh : htb.exhausted = true := by
        cases he : htb.exhausted with
        | true => rfl
        | false =>
            rw [allocSlot_of_not_exhausted he] at ha
            exact absurd (hex.flag.mpr ((probeBucket_eq_none htb 0).mp ha)) (by simp [he])
      refine iff_of_true ?_ ?_
      · apply exhaustedExact_of_flag
        rw [hsame.exhausted, hsame.saddr]
        exact hex.flag
      · by_cases ha0 : a = 0
        · exact Or.inr (Or.inl ⟨ha0, (allocSlot_eq_none_of_exhausted hexh tsec).mp ha⟩)
        · exact Or.inr (Or.inr ⟨ha0, fun j hj _ => absurd hj (hex.flag.mp hexh j)⟩)
  | @entered _ k hk ha hs hp he =>
      have habs := (probeBucket_eq_none htb a).mp hk
      cases hexh : htb.exhausted with
      | true => exact entered_exhausted_iff (hex.flag.mp hexh) hexh habs ha hs he
      | false =>
          rw [allocSlot_of_not_exhausted hexh] at ha
          exact entered_free_iff hexh habs (probeBucket_isFirst ha) hs he

/-- The sweep lowers the flag exactly where it frees a slot. -/
theorem Swept.exhaustedExact {htb htb' : HtBucket} (h : Swept htb htb')
    (hex : ExhaustedExact htb) : ExhaustedExact htb' := by
  apply exhaustedExact_of_flag
  rw [h.exhausted]
  by_cases hany : ∀ k, htb.pri k ≠ 3
  · have hs : ∀ k, htb'.saddr k = htb.saddr k := fun k => by rw [h.saddr, if_neg (hany k)]
    simp only [hs]
    rw [decide_eq_true hany, Bool.and_true]
    exact hex.flag
  · refine iff_of_false (by simp [hany]) ?_
    intro hlive
    apply hany
    intro k hk
    exact hlive k (by rw [h.saddr, if_pos hk])

/-! ## Runs of the table -/

/-- The property, of the whole table. -/
def FlagsExact (gs : Gs) : Prop := ∀ i, ExhaustedExact (gs.host_tbl i)

/-- The condition, of a step: an insertion that is not deferred keeps its bucket's flag. -/
def StepKeepsFlag (gs : Gs) : HostOp → Prop
  | .insert env a =>
      htbTestLock env (gs.host_tbl (hostFetchBucket a)) = true
        ∨ KeepsFlag (gs.host_tbl (hostFetchBucket a)) a
  | .insertAuthorized _ a _ => KeepsFlag (gs.host_tbl (hostFetchBucket a)) a
  | _ => True

/-- An insertion into a bucket decides about that bucket's flag only. -/
theorem flagsExact_iff_bucket {gs gs' : Gs} {b : Fin HTBL_SIZE} (hex : FlagsExact gs)
    (hother : ∀ i, i ≠ b → gs'.host_tbl i = gs.host_tbl i) :
    FlagsExact gs' ↔ ExhaustedExact (gs'.host_tbl b) := by
  refine ⟨fun hall => hall b, fun hone i => ?_⟩
  by_cases hi : i = b
  · exact hi ▸ hone
  · rw [hother i hi]
    exact hex i

/-- **A step keeps every flag exact exactly when it meets the condition.** -/
theorem flagsExact_step {gs gs' : Gs} {op : HostOp} {r : Option Slot} (hex : FlagsExact gs)
    (h : hostStep gs op = .ok (r, gs')) : FlagsExact gs' ↔ StepKeepsFlag gs op := by
  cases op with
  | insert env a =>
      obtain ⟨hframe, hcase⟩ := hostInsert_spec h
      rw [flagsExact_iff_bucket hex hframe.other]
      rcases hcase with ⟨hlock, -, hb⟩ | ⟨hlock, hplaced⟩
      · rw [hb]
        exact iff_of_true (hex _) (Or.inl hlock)
      · rw [hplaced.exhaustedExact_iff (hex _)]
        simp [StepKeepsFlag, hlock]
  | insertAuthorized env a p =>
      obtain ⟨hframe, hplaced⟩ := hostInsertAuthorized_ok p.word_le (Except.ok.inj h)
      rw [flagsExact_iff_bucket hex hframe.other]
      exact hplaced.exhaustedExact_iff (hex _)
  | clearStatic =>
      have heq : (none, hostClearStaticallyAuthorized gs) = (r, gs') := Except.ok.inj h
      obtain ⟨-, rfl⟩ := Prod.mk.inj heq
      exact iff_of_true (fun i => ((hostClear_spec gs).2 i).exhaustedExact (hex i)) trivial
  | prepare cpu hpc =>
      cases h
      exact iff_of_true hex trivial

theorem flagsExact_zero {gs : Gs} (h : gs.host_tbl = fun _ => HtBucket.zero) :
    FlagsExact gs := by
  intro i
  apply exhaustedExact_of_flag
  rw [h]
  refine iff_of_false ?_ (fun hall => hall 0 rfl)
  show ¬ HtBucket.zero.exhausted = true
  decide

/-! ## The exact condition -/

/-- **The flag is exact all along a run from the zeroed table exactly when every insertion of
the run keeps it.** -/
theorem exhausted_exact_iff_keepsFlag {gs₀ gs : Gs} {ops : List HostOp}
    (h0 : gs₀.host_tbl = fun _ => HtBucket.zero)
    (hrun : Transition.run hostStep gs₀ ops = .ok gs) :
    Transition.Always hostStep FlagsExact gs₀ ops
      ↔ Transition.Meets hostStep StepKeepsFlag gs₀ ops :=
  Transition.always_iff_meets (I := fun _ => True) (fun _ _ _ _ _ _ => trivial)
    (fun _ _ _ _ _ hex hstep => flagsExact_step hex hstep) trivial (flagsExact_zero h0) hrun

/-- An engine that has just been initialised. -/
def freshEngine : Gs := (ntfeInit Gs.zero 10000000 true).2

/-- The condition at a run that enters two hosts. -/
theorem exhausted_exact_iff_keepsFlag_two_hosts :
    ∃ gs, Transition.run hostStep freshEngine
        [.insert ⟨0, false, 0⟩ 0x6da78, .insertAuthorized ⟨1, true, 0⟩ 0x72ecc ⟨1, by decide⟩]
          = .ok gs
      ∧ (Transition.Always hostStep FlagsExact freshEngine
          [.insert ⟨0, false, 0⟩ 0x6da78, .insertAuthorized ⟨1, true, 0⟩ 0x72ecc ⟨1, by decide⟩]
        ↔ Transition.Meets hostStep StepKeepsFlag freshEngine
          [.insert ⟨0, false, 0⟩ 0x6da78,
            .insertAuthorized ⟨1, true, 0⟩ 0x72ecc ⟨1, by decide⟩]) := by
  refine ⟨_, rfl, ?_⟩
  exact @exhausted_exact_iff_keepsFlag freshEngine _
    [.insert ⟨0, false, 0⟩ 0x6da78, .insertAuthorized ⟨1, true, 0⟩ 0x72ecc ⟨1, by decide⟩] rfl rfl

/-- Nine insertions into one bucket: one unauthorised host, seven authorised ones that fill
it, and address 0, for which the unauthorised host is evicted. -/
def fillThenZero : List HostOp :=
  .insert ⟨0, false, 0⟩ 0x6da78 ::
    ([0x72ecc, 0xe5d98, 0xeb1ec, 0x15e0b8, 0x16350c, 0x1d63d8, 0x1db82c, 0].map
      fun a => .insertAuthorized ⟨0, false, 0⟩ a ⟨1, by decide⟩)

/-- The flag is not exact in every reachable state. -/
theorem exhausted_with_free_slot :
    ¬ ∀ (ops : List HostOp) (gs : Gs), Transition.run hostStep freshEngine ops = .ok gs →
      ∀ i, (gs.host_tbl i).exhausted = true ↔ ∀ k, (gs.host_tbl i).saddr k ≠ 0 := by
  intro hall
  let b := hostFetchBucket 0
  have hend : ∃ gs, Transition.run hostStep freshEngine fillThenZero = .ok gs
      ∧ (gs.host_tbl b).exhausted = true ∧ (gs.host_tbl b).saddr 0 = 0 := by
    have h : (Transition.run hostStep freshEngine fillThenZero).toOption.map
        (fun gs => ((gs.host_tbl b).exhausted, (gs.host_tbl b).saddr 0)) = some (true, 0) := by
      decide +kernel
    cases hr : Transition.run hostStep freshEngine fillThenZero with
    | error e => rw [hr] at h; cases h
    | ok gs =>
        rw [hr] at h
        have h' := Prod.mk.inj (Option.some.inj h)
        exact ⟨gs, rfl, h'.1, h'.2⟩
  obtain ⟨gs, hrun, hexh, hfree⟩ := hend
  exact (hall fillThenZero gs hrun b).mp hexh 0 hfree

end Ntfw
