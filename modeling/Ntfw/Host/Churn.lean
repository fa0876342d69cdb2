import Ntfw.Host.Pool

set_option autoImplicit false

/-! # Ownership of host state over runs

A run keeps every host's state its own exactly as long as its insertions meet `StepOwns`. A
run of fewer than 2^18 steps always does. That no bound holds for all runs is shown by churn:
one bucket and more addresses than it has slots, entered again and again. -/

namespace Ntfw

/-! ## The exact condition -/

theorem statesOwned_zero {gs : Gs} (h : gs.host_tbl = fun _ => HtBucket.zero) :
    StatesOwned gs := by
  have hdead : ∀ e, ¬ Unauthorised gs e := by
    rintro e ⟨hs, -⟩
    rw [h] at hs
    exact hs rfl
  exact ⟨fun e f he => absurd he (hdead e), fun e he => absurd he (hdead e)⟩

/-- **Every host owns its state all along a run from the zeroed table exactly when, at every
insertion of the run, the counter's next 18 bits are neither 0 nor taken.** -/
theorem statesOwned_iff_stepOwns {gs₀ gs : Gs} {ops : List HostOp}
    (h0 : gs₀.host_tbl = fun _ => HtBucket.zero)
    (hrun : Transition.run hostStep gs₀ ops = .ok gs) :
    Transition.Always hostStep StatesOwned gs₀ ops
      ↔ Transition.Meets hostStep StepOwns gs₀ ops :=
  Transition.always_iff_meets (I := fun _ => True) (fun _ _ _ _ _ _ => trivial)
    (fun _ _ _ _ _ hown hstep => statesOwned_step hown hstep) trivial (statesOwned_zero h0) hrun

/-- Two hosts in one bucket. -/
def twoHosts : List HostOp := [.insert ⟨0, false, 0⟩ 0x6da78, .insert ⟨1, false, 0⟩ 0x72ecc]

/-- The condition at a run that enters two hosts. -/
theorem statesOwned_iff_stepOwns_two_hosts : ∃ gs,
    Transition.run hostStep freshEngine twoHosts = .ok gs
      ∧ (Transition.Always hostStep StatesOwned freshEngine twoHosts
        ↔ Transition.Meets hostStep StepOwns freshEngine twoHosts) := by
  have hsome : (Transition.run hostStep freshEngine twoHosts).toOption.isSome = true := by
    decide +kernel
  cases hrun : Transition.run hostStep freshEngine twoHosts with
  | error e =>
      rw [hrun] at hsome
      cases hsome
  | ok gs => exact ⟨gs, rfl, statesOwned_iff_stepOwns rfl hrun⟩

/-! ## Short runs -/

/-- After at most `n` entries: the counter has not passed `n`, and no index the counter. -/
structure Counted (n : Nat) (gs : Gs) : Prop where
  size : gs.hp_size.toNat ≤ n
  index : ∀ e, Unauthorised gs e → poolIndex gs e ≤ gs.hp_size.toNat

theorem hp_size_succ {gs : Gs} {n : Nat} (hsize : gs.hp_size.toNat ≤ n) (hn : n + 1 < 2 ^ 32) :
    (gs.hp_size + 1).toNat = gs.hp_size.toNat + 1 := by
  rw [BitVec.toNat_add]
  show (gs.hp_size.toNat + 1) % 2 ^ 32 = _
  omega

/-- An insertion takes the counter's next value, which no entry has yet. -/
theorem Counted.stepOwns {n : Nat} {gs : Gs} (h : Counted n gs) (hn : n + 1 < 2 ^ 18)
    (op : HostOp) : StepOwns gs op := by
  intro e a _ _
  have hsize := h.size
  rw [hp_size_succ hsize (by omega)]
  refine ⟨by omega, fun f hf _ => ?_⟩
  have := h.index f hf
  omega

theorem Counted.step {n : Nat} {gs gs' : Gs} {op : HostOp} {r : Option Slot} (h : Counted n gs)
    (hn : n + 1 < 2 ^ 18) (hstep : hostStep gs op = .ok (r, gs')) : Counted (n + 1) gs' := by
  have hsize := h.size
  obtain ⟨hkept, hentered⟩ := hostStep_effect hstep
  cases henter : enters gs op with
  | none =>
      -- Nobody is entered: the entries and the counter stay.
      have hk := hkept henter
      refine ⟨by rw [hk.hp_size]; omega, fun e he => ?_⟩
      obtain ⟨he', hindex⟩ := hk.entry e he
      rw [hindex, hk.hp_size]
      exact h.index e he'
  | some ea =>
      obtain ⟨e₀, a⟩ := ea
      -- The new entry has the counter's new value, and every other entry a lower one.
      have hent := hentered e₀ a henter
      have hsucc := hp_size_succ hsize (by omega)
      refine ⟨by rw [hent.hp_size, hsucc]; omega, fun e he => ?_⟩
      rw [hent.hp_size, hsucc]
      by_cases h0 : e = e₀
      · rw [h0, hent.index, hsucc]
        exact Nat.mod_le _ _
      · obtain ⟨hiff, hindex⟩ := hent.other e h0
        have hle := h.index e (hiff.mp he)
        rw [hindex]
        omega

/-- **Fewer than 2^18 steps never meet the wrap**: the run keeps every host's state its own. -/
theorem statesOwned_of_short {gs₀ : Gs} {ops : List HostOp}
    (h0 : gs₀.host_tbl = fun _ => HtBucket.zero) (hsize : gs₀.hp_size = 0)
    (hlen : ops.length < 2 ^ 18) : Transition.Always hostStep StatesOwned gs₀ ops := by
  have hmeets : ∀ (ops : List HostOp) (n : Nat) (gs : Gs), Counted n gs →
      n + ops.length < 2 ^ 18 → Transition.Meets hostStep StepOwns gs ops := by
    intro ops
    induction ops with
    | nil => exact fun _ _ _ _ => trivial
    | cons op ops ih =>
        intro n gs hc hn
        rw [List.length_cons] at hn
        refine ⟨hc.stepOwns (by omega) op, fun r t hstep => ?_⟩
        exact ih (n + 1) t (hc.step (by omega) hstep) (by omega)
  refine Transition.always_of_meets (I := StatesOwned) (fun _ h => h)
    (fun _ _ _ _ hown howns hstep => (statesOwned_step hown hstep).mpr howns)
    (statesOwned_zero h0) (hmeets ops 0 gs₀ ⟨by rw [hsize]; decide, fun e he => ?_⟩ (by omega))
  have hdead : (gs₀.host_tbl e.1).saddr e.2 = 0 := by rw [h0]; rfl
  exact absurd hdead he.1

/-! ## Churn -/

/-- The pool has grown as far as `host_allocate` expects it to. -/
def PoolGrown (gs : Gs) : Prop :=
  gs.hp_true_sz.toNat = 64 * ((gs.hp_size.toNat + 32) / 64 + 1)

theorem grow_test (idx : u32) :
    (idx - HPOOL_GROW / 2) &&& (HPOOL_GROW - 1) = 0 ↔ (idx.toNat + 32) % 64 = 0 := by
  have hhalf : HPOOL_GROW / 2 = BitVec.ofNat 32 32 := by decide
  have hmask : HPOOL_GROW - 1 = BitVec.ofNat 32 (2 ^ 6 - 1) := by decide
  have hlt := idx.isLt
  rw [hhalf, hmask, ← BitVec.toNat_inj, BitVec.toNat_and, BitVec.toNat_ofNat,
    Nat.mod_eq_of_lt (by decide), Nat.and_two_pow_sub_one_eq_mod, BitVec.toNat_sub,
    BitVec.toNat_ofNat]
  show _ = 0 ↔ _
  omega

/-- A pool that has grown serves the next allocation, and has grown for the one after. -/
theorem hostAllocate_of_grown {gs : Gs} (cpu : Fin MAX_CPUS) (h : PoolGrown gs)
    (hsize : gs.hp_size.toNat < 2 ^ 30) :
    ∃ gs', hostAllocate gs cpu = .ok (gs.hp_size + 1, gs') ∧ PoolGrown gs' := by
  have hsucc := hp_size_succ (Nat.le_refl gs.hp_size.toNat) (by omega)
  unfold PoolGrown at h
  simp only [hostAllocate]
  by_cases hgrow : (gs.hp_size + 1 - HPOOL_GROW / 2) &&& (HPOOL_GROW - 1) = 0
  · rw [if_pos hgrow]
    refine ⟨_, rfl, ?_⟩
    rw [grow_test, hsucc] at hgrow
    show (gs.hp_true_sz + HPOOL_GROW).toNat = 64 * (((gs.hp_size + 1).toNat + 32) / 64 + 1)
    rw [BitVec.toNat_add, hsucc, h]
    show (_ + 64) % 2 ^ 32 = _
    omega
  · rw [if_neg hgrow]
    rw [grow_test, hsucc] at hgrow
    -- Halfway to the next growth at most, the index is still in the pool.
    have hfits : ¬ gs.hp_true_sz ≤ gs.hp_size + 1 := by
      show ¬ gs.hp_true_sz.toNat ≤ (gs.hp_size + 1).toNat
      rw [hsucc, h]
      omega
    rw [if_neg hfits]
    refine ⟨_, rfl, ?_⟩
    show gs.hp_true_sz.toNat = 64 * (((gs.hp_size + 1).toNat + 32) / 64 + 1)
    rw [hsucc, h]
    omega

/-- With a grown pool, an insertion that has a slot goes through. -/
theorem hostInsert_of_slot {env : Env} {gs : Gs} {b : Fin HTBL_SIZE} {a : be32} {k : Slot}
    (hslot : insertSlot env gs b a = some k) (hgrown : PoolGrown gs)
    (hsize : gs.hp_size.toNat < 2 ^ 30) :
    ∃ gs', hostInsert env gs b a = .ok (some k, gs') ∧ PoolGrown gs'
      ∧ (gs'.host_tbl b).locked = false := by
  obtain ⟨hlock, hk, ha⟩ := insertSlot_eq_some.mp hslot
  obtain ⟨pool, hins⟩ := hostInsert_of_entered hlock hk ha
  obtain ⟨gs1, hgs1⟩ : ∃ gs1, gs1 = { (lockBucket gs b).setBucket b
      ((((gs.host_tbl b).setLocked true).take k).initEntry k a (insertTsec gs env.cpu)
        HOST_PRI_NONE) with pool := pool } := ⟨_, rfl⟩
  have hgrown1 : PoolGrown gs1 := by rw [hgs1]; exact hgrown
  have hsize1 : gs1.hp_size.toNat < 2 ^ 30 := by rw [hgs1]; exact hsize
  rw [hins, ← hgs1]
  -- The pool has grown, so the allocation does not wait.
  obtain ⟨gs2, hal, hgrown2⟩ := hostAllocate_of_grown env.cpu hgrown1 hsize1
  refine ⟨_, Except.bind_eq_ok.mpr ⟨_, hal, rfl⟩, hgrown2, ?_⟩
  rw [unlockBucket_self]
  exact HtBucket.setLocked_locked _ false

/-- Nine addresses of one bucket, which has eight slots. -/
def churnAddr : Fin 9 → be32 :=
  ![0x6da78, 0x72ecc, 0xe5d98, 0xeb1ec, 0x15e0b8, 0x16350c, 0x1d63d8, 0x1db82c, 0x2492a4]

/-- Their bucket. -/
def churnBucket : Fin HTBL_SIZE := hostFetchBucket 0x6da78

theorem churnAddr_bucket (i : Fin 9) : hostFetchBucket (churnAddr i) = churnBucket := by
  revert i
  decide +kernel

theorem churnAddr_ne_zero (i : Fin 9) : churnAddr i ≠ 0 := by
  revert i
  decide +kernel

theorem churnAddr_injective : Function.Injective churnAddr := by
  intro i j
  revert i j
  decide +kernel

/-- One of the nine is always missing. -/
theorem exists_missing (htb : HtBucket) : ∃ i, ∀ k, htb.saddr k ≠ churnAddr i := by
  by_contra hall
  have hfound : ∀ i, ∃ k, htb.saddr k = churnAddr i := by
    intro i
    by_contra hno
    exact hall ⟨i, fun k hk => hno ⟨k, hk⟩⟩
  choose slot hslot using hfound
  have hinj : Function.Injective slot := by
    intro i j hij
    apply churnAddr_injective
    rw [← hslot i, ← hslot j, hij]
  have hcard := Fintype.card_le_of_injective slot hinj
  simp [HTBL_BKT_SZ] at hcard

/-- The bucket takes any new address: it has no authorised entry, and it is exhausted or its
last slot is free. -/
structure Churning (gs : Gs) : Prop where
  grown : PoolGrown gs
  unlocked : (gs.host_tbl churnBucket).locked = false
  pri : ∀ k, (gs.host_tbl churnBucket).pri k = 0
  room : (gs.host_tbl churnBucket).exhausted = true ∨ (gs.host_tbl churnBucket).saddr 7 = 0

theorem Churning.allocSlot {gs : Gs} (h : Churning gs) (tsec : u16) :
    ∃ k, allocSlot (gs.host_tbl churnBucket) tsec = some k := by
  rw [← Option.ne_none_iff_exists']
  intro hnone
  cases he : (gs.host_tbl churnBucket).exhausted with
  | true => exact (allocSlot_eq_none_of_exhausted he tsec).mp hnone 0 (h.pri 0)
  | false =>
      rw [allocSlot_of_not_exhausted he, probeBucket_eq_none] at hnone
      rcases h.room with hexh | h7
      · rw [he] at hexh
        cases hexh
      · exact hnone 7 h7

/-- **One more host** can always be entered. -/
theorem Churning.step {gs : Gs} (h : Churning gs) (hsize : gs.hp_size.toNat < 2 ^ 30) :
    ∃ i k gs', hostStep gs (.insert ⟨0, false, 0⟩ (churnAddr i)) = .ok (some k, gs')
      ∧ Churning gs' ∧ Entered gs gs' (churnBucket, k) (churnAddr i) := by
  -- Nine addresses do not fit into eight slots, so one of them is missing.
  obtain ⟨i, hmissing⟩ := exists_missing (gs.host_tbl churnBucket)
  obtain ⟨env, henv⟩ : ∃ env : Env, env = ⟨0, false, 0⟩ := ⟨_, rfl⟩
  obtain ⟨k, hk⟩ := h.allocSlot (insertTsec gs env.cpu)
  have hlock : htbTestLock env (gs.host_tbl churnBucket) = false := by
    rw [htbTestLock, h.unlocked, henv]
    rfl
  have hprobe : probeBucket (gs.host_tbl churnBucket) (churnAddr i) = none :=
    (probeBucket_eq_none _ _).mpr hmissing
  have hslot : insertSlot env gs churnBucket (churnAddr i) = some k :=
    insertSlot_eq_some.mpr ⟨hlock, hprobe, hk⟩
  obtain ⟨gs', hins, hgrown, hunlocked⟩ := hostInsert_of_slot hslot h.grown hsize
  obtain ⟨-, hw, hexh⟩ := (hostInsert_entries hins).2 k hslot
  rw [← henv]
  refine ⟨i, k, gs', ?_, ⟨hgrown, hunlocked, fun j => ?_, ?_⟩, (hostInsert_effect hins).2 k hslot⟩
  · show hostInsert env gs (hostFetchBucket (churnAddr i)) (churnAddr i) = _
    rw [churnAddr_bucket]
    exact hins
  · by_cases hj : j = k
    · rw [hj, hw.pri]
    · rw [hw.pri_of_ne j hj, h.pri]
  · -- Either the last slot was just taken, which exhausts the bucket, or it is as it was.
    rw [hexh]
    by_cases h7 : k = 7
    · exact Or.inl (by simp [h7])
    · rcases h.room with hexh | hfree
      · exact Or.inl (by simp [hexh])
      · exact Or.inr ((hw.saddr_of_ne 7 (fun hc => h7 hc.symm)).trans hfree)

/-- The counter reaches every value. -/
theorem churn_run (n : Nat) (hn : n < 2 ^ 30) : ∃ ops gs,
    Transition.run hostStep freshEngine ops = .ok gs ∧ Churning gs ∧ gs.hp_size.toNat = n := by
  induction n with
  | zero =>
      refine ⟨[], freshEngine, rfl, ⟨?_, ?_, ?_, Or.inr rfl⟩, by decide⟩
      · unfold PoolGrown
        decide
      · decide +kernel
      · intro k
        exact HtBucket.zero_pri k
  | succ n ih =>
      obtain ⟨ops, gs, hrun, hch, hsize⟩ := ih (by omega)
      obtain ⟨i, k, gs', hstep, hch', hent⟩ := hch.step (by omega)
      refine ⟨ops ++ [.insert ⟨0, false, 0⟩ (churnAddr i)], gs', ?_, hch', ?_⟩
      · exact Transition.run_snoc hrun hstep
      · rw [hent.hp_size, hp_size_succ (Nat.le_refl _) (by omega), hsize]

/-- **Churn breaks ownership**: the host that is entered as number 2^18 gets the reserved
element. -/
theorem statesOwned_fails : ¬ ∀ (ops : List HostOp) (gs : Gs),
    Transition.run hostStep freshEngine ops = .ok gs → StatesOwned gs := by
  intro hall
  obtain ⟨ops, gs, hrun, hch, hsize⟩ := churn_run (2 ^ 18 - 1) (by decide)
  obtain ⟨i, k, gs', hstep, -, hent⟩ := hch.step (by omega)
  have hown := hall (ops ++ [.insert ⟨0, false, 0⟩ (churnAddr i)]) gs'
    (Transition.run_snoc hrun hstep)
  apply hown.reserved _ (hent.live.mpr (churnAddr_ne_zero i))
  rw [hent.index, hp_size_succ (Nat.le_refl _) (by omega), hsize]
  decide

end Ntfw
