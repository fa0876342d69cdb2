import Ntfw.Host.Churn

set_option autoImplicit false

/-! # The reservation of the host pool

`ntfe_init` reserves memory for as many host states as the table has slots. The pool grows with a
counter of the unauthorised hosts ever entered, the evicted ones included, so what bounds the
table does not bound the pool. The file says how many insertions the reservation is good for. -/

namespace Ntfw

/-! ## What a step allocates -/

/-- What the call of `host_allocate` in a step returns, with the state it leaves, if the step
makes one. -/
def hostAllocated (gs : Gs) : HostOp → Option (u32 × Gs)
  | .insert env a =>
      if (insertSlot env gs (hostFetchBucket a) a).isSome then (hostAllocate gs env.cpu).toOption
      else none
  | _ => none

theorem hostAllocated_eq_some {gs gs' : Gs} {op : HostOp} {idx : u32}
    (h : hostAllocated gs op = some (idx, gs')) :
    ∃ cpu, hostAllocate gs cpu = .ok (idx, gs') := by
  cases op with
  | insert env a =>
      simp only [hostAllocated] at h
      split at h
      · refine ⟨env.cpu, ?_⟩
        cases hal : hostAllocate gs env.cpu with
        | error e =>
            rw [hal] at h
            cases h
        | ok r =>
            rw [hal] at h
            cases h
            rfl
      · cases h
  | insertAuthorized env a p => cases h
  | clearStatic => cases h
  | prepare cpu hpc => cases h

/-- The size of the pool once the index is handed out. -/
def grownTo (gs : Gs) (idx : u32) : u32 :=
  if (idx - HPOOL_GROW / 2) &&& (HPOOL_GROW - 1) = 0 then gs.hp_true_sz + HPOOL_GROW
  else gs.hp_true_sz

/-- **`host_allocate`** counts on and grows the pool if the index says so. If not, it returns only
if the pool has the index. -/
theorem hostAllocate_sizes {gs gs' : Gs} {cpu : Fin MAX_CPUS} {idx : u32}
    (h : hostAllocate gs cpu = .ok (idx, gs')) :
    idx = gs.hp_size + 1 ∧ gs'.hp_size = idx ∧ gs'.hp_true_sz = grownTo gs idx
      ∧ ((idx - HPOOL_GROW / 2) &&& (HPOOL_GROW - 1) = 0 ∨ ¬ gs.hp_true_sz ≤ idx) := by
  obtain ⟨-, -, hidx, hsize⟩ := hostAllocate_ok h
  refine ⟨hidx, hsize.trans hidx.symm, ?_⟩
  subst hidx
  simp only [hostAllocate] at h
  unfold grownTo
  split at h
  · rename_i hgrow
    cases h
    rw [if_pos hgrow]
    exact ⟨rfl, Or.inl hgrow⟩
  · rename_i hgrow
    rw [if_neg hgrow]
    split at h
    · split at h
      · cases h
      · rename_i hbehind hfits
        exact absurd hbehind hfits
    · rename_i hfits
      cases h
      exact ⟨rfl, Or.inr hfits⟩

/-- Nothing else about the state decides whether it returns. -/
theorem hostAllocate_of_sizes (gs : Gs) (cpu : Fin MAX_CPUS)
    (h : (gs.hp_size + 1 - HPOOL_GROW / 2) &&& (HPOOL_GROW - 1) = 0
      ∨ ¬ gs.hp_true_sz ≤ gs.hp_size + 1) :
    ∃ gs', hostAllocate gs cpu = .ok (gs.hp_size + 1, gs') := by
  simp only [hostAllocate]
  by_cases hgrow : (gs.hp_size + 1 - HPOOL_GROW / 2) &&& (HPOOL_GROW - 1) = 0
  · rw [if_pos hgrow]
    exact ⟨_, rfl⟩
  · rw [if_neg hgrow, if_neg (h.resolve_left hgrow)]
    exact ⟨_, rfl⟩

/-- What `host_insert` makes of the pool, by the slot it enters. -/
theorem hostInsert_pool {env : Env} {gs gs' : Gs} {b : Fin HTBL_SIZE} {a : be32}
    {r : Option Slot} (h : hostInsert env gs b a = .ok (r, gs')) :
    (insertSlot env gs b a = none → gs'.hp_size = gs.hp_size ∧ gs'.hp_true_sz = gs.hp_true_sz)
    ∧ ((insertSlot env gs b a).isSome → ∃ gs1, hostAllocate gs env.cpu = .ok (gs'.hp_size, gs1)
        ∧ gs'.hp_true_sz = gs1.hp_true_sz) := by
  cases hlock : htbTestLock env (gs.host_tbl b) with
  | true =>
      rw [hostInsert_of_held hlock] at h
      rw [insertSlot_of_held hlock]
      cases h
      exact ⟨fun _ => ⟨rfl, rfl⟩, fun hc => absurd hc Bool.false_ne_true⟩
  | false =>
      cases hk : probeBucket (gs.host_tbl b) a with
      | some k =>
          rw [hostInsert_of_found hlock hk] at h
          rw [insertSlot_of_found hlock hk]
          cases h
          exact ⟨fun _ => ⟨rfl, rfl⟩, fun hc => absurd hc Bool.false_ne_true⟩
      | none =>
          rw [insertSlot_of_absent hlock hk]
          cases hslot : allocSlot (gs.host_tbl b) (insertTsec gs env.cpu) with
          | none =>
              rw [hostInsert_of_full hlock hk hslot] at h
              cases h
              exact ⟨fun _ => ⟨rfl, rfl⟩, fun hc => absurd hc Bool.false_ne_true⟩
          | some k =>
              refine ⟨fun hc => absurd hc (Option.some_ne_none k), fun _ => ?_⟩
              -- The entry is written already, but the two sizes are still those of `gs`.
              obtain ⟨pool, hins⟩ := hostInsert_of_entered hlock hk hslot
              rw [hins] at h
              obtain ⟨⟨ptr, gs2⟩, hal, hret⟩ := Except.bind_eq_ok.mp h
              cases hret
              obtain ⟨rfl, hsize, htrue, hfits⟩ := hostAllocate_sizes hal
              obtain ⟨gs1, h1⟩ := hostAllocate_of_sizes gs env.cpu hfits
              refine ⟨gs1, ?_, ?_⟩
              · rw [show (unlockBucket (gs2.setBucket b _) b).hp_size = gs2.hp_size from rfl, hsize]
                exact h1
              · exact htrue.trans (hostAllocate_sizes h1).2.2.1.symm

theorem foldl_hp_true_sz {α : Type} {f : Gs → α → Gs}
    (hf : ∀ gs x, (f gs x).hp_true_sz = gs.hp_true_sz) (xs : List α) (gs : Gs) :
    (xs.foldl f gs).hp_true_sz = gs.hp_true_sz := by
  induction xs generalizing gs with
  | nil => rfl
  | cons x xs ih => exact (ih (f gs x)).trans (hf gs x)

/-- `host_insert_authorized` takes nothing from the pool. -/
theorem hostInsertAuthorized_pool (env : Env) (gs : Gs) (b : Fin HTBL_SIZE) (a : be32) (p : u32) :
    (hostInsertAuthorized env gs b a p).2.hp_size = gs.hp_size
    ∧ (hostInsertAuthorized env gs b a p).2.hp_true_sz = gs.hp_true_sz := by
  simp only [hostInsertAuthorized]
  set gs1 := if htbTestLock env (gs.host_tbl b) then
      gs.count env.cpu fun sc => { sc with htb_conflicts := sc.htb_conflicts + 1 } else gs
    with hgs1
  have hsizes : gs1.hp_size = gs.hp_size ∧ gs1.hp_true_sz = gs.hp_true_sz := by
    rw [hgs1]
    split <;> exact ⟨rfl, rfl⟩
  clear_value gs1
  split
  · -- An entry that is there at most has its priority raised.
    split <;> exact hsizes
  · split <;> exact hsizes

/-- Nor does the sweep give anything back to it. -/
theorem hostClear_pool (gs : Gs) :
    (hostClearStaticallyAuthorized gs).hp_size = gs.hp_size
    ∧ (hostClearStaticallyAuthorized gs).hp_true_sz = gs.hp_true_sz := by
  refine ⟨(hostClear_state gs).hp_size, ?_⟩
  have hslot : ∀ i gs k, (clearSlot i gs k).hp_true_sz = gs.hp_true_sz := by
    intro i gs k
    simp only [clearSlot]
    split <;> rfl
  have hbucket : ∀ gs i, (clearBucket gs i).hp_true_sz = gs.hp_true_sz := fun gs i =>
    foldl_hp_true_sz (hslot i) _ gs
  exact foldl_hp_true_sz hbucket _ gs

/-- **A step that allocates leaves the sizes that the allocation leaves**, and the index is the
counter. Any other step leaves both sizes alone. -/
theorem hostStep_pool {gs gs' : Gs} {op : HostOp} {r : Option Slot}
    (h : hostStep gs op = .ok (r, gs')) :
    (enters gs op = none → gs'.hp_size = gs.hp_size ∧ gs'.hp_true_sz = gs.hp_true_sz)
    ∧ ((enters gs op).isSome → ∃ gs1, hostAllocated gs op = some (gs'.hp_size, gs1)
        ∧ gs'.hp_true_sz = gs1.hp_true_sz) := by
  cases op with
  | insert env a =>
      obtain ⟨hkept, hgrown⟩ := hostInsert_pool h
      refine ⟨fun hc => hkept (Option.map_eq_none_iff.mp hc), fun hc => ?_⟩
      have hslot : (insertSlot env gs (hostFetchBucket a) a).isSome := by
        rwa [enters, Option.isSome_map] at hc
      obtain ⟨gs1, hal, hsize⟩ := hgrown hslot
      refine ⟨gs1, ?_, hsize⟩
      rw [hostAllocated, if_pos hslot, hal]
      rfl
  | insertAuthorized env a p =>
      refine ⟨fun _ => ?_, fun hc => absurd hc Bool.false_ne_true⟩
      have heq : (hostInsertAuthorized env gs (hostFetchBucket a) a p.word).2 = gs' :=
        congrArg Prod.snd (Except.ok.inj h)
      rw [← heq]
      exact hostInsertAuthorized_pool env gs _ a p.word
  | clearStatic =>
      refine ⟨fun _ => ?_, fun hc => absurd hc Bool.false_ne_true⟩
      have heq : (none, hostClearStaticallyAuthorized gs) = (r, gs') := Except.ok.inj h
      obtain ⟨-, rfl⟩ := Prod.mk.inj heq
      exact hostClear_pool gs
  | prepare cpu hpc =>
      cases h
      exact ⟨fun _ => ⟨rfl, rfl⟩, fun hc => absurd hc Bool.false_ne_true⟩

/-! ## The exact condition -/

/-- The pool is not grown past what `ntfe_init` has reserved for it. -/
def PoolReserved (gs : Gs) : Prop := gs.hp_true_sz.toNat ≤ HPOOL_SIZE

/-- The index that a step is given is neither the reserved one nor outside the pool. -/
def StepServed (gs : Gs) (op : HostOp) : Prop :=
  ∀ idx gs', hostAllocated gs op = some (idx, gs') →
    idx ≠ 0 ∧ idx.toNat < gs'.hp_true_sz.toNat

/-- The condition, of a step: if it enters a host, the counter's next value is below the last
half interval of the reservation. -/
def StepReserved (gs : Gs) (op : HostOp) : Prop :=
  (enters gs op).isSome → gs.hp_size.toNat + 1 < HPOOL_SIZE - HPOOL_GROW.toNat / 2

/-- As long as the reservation lasts, the counter is far from its wrap. -/
theorem PoolGrown.size_lt {gs : Gs} (h : PoolGrown gs) (hr : PoolReserved gs) :
    gs.hp_size.toNat + 32 < HPOOL_SIZE := by
  unfold PoolGrown at h
  unfold PoolReserved at hr
  have hsize : HPOOL_SIZE = 64 * 32768 := rfl
  omega

theorem PoolGrown.grownTo {gs : Gs} (h : PoolGrown gs) (hsize : gs.hp_size.toNat < 2 ^ 30) :
    (grownTo gs (gs.hp_size + 1)).toNat = 64 * ((gs.hp_size.toNat + 33) / 64 + 1) := by
  obtain ⟨gs', hal, hgrown⟩ := hostAllocate_of_grown 0 h hsize
  obtain ⟨-, hs, ht, -⟩ := hostAllocate_sizes hal
  unfold PoolGrown at hgrown
  rw [hs, hp_size_succ (Nat.le_refl _) (by omega), ht] at hgrown
  exact hgrown

/-- **One step** of a pool that has grown as it should: it grows on as it should, it serves an
index of the pool, and it stays inside the reservation exactly under the condition. -/
theorem hostStep_grown {gs gs' : Gs} {op : HostOp} {r : Option Slot} (h : PoolGrown gs)
    (hr : PoolReserved gs) (hstep : hostStep gs op = .ok (r, gs')) :
    PoolGrown gs' ∧ (PoolReserved gs' ↔ StepReserved gs op) := by
  have hlt := h.size_lt hr
  have hsize : HPOOL_SIZE = 2097152 := rfl
  have hgrow : HPOOL_GROW.toNat = 64 := rfl
  obtain ⟨hkept, hgrown⟩ := hostStep_pool hstep
  cases henter : enters gs op with
  | none =>
      obtain ⟨hs, ht⟩ := hkept henter
      constructor
      · unfold PoolGrown
        rw [hs, ht]
        exact h
      · unfold PoolReserved StepReserved
        rw [ht, henter]
        exact iff_of_true hr nofun
  | some ea =>
      obtain ⟨gs1, hal, ht⟩ := hgrown (by rw [henter]; rfl)
      obtain ⟨cpu, hcall⟩ := hostAllocated_eq_some hal
      obtain ⟨hidx, -, htrue, -⟩ := hostAllocate_sizes hcall
      have hnext := h.grownTo (by omega)
      have hsucc := hp_size_succ (Nat.le_refl gs.hp_size.toNat) (by omega)
      rw [← hidx, ← htrue, ← ht] at hnext
      rw [← hidx] at hsucc
      constructor
      · unfold PoolGrown
        rw [hnext, hsucc]
      · unfold PoolReserved StepReserved
        rw [hnext, henter]
        constructor
        · intro hle _
          omega
        · intro hroom
          have := hroom rfl
          omega

/-- A pool that has grown as it should serves an index of its own. -/
theorem PoolGrown.stepServed {gs : Gs} (h : PoolGrown gs) (hr : PoolReserved gs) (op : HostOp) :
    StepServed gs op := by
  intro idx gs' hal
  have hlt := h.size_lt hr
  have hsize : HPOOL_SIZE = 2097152 := rfl
  obtain ⟨cpu, hcall⟩ := hostAllocated_eq_some hal
  obtain ⟨rfl, -, htrue, -⟩ := hostAllocate_sizes hcall
  have hsucc := hp_size_succ (Nat.le_refl gs.hp_size.toNat) (by omega)
  have hnext := h.grownTo (by omega)
  rw [← htrue] at hnext
  constructor
  · intro hzero
    rw [hzero] at hsucc
    exact absurd hsucc (Nat.ne_of_lt (Nat.succ_pos _))
  · omega

/-- **The pool outgrows its reservation exactly by too many insertions.** In a run from
`ntfe_init`, the pool stays inside the reservation and every index handed out inside the pool
exactly when no insertion takes the counter to the last half interval of the reservation. -/
theorem poolReserved_iff (hz : u64) {ops : List HostOp} {gs : Gs}
    (hrun : Transition.run hostStep (ntfeInit Gs.zero hz true).2 ops = .ok gs) :
    (Transition.Always hostStep PoolReserved (ntfeInit Gs.zero hz true).2 ops
        ∧ Transition.Meets hostStep StepServed (ntfeInit Gs.zero hz true).2 ops)
      ↔ Transition.Meets hostStep StepReserved (ntfeInit Gs.zero hz true).2 ops := by
  have hgrown : PoolGrown (ntfeInit Gs.zero hz true).2 := by
    show (64 : u32).toNat = 64 * (((0 : u32).toNat + 32) / 64 + 1)
    rfl
  have hinit : PoolReserved (ntfeInit Gs.zero hz true).2 := by
    show (64 : u32).toNat ≤ HPOOL_SIZE
    decide
  have hiff := Transition.always_iff_meets_of_kept (I := PoolGrown) (P := PoolReserved)
    (C := StepReserved) (fun _ _ _ _ hg hr _ hstep => (hostStep_grown hg hr hstep).1)
    (fun _ _ _ _ hg hr hstep => (hostStep_grown hg hr hstep).2) hgrown hinit hrun
  refine ⟨fun h => hiff.mp h.1, fun h => ?_⟩
  have halways := hiff.mpr h
  exact ⟨halways, halways.meets (fun _ _ _ _ hg hr hstep _ => (hostStep_grown hg hr hstep).1)
    (fun _ op hg hr => hg.stepServed hr op) hgrown⟩

/-- The condition at a run that enters two hosts. -/
theorem poolReserved_iff_two_hosts : ∃ gs,
    Transition.run hostStep freshEngine twoHosts = .ok gs
      ∧ ((Transition.Always hostStep PoolReserved freshEngine twoHosts
          ∧ Transition.Meets hostStep StepServed freshEngine twoHosts)
        ↔ Transition.Meets hostStep StepReserved freshEngine twoHosts) := by
  have hsome : (Transition.run hostStep freshEngine twoHosts).toOption.isSome = true := by
    decide +kernel
  cases hrun : Transition.run hostStep freshEngine twoHosts with
  | error e =>
      rw [hrun] at hsome
      cases hsome
  | ok gs => exact ⟨gs, rfl, poolReserved_iff 10000000 hrun⟩

/-- **Churn outgrows the reservation**: nine addresses and one bucket are enough. -/
theorem poolReserved_fails : ¬ ∀ (ops : List HostOp) (gs : Gs),
    Transition.run hostStep freshEngine ops = .ok gs → PoolReserved gs := by
  intro hall
  obtain ⟨ops, gs, hrun, hch, hsize⟩ := churn_run (HPOOL_SIZE - 32) (by decide)
  have hreserved := hall ops gs hrun
  have hgrown := hch.grown
  unfold PoolGrown at hgrown
  unfold PoolReserved at hreserved
  have h : HPOOL_SIZE = 2097152 := rfl
  omega

end Ntfw
