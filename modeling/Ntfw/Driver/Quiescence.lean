import Ntfw.Driver.Modules

set_option autoImplicit false

/-! # Reconfiguration on a quiescent data path

`Suspend` counts modules in the `Running` state and returns once there are none. That means
that none is live as long as every live module is in that state. The restart that `Resume`
completes makes a module live and leaves it `Suspended`, so the next `Suspend` overlooks it. -/

namespace Ntfw.Ntfwkm

open Transition

/-- While the engine may be configured, no module is live. -/
def Quiescent (s : System) : Prop := s.phase = .configuring → ∀ m, s.ndis m ≠ .live

/-- Every live module is in the state that `Suspend` looks for. -/
def Accounted (s : System) : Prop := ∀ m, s.ndis m = .live → s.driver.state m = .running

/-- The condition on a step: at a call of `Suspend`, every live module is `Running`. -/
def StepAccounted (s : System) (e : Event) : Prop := e = .suspend → Accounted s

/-! ## Requests that find every live module -/

theorem Accounted.of_moves {s t : System} {m : FltModule} (h : Accounted s) (hm : Moves s t m) :
    Accounted t := by
  intro j hj
  by_cases hjm : j = m
  · subst hjm
    exact hm.live.mpr hj
  · rw [hm.state j hjm]
    exact h j (hm.ndis j hjm ▸ hj)

/-- The invariant under the condition: all through a request every live module is `Running`. -/
structure Tight (s : System) : Prop extends Inv s where
  accounted : s.phase ≠ .idle → Accounted s

theorem Tight.quiescent {s : System} (h : Tight s) : Quiescent s := by
  intro hp m hlive
  have hbusy : s.phase ≠ .idle := by simp [hp]
  exact h.drained hbusy (h.configuring hp) m (h.accounted hbusy m hlive)

theorem tight_step (s : System) (e : Event) (r : List NdisCall) (t : System) (h : Tight s)
    (hc : StepAccounted s e) (hs : step s e = .ok (r, t)) : Tight t := by
  refine ⟨inv_step s e r t h.toInv hs, ?_⟩
  intro hp
  cases e with
  | attach media setAttributes =>
      rcases step_attach_ok h.toInv hs with ⟨lock, rfl⟩ | ⟨m, rest, -, hm, -⟩
      · exact h.accounted hp
      · exact (h.accounted (hm.phase ▸ hp)).of_moves hm
  | detach m =>
      obtain ⟨-, -, hm, -⟩ := step_detach_ok hs
      exact (h.accounted (hm.phase ▸ hp)).of_moves hm
  | pause m =>
      obtain ⟨-, hm, -⟩ := step_pause_ok hs
      exact (h.accounted (hm.phase ▸ hp)).of_moves hm
  | restart m =>
      obtain ⟨-, hm, -⟩ := step_restart_ok hs
      exact (h.accounted (hm.phase ▸ hp)).of_moves hm
  | suspend =>
      obtain ⟨-, -, rfl⟩ := step_suspend_ok hs
      exact hc rfl
  | suspendReturns =>
      obtain ⟨hwait, -, -, rfl⟩ := step_suspendReturns_ok.mp hs
      exact h.accounted (by simp [hwait])
  | resume =>
      obtain ⟨-, rfl, -⟩ := step_resume_ok hs
      exact absurd rfl hp

/-! ## A request that overlooks a live module -/

/-- NDIS can pause any live module while the lock is free. -/
theorem step_pause_of_live {s : System} {m : FltModule} (hlive : s.ndis m = .live)
    (hlock : s.driver.driverLock = false) : ∃ r t, step s (.pause m) = .ok (r, t) := by
  have hacq := acquireDriverLock_of_free hlock
  simp only [step]
  rw [if_neg (not_not_intro hlive), filterPause, hacq]
  exact ⟨_, _, rfl⟩

/-- **Draining.** The pauses that `Suspend` waits for set the event, and leave live the
modules that it has overlooked. -/
theorem drain (n : Nat) : ∀ s : System, Inv s → s.phase = .waiting →
    s.driver.driverLock = false → running s.driver.state = n →
    (n = 0 → s.driver.suspendCompleteEvent = true) →
    ∀ j, s.ndis j = .live → s.driver.state j ≠ .running →
    ∃ es t, run step s es = .ok t ∧ t.phase = .waiting ∧ t.driver.suspendCompleteEvent = true
      ∧ t.ndis j = .live := by
  induction n with
  | zero =>
      intro s _ hp _ _ hev j hj _
      exact ⟨[], s, rfl, hp, hev rfl, hj⟩
  | succ n ih =>
      intro s h hp hlock hn _ j hj hjr
      have hsome : ∃ m, s.driver.state m = .running := by
        by_contra hnone
        have hzero := Counting.count_eq_zero.mpr (not_exists.mp hnone)
        rw [running, hzero] at hn
        exact absurd hn (by omega)
      obtain ⟨m, hm⟩ := hsome
      obtain ⟨r, t, ht⟩ := step_pause_of_live (h.running_live m hm) hlock
      have hjm : j ≠ m := by
        rintro rfl
        exact hjr hm
      have hinv := inv_pause h ht
      obtain ⟨-, hmoves, count, event, rfl, hcase⟩ := step_pause_ok ht
      obtain ⟨hnr, -, -⟩ | ⟨-, -, hevent⟩ := hcase
      · exact absurd hm hnr
      · have hupd := running_update s.driver.state m .paused
        rw [Counting.ind_of hm, Counting.ind_of_not (p := FilterState.paused = .running)
          (by decide), hn] at hupd
        have hrest : running (Function.update s.driver.state m .paused) = n := by
          simpa using hupd
        -- The last of them brings the counter down to zero.
        have hlast : n = 0 → event = true := by
          intro hzero
          have hcount : count = 0 :=
            hinv.count.trans (congrArg (BitVec.ofNat 32) (hrest.trans hzero))
          rw [hevent, decide_eq_true hcount, Bool.true_or]
        obtain ⟨es, u, hrun, hu⟩ := ih _ hinv hp hlock hrest hlast j
          ((hmoves.ndis j hjm).trans hj) (hmoves.state j hjm ▸ hjr)
        exact ⟨.pause m :: es, u, run_cons_ok.mpr ⟨r, _, ht, hrun⟩, hu⟩

/-- A call of `Suspend` that overlooks a live module may return with the module live. -/
theorem overlooked {s t : System} {r : List NdisCall} (h : Inv s)
    (hs : step s .suspend = .ok (r, t)) (hnot : ¬ Accounted s) :
    ∃ es u, run step t es = .ok u ∧ ¬ Quiescent u := by
  have hinv := inv_suspend h hs
  obtain ⟨hidle, hlock, rfl⟩ := step_suspend_ok hs
  obtain ⟨j, hj⟩ := not_forall.mp hnot
  obtain ⟨hlive, hnr⟩ := Classical.not_imp.mp hj
  -- With nothing to drain, the event is still set from the request that left `j` stale.
  have hev0 : running s.driver.state = 0 →
      (decide (s.driver.runningModuleCount = 0) && s.driver.suspendCompleteEvent) = true := by
    intro hzero
    have hcount : s.driver.runningModuleCount = 0 :=
      h.count.trans (congrArg (BitVec.ofNat 32) hzero)
    exact Bool.and_eq_true_iff.mpr ⟨decide_eq_true hcount, h.stale hidle ⟨j, hlive, hnr⟩⟩
  obtain ⟨es, u, hrun, hwait, hev, hu⟩ := drain _ _ hinv rfl hlock rfl hev0 j hlive hnr
  refine ⟨es ++ [.suspendReturns], { u with phase := .configuring }, ?_, ?_⟩
  · exact run_snoc hrun (step_suspendReturns_ok.mpr ⟨hwait, hev, rfl, rfl⟩)
  · exact fun hq => hq rfl j hu

/-! ## The exact condition -/

/-- **Reconfiguration is quiescent when `Suspend` finds every live module.** If at every call
of `Suspend` the live modules are all `Running`, no module is live while the engine is being
configured, in any run. -/
theorem quiescent_of_accounted (es : List Event)
    (h : Meets step StepAccounted System.init es) : Always step Quiescent System.init es :=
  always_of_meets (fun _ => Tight.quiescent) tight_step ⟨inv_init, fun h => absurd rfl h⟩ h

/-- One module, attached and restarted, and one request. -/
def oneRequest : List Event :=
  [.attach true true, .restart 0, .suspend, .pause 0, .suspendReturns]

theorem quiescent_of_accounted_once :
    Always step Quiescent System.init oneRequest
    ∧ ∃ s, run step System.init oneRequest = .ok s ∧ s.phase = .configuring := by
  refine ⟨quiescent_of_accounted oneRequest ?_, _, rfl, rfl⟩
  refine ⟨nofun, fun r s hs => ?_⟩
  cases hs
  refine ⟨nofun, fun r s hs => ?_⟩
  cases hs
  refine ⟨fun _ => ?_, fun r s hs => ?_⟩
  · unfold Accounted
    decide
  · cases hs
    exact ⟨nofun, fun r s hs => ⟨nofun, fun _ _ _ => trivial⟩⟩

/-- The condition is sharp: a call without it, from any state the system reaches, may be
followed by the configuration of the engine under a live module. -/
theorem suspend_overlooks {s t : System} {r : List NdisCall}
    (hreach : Reaches step System.init s) (hs : step s .suspend = .ok (r, t))
    (hnot : ¬ Accounted s) : ∃ es u, run step t es = .ok u ∧ ¬ Quiescent u :=
  overlooked (hreach.invariant inv_step inv_init) hs hnot

/-- Two requests in a row: the module that the first has resumed is live through the second. -/
def staleRun : List Event :=
  [.attach true true, .restart 0, .suspend, .pause 0, .suspendReturns, .restart 0, .resume,
    .suspend, .suspendReturns]

/-- After `staleRun` the engine is configured under a live module. -/
theorem quiescent_fails : ¬ ∀ es s, run step System.init es = .ok s → Quiescent s := by
  intro h
  have hrun : ∃ s, run step System.init staleRun = .ok s ∧ s.phase = .configuring
      ∧ s.ndis 0 = .live := ⟨_, rfl, rfl, rfl⟩
  obtain ⟨s, hs, hp, hlive⟩ := hrun
  exact h staleRun s hs hp 0 hlive

end Ntfw.Ntfwkm
