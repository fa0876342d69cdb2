import Ntfw.Driver.Modules

set_option autoImplicit false

/-! # The event of a suspension

`Suspend` waits for an event that a pause sets when it takes the counter of running modules to
zero. The event starts unsignalled and is cleared only while modules run, so it is there for every
request once a module has run, and for none before. -/

namespace Ntfw.Ntfwkm

open Transition

/-- Who waits for the event while no module is counted finds it signalled. -/
def Signalled (s : System) : Prop :=
  s.phase = .waiting → s.driver.runningModuleCount = 0 → s.driver.suspendCompleteEvent = true

/-- A module is counted, or the event is set. -/
def Due (s : System) : Prop :=
  s.driver.runningModuleCount ≠ 0 ∨ s.driver.suspendCompleteEvent = true

/-- The condition on a step: at a call of `Suspend`, a module is counted or the event is set. -/
def StepDue (s : System) (e : Event) : Prop := e = .suspend → Due s

/-- No module is in the `Running` state. -/
def NoneRunning (s : System) : Prop := ∀ m, s.driver.state m ≠ .running

/-! ## The counter and the event over a step -/

/-- What a step other than a call of `Suspend` does to the two: nothing, or a module pauses that
was running, or one comes up that runs. -/
theorem step_due {s t : System} {e : Event} {r : List NdisCall} (h : Inv s) (he : e ≠ .suspend)
    (hs : step s e = .ok (r, t)) :
    (t.driver.runningModuleCount = s.driver.runningModuleCount
      ∧ t.driver.suspendCompleteEvent = s.driver.suspendCompleteEvent)
    ∨ (Due t ∧ (¬ NoneRunning s ∨ s.phase = .idle ∧ ¬ NoneRunning t)) := by
  cases e with
  | attach media setAttributes =>
      rcases step_attach_ok h hs with ⟨lock, rfl⟩ | ⟨m, rest, -, -, hd⟩
      · exact Or.inl ⟨rfl, rfl⟩
      · rw [hd]
        exact Or.inl ⟨rfl, rfl⟩
  | detach m =>
      obtain ⟨-, -, -, -, hd⟩ := step_detach_ok hs
      rw [hd]
      exact Or.inl ⟨rfl, rfl⟩
  | pause m =>
      obtain ⟨-, -, count, event, rfl, hcase⟩ := step_pause_ok hs
      rcases hcase with ⟨-, rfl, rfl⟩ | ⟨hm, -, rfl⟩
      · exact Or.inl ⟨rfl, rfl⟩
      · -- The last module to pause sets the event.
        refine Or.inr ⟨?_, Or.inl fun hnone => hnone m hm⟩
        by_cases hz : count = 0
        · exact Or.inr (Bool.or_eq_true_iff.mpr (Or.inl (decide_eq_true hz)))
        · exact Or.inl hz
  | restart m =>
      have ht := inv_restart h hs
      obtain ⟨-, -, hcase⟩ := step_restart_ok hs
      rcases hcase with ⟨-, hd⟩ | ⟨hsig, hd⟩
      · rw [hd]
        exact Or.inl ⟨rfl, rfl⟩
      · -- The module that has come up is counted.
        have hm : t.driver.state m = .running := by
          rw [hd]
          exact Function.update_self _ _ _
        have hidle : s.phase = .idle := by
          by_contra hbusy
          rw [h.signal.mpr hbusy] at hsig
          cases hsig
        refine Or.inr ⟨Or.inl fun hz => ?_, Or.inr ⟨hidle, fun hnone => hnone m hm⟩⟩
        exact running_eq_zero.mp (ht.count.symm.trans hz) m hm
  | suspend => exact absurd rfl he
  | suspendReturns =>
      obtain ⟨-, -, -, rfl⟩ := step_suspendReturns_ok.mp hs
      exact Or.inl ⟨rfl, rfl⟩
  | resume =>
      obtain ⟨-, rfl, -⟩ := step_resume_ok hs
      exact Or.inl ⟨rfl, rfl⟩

/-- The callbacks leave the thread where it is, and only `Suspend` makes it wait. -/
theorem step_waiting {s t : System} {e : Event} {r : List NdisCall} (h : Inv s)
    (he : e ≠ .suspend) (hs : step s e = .ok (r, t)) :
    t.phase = .waiting ↔ s.phase = .waiting ∧ e ≠ .suspendReturns := by
  cases e with
  | attach media setAttributes =>
      rcases step_attach_ok h hs with ⟨lock, rfl⟩ | ⟨m, rest, -, hm, -⟩
      · exact (and_iff_left nofun).symm
      · rw [hm.phase]
        exact (and_iff_left nofun).symm
  | detach m =>
      obtain ⟨-, -, hm, -⟩ := step_detach_ok hs
      rw [hm.phase]
      exact (and_iff_left nofun).symm
  | pause m =>
      obtain ⟨-, hm, -⟩ := step_pause_ok hs
      rw [hm.phase]
      exact (and_iff_left nofun).symm
  | restart m =>
      obtain ⟨-, hm, -⟩ := step_restart_ok hs
      rw [hm.phase]
      exact (and_iff_left nofun).symm
  | suspend => exact absurd rfl he
  | suspendReturns =>
      obtain ⟨-, -, -, rfl⟩ := step_suspendReturns_ok.mp hs
      exact iff_of_false nofun fun hc => hc.2 rfl
  | resume =>
      obtain ⟨hconf, rfl, -⟩ := step_resume_ok hs
      refine iff_of_false nofun fun hc => ?_
      rw [hconf] at hc
      cases hc.1

/-- A call of `Suspend` clears the event only if a module is counted. -/
theorem suspend_due {s t : System} {r : List NdisCall} (hs : step s .suspend = .ok (r, t)) :
    t.driver.runningModuleCount = s.driver.runningModuleCount
      ∧ (s.driver.runningModuleCount = 0 →
        t.driver.suspendCompleteEvent = s.driver.suspendCompleteEvent) := by
  obtain ⟨-, -, rfl⟩ := step_suspend_ok hs
  refine ⟨rfl, fun hz => ?_⟩
  show (decide (s.driver.runningModuleCount = 0) && s.driver.suspendCompleteEvent) = _
  rw [decide_eq_true hz, Bool.true_and]

/-- **Once due, always due.** -/
theorem Due.step {s t : System} {e : Event} {r : List NdisCall} (hdue : Due s) (h : Inv s)
    (hs : step s e = .ok (r, t)) : Due t := by
  by_cases he : e = .suspend
  · subst he
    obtain ⟨hcount, hevent⟩ := suspend_due hs
    unfold Due
    rw [hcount]
    by_cases hz : s.driver.runningModuleCount = 0
    · rw [hevent hz]
      exact hdue
    · exact Or.inl hz
  · rcases step_due h he hs with ⟨hcount, hevent⟩ | ⟨hdue', -⟩
    · unfold Due
      rw [hcount, hevent]
      exact hdue
    · exact hdue'

/-- **One step** keeps the promise exactly under the condition. -/
theorem signalled_step {s t : System} {e : Event} {r : List NdisCall} (h : Inv s)
    (hsig : Signalled s) (hs : step s e = .ok (r, t)) : Signalled t ↔ StepDue s e := by
  by_cases he : e = .suspend
  · subst he
    have hphase : t.phase = .waiting := by
      obtain ⟨-, -, rfl⟩ := step_suspend_ok hs
      rfl
    obtain ⟨hcount, hevent⟩ := suspend_due hs
    unfold Signalled StepDue Due
    rw [hphase, hcount]
    constructor
    · intro hpromise _
      by_cases hz : s.driver.runningModuleCount = 0
      · exact Or.inr (hevent hz ▸ hpromise rfl hz)
      · exact Or.inl hz
    · intro hdue _ hz
      rw [hevent hz]
      exact (hdue rfl).resolve_left (not_not_intro hz)
  · refine iff_of_true ?_ fun hc => absurd hc he
    intro hwait hz
    rcases step_due h he hs with ⟨hcount, hevent⟩ | ⟨hdue, -⟩
    · rw [hevent]
      exact hsig ((step_waiting h he hs).mp hwait).1 (hcount ▸ hz)
    · exact hdue.resolve_left (not_not_intro hz)

/-! ## The exact condition -/

/-- **`Suspend` waits for an event that is due exactly if it is called when one is.** Over a run
from `DriverEntry`, whoever waits with no module counted finds the event signalled, exactly if at
every call of `Suspend` a module is counted or the event is set. -/
theorem signalled_iff_due {es : List Event} {s : System} (hrun : run step System.init es = .ok s) :
    Always step Signalled System.init es ↔ Meets step StepDue System.init es :=
  always_iff_meets inv_step (fun _ _ _ _ h hsig hs => signalled_step h hsig hs) inv_init
    (fun hw => by cases hw) hrun

/-- The condition at a run with one module and one request. -/
theorem signalled_iff_due_once : ∃ s,
    run step System.init [.attach true true, .restart 0, .suspend, .pause 0] = .ok s
      ∧ (Always step Signalled System.init [.attach true true, .restart 0, .suspend, .pause 0]
        ↔ Meets step StepDue System.init [.attach true true, .restart 0, .suspend, .pause 0]) :=
  ⟨_, rfl, signalled_iff_due rfl⟩

/-- **A request before the first module waits for nothing.** -/
theorem signalled_fails : ¬ ∀ es s, run step System.init es = .ok s → Signalled s := by
  intro hall
  have hsig := hall [.suspend] _ rfl rfl rfl
  cases hsig

/-! ## When it is due -/

theorem not_due_noneRunning {s : System} (h : Inv s) (hnot : ¬ Due s) : NoneRunning s := by
  unfold Due at hnot
  rw [not_or, not_not] at hnot
  exact running_eq_zero.mp (h.count.symm.trans hnot.1)

theorem due_step_iff {s t : System} {e : Event} {r : List NdisCall} (h : Inv s) (hnot : ¬ Due s)
    (hs : step s e = .ok (r, t)) : Due t ↔ ¬ NoneRunning t := by
  have ht := inv_step s e r t h hs
  refine ⟨fun hdue => ?_, fun hran => ?_⟩
  · by_cases he : e = .suspend
    · subst he
      obtain ⟨hcount, hevent⟩ := suspend_due hs
      have hz : s.driver.runningModuleCount = 0 := not_not.mp (not_or.mp hnot).1
      unfold Due at hdue
      rw [hcount, hevent hz] at hdue
      exact absurd hdue hnot
    · rcases step_due h he hs with ⟨hcount, hevent⟩ | ⟨-, hran | ⟨-, hran⟩⟩
      · unfold Due at hdue
        rw [hcount, hevent] at hdue
        exact absurd hdue hnot
      · exact absurd (not_due_noneRunning h hnot) hran
      · exact hran
  · by_contra hnot'
    exact hran (not_due_noneRunning ht hnot')

/-- **It is due from the first module on**: at the end of a run, exactly if a module has been
running in it. -/
theorem due_iff_ran {es : List Event} {s : System} (hrun : run step System.init es = .ok s) :
    Due s ↔ ¬ Always step NoneRunning System.init es := by
  have hmain : ∀ (es : List Event) (s t : System), Inv s → ¬ Due s → run step s es = .ok t →
      (Due t ↔ ¬ Always step NoneRunning s es) := by
    intro es
    induction es with
    | nil =>
        intro s t h hnot hrun
        cases hrun
        exact iff_of_false hnot fun hran => hran (not_due_noneRunning h hnot)
    | cons e es ih =>
        intro s t h hnot hrun
        obtain ⟨r, u, hu, ht⟩ := run_cons_ok.mp hrun
        have hinv := inv_step s e r u h hu
        have hcons : Always step NoneRunning s (e :: es) ↔ Always step NoneRunning u es := by
          constructor
          · exact fun hall => hall.2 r u hu
          · refine fun hall => ⟨not_due_noneRunning h hnot, fun r' u' hu' => ?_⟩
            rw [hu] at hu'
            cases hu'
            exact hall
        rw [hcons]
        by_cases hdue : Due u
        · have hend : Due t := (run_invariant (I := fun s => Inv s ∧ Due s)
            (fun s e r t h hs => ⟨inv_step s e r t h.1 hs, h.2.step h.1 hs⟩) ⟨hinv, hdue⟩ ht).2
          exact iff_of_true hend fun hall => (due_step_iff h hnot hu).mp hdue hall.head
        · exact ih u t hinv hdue ht
  refine hmain es System.init s inv_init ?_ hrun
  rintro (hcount | hevent)
  · exact hcount rfl
  · cases hevent

/-- **The wait is for good.** A thread that waits for an event that is not due goes on waiting,
whatever NDIS does. -/
theorem waits_forever {es : List Event} {s t : System} (h : Inv s) (hwait : s.phase = .waiting)
    (hnot : ¬ Due s) (hrun : run step s es = .ok t) : t.phase = .waiting ∧ ¬ Due t := by
  refine (run_invariant (I := fun s => Inv s ∧ s.phase = .waiting ∧ ¬ Due s) ?_
    ⟨h, hwait, hnot⟩ hrun).2
  rintro s e r t ⟨h, hwait, hnot⟩ hs
  have hbusy : s.phase ≠ .idle := by simp [hwait]
  have he : e ≠ .suspend := by
    rintro rfl
    exact hbusy (step_suspend_ok hs).1
  refine ⟨inv_step s e r t h hs, (step_waiting h he hs).mpr ⟨hwait, ?_⟩, ?_⟩
  · -- The event it waits for is not set.
    rintro rfl
    exact hnot (Or.inr (step_suspendReturns_ok.mp hs).2.1)
  · rcases step_due h he hs with ⟨hcount, hevent⟩ | ⟨-, hran | ⟨hidle, -⟩⟩
    · unfold Due
      rw [hcount, hevent]
      exact hnot
    · exact absurd (not_due_noneRunning h hnot) hran
    · exact absurd hidle hbusy

end Ntfw.Ntfwkm
