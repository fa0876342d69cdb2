import Ntfw.Driver.Modules

set_option autoImplicit false

/-! # Failed attaches

`FilterAttach` has three ways to fail: before it takes the lock, under the lock and after it. Only
the first leaves the driver as it was. The second returns with the lock, and the third leaves the
module on the active list, where nobody will ever detach it. -/

namespace Ntfw.Ntfwkm

open Transition

/-! ## What an attach may leave -/

/-- **The lock is free, every module is on one of the two lists, and those on the active list are
attached.** -/
structure Clean (s : System) : Prop where
  lock : s.driver.driverLock = false
  active_nodup : s.driver.fltModuleList.Nodup
  free_nodup : s.driver.fltModuleFreeList.Nodup
  one_list : ∀ m, m ∈ s.driver.fltModuleList ↔ m ∉ s.driver.fltModuleFreeList
  attached : ∀ m ∈ s.driver.fltModuleList, s.ndis m ≠ .absent

/-- A step that is a failing attach changes nothing in the driver. -/
def FailsClean (s : System) (e : Event) : Prop :=
  ∀ media setAttributes d, e = .attach media setAttributes →
    filterAttach s.driver media setAttributes = .ok (none, d) → d = s.driver

/-- The condition on a step: an attach over a supported medium finds a free module, and
`NdisFSetAttributes` succeeds. -/
def StepAttaches (s : System) (e : Event) : Prop :=
  ∀ setAttributes, e = .attach true setAttributes →
    s.driver.fltModuleFreeList ≠ [] ∧ setAttributes = true

theorem clean_init : Clean System.init where
  lock := rfl
  active_nodup := List.nodup_nil
  free_nodup := List.nodup_finRange _
  one_list := fun m => iff_of_false List.not_mem_nil fun h => h (List.mem_finRange m)
  attached := fun _ h => by cases h

/-! ## One step -/

/-- A step that touches neither the lists nor the lock, and makes no module absent. -/
theorem Clean.keep {s t : System} (h : Clean s) (hlock : t.driver.driverLock = s.driver.driverLock)
    (hactive : t.driver.fltModuleList = s.driver.fltModuleList)
    (hfree : t.driver.fltModuleFreeList = s.driver.fltModuleFreeList)
    (hndis : ∀ m, s.ndis m ≠ .absent → t.ndis m ≠ .absent) : Clean t := by
  refine ⟨hlock.trans h.lock, hactive ▸ h.active_nodup, hfree ▸ h.free_nodup, ?_, ?_⟩
  · rw [hactive, hfree]
    exact h.one_list
  · rw [hactive]
    exact fun m hm => hndis m (h.attached m hm)

/-- A module that moves from the head of the free list to the active list. -/
theorem Clean.move {s t : System} {m : FltModule} {rest : List FltModule} (h : Clean s)
    (hfree : s.driver.fltModuleFreeList = m :: rest)
    (hd : t.driver = { s.driver with
      state := Function.update s.driver.state m .attached
      fltModuleList := s.driver.fltModuleList ++ [m]
      fltModuleFreeList := rest })
    (hndis : t.ndis = Function.update s.ndis m .paused) : Clean t := by
  have hnodup := h.free_nodup
  rw [hfree, List.nodup_cons] at hnodup
  have hone := h.one_list
  rw [hfree] at hone
  have hnew : m ∉ s.driver.fltModuleList := fun hm => (hone m).mp hm List.mem_cons_self
  refine ⟨?_, ?_, ?_, ?_, ?_⟩
  · rw [hd]
    exact h.lock
  · rw [hd]
    refine List.nodup_append.mpr ⟨h.active_nodup, List.nodup_singleton m, ?_⟩
    rintro a ha b hb rfl
    exact hnew (List.mem_singleton.mp hb ▸ ha)
  · rw [hd]
    exact hnodup.2
  · intro j
    rw [hd]
    show j ∈ s.driver.fltModuleList ++ [m] ↔ j ∉ rest
    rw [List.mem_append, List.mem_singleton, hone j, List.mem_cons, not_or]
    constructor
    · rintro (hj | rfl)
      · exact hj.2
      · exact hnodup.1
    · intro hj
      by_cases hjm : j = m
      · exact Or.inr hjm
      · exact Or.inl ⟨hjm, hj⟩
  · intro j hj
    rw [hd] at hj
    rw [hndis]
    by_cases hjm : j = m
    · rw [hjm, Function.update_self]
      exact nofun
    · rw [Function.update_of_ne hjm]
      exact h.attached j ((List.mem_append.mp hj).resolve_right fun hc =>
        hjm (List.mem_singleton.mp hc))

theorem clean_attach {s t : System} {media setAttributes : Bool} {r : List NdisCall} (hi : Inv s)
    (h : Clean s) (hs : step s (.attach media setAttributes) = .ok (r, t)) :
    Clean t ↔ StepAttaches s (.attach media setAttributes) := by
  unfold StepAttaches
  rw [step, Except.bind_eq_ok] at hs
  obtain ⟨⟨r', d'⟩, hd, hs⟩ := hs
  cases hs
  rcases filterAttach_cases hd with ⟨rfl, rfl, rfl⟩ | ⟨rfl, hfree, rfl, rfl⟩
    | ⟨rfl, m, rest, hfree, rfl, rfl⟩
  · exact iff_of_true (h.keep rfl rfl rfl fun _ => id) fun _ hc => by cases hc
  · refine iff_of_false (fun ht => ?_) fun hc => (hc setAttributes rfl).1 hfree
    cases ht.lock
  · cases setAttributes with
    | true =>
        refine iff_of_true (h.move hfree rfl rfl) fun a ha => ?_
        cases ha
        exact ⟨by rw [hfree]; exact List.cons_ne_nil m rest, rfl⟩
    | false =>
        -- The module is active now, and NDIS does not know of it.
        refine iff_of_false (fun ht => ?_) fun hc => ?_
        · refine ht.attached m (List.mem_append_right _ (List.mem_singleton_self m)) ?_
          exact hi.free m (by rw [hfree]; exact List.mem_cons_self)
        · cases (hc false rfl).2

/-- A detach moves the module back. -/
theorem clean_detach {s t : System} {m : FltModule} {r : List NdisCall} (hi : Inv s)
    (h : Clean s) (hs : step s (.detach m) = .ok (r, t)) : Clean t := by
  obtain ⟨hthere, -, hm, -, hd⟩ := step_detach_ok hs
  have hnew : m ∉ s.driver.fltModuleFreeList := fun hc => hthere (hi.free m hc)
  refine ⟨?_, ?_, ?_, ?_, ?_⟩
  · rw [hd]
    exact h.lock
  · rw [hd]
    exact h.active_nodup.erase m
  · rw [hd]
    exact List.nodup_cons.mpr ⟨hnew, h.free_nodup⟩
  · intro j
    rw [hd]
    show j ∈ s.driver.fltModuleList.erase m ↔ j ∉ m :: s.driver.fltModuleFreeList
    rw [h.active_nodup.mem_erase_iff, h.one_list j, List.mem_cons, not_or]
  · intro j hj
    rw [hd] at hj
    obtain ⟨hjm, hj⟩ := h.active_nodup.mem_erase_iff.mp hj
    rw [hm.ndis j hjm]
    exact h.attached j hj

/-- **One step** from a clean state is clean exactly under the condition. -/
theorem clean_step {s t : System} {e : Event} {r : List NdisCall} (hi : Inv s) (h : Clean s)
    (hs : step s e = .ok (r, t)) : Clean t ↔ StepAttaches s e := by
  cases e with
  | attach media setAttributes => exact clean_attach hi h hs
  | detach m => exact iff_of_true (clean_detach hi h hs) nofun
  | pause m =>
      obtain ⟨-, -, count, event, rfl, -⟩ := step_pause_ok hs
      refine iff_of_true (h.keep rfl rfl rfl fun j hj => ?_) nofun
      show Function.update s.ndis m .paused j ≠ .absent
      by_cases hjm : j = m
      · rw [hjm, Function.update_self]
        exact nofun
      · rwa [Function.update_of_ne hjm]
  | restart m =>
      obtain ⟨-, hm, hcase⟩ := step_restart_ok hs
      have hndis : ∀ j, s.ndis j ≠ .absent → t.ndis j ≠ .absent := by
        intro j hj
        by_cases hjm : j = m
        · subst hjm
          intro habs
          -- NDIS takes the module as live or as restarting.
          rcases hcase with ⟨-, hd⟩ | ⟨-, hd⟩
          · have hsus := hm.suspended (by rw [hd]; exact Function.update_self _ _ _)
            rw [habs] at hsus
            cases hsus
          · have hlive := hm.live.mp (by rw [hd]; exact Function.update_self _ _ _)
            rw [habs] at hlive
            cases hlive
        · rwa [hm.ndis j hjm]
      rcases hcase with ⟨-, hd⟩ | ⟨-, hd⟩
      · exact iff_of_true (h.keep (by rw [hd]) (by rw [hd]) (by rw [hd]) hndis) nofun
      · exact iff_of_true (h.keep (by rw [hd]) (by rw [hd]) (by rw [hd]) hndis) nofun
  | suspend =>
      obtain ⟨-, -, rfl⟩ := step_suspend_ok hs
      exact iff_of_true (h.keep rfl rfl rfl fun _ => id) nofun
  | suspendReturns =>
      obtain ⟨-, -, -, rfl⟩ := step_suspendReturns_ok.mp hs
      exact iff_of_true (h.keep rfl rfl rfl fun _ => id) nofun
  | resume =>
      obtain ⟨-, rfl, -⟩ := step_resume_ok hs
      refine iff_of_true (h.keep rfl rfl rfl fun j hj => ?_) nofun
      show completeRestarts s.ndis r j ≠ .absent
      unfold completeRestarts
      split
      · exact nofun
      · exact hj

/-- Under the condition only the media check fails, before anything is done. -/
theorem failsClean_of_attaches {s : System} {e : Event} (hc : StepAttaches s e) :
    FailsClean s e := by
  rintro media setAttributes d rfl hd
  rcases filterAttach_cases hd with ⟨-, -, rfl⟩ | ⟨rfl, hfree, -, -⟩
    | ⟨rfl, m, rest, -, hr, -⟩
  · rfl
  · exact absurd hfree (hc setAttributes rfl).1
  · rw [(hc setAttributes rfl).2] at hr
    cases hr

/-! ## The exact condition -/

/-- **A failed attach leaves no trace exactly if it fails at the media check.** Over a run from
`DriverEntry`, no attach returns with the lock or leaves a module where it does not belong, and
those that fail change nothing, exactly if every attach over a supported medium finds a free
module and sets its attributes. -/
theorem clean_iff_attaches {es : List Event} {s : System}
    (hrun : run step System.init es = .ok s) :
    (Always step Clean System.init es ∧ Meets step FailsClean System.init es)
      ↔ Meets step StepAttaches System.init es := by
  have hiff := always_iff_meets inv_step (fun _ _ _ _ hi h hs => clean_step hi h hs) inv_init
    clean_init hrun
  exact ⟨fun h => hiff.mp h.1,
    fun h => ⟨hiff.mpr h, Meets.imp (fun _ _ => failsClean_of_attaches) h⟩⟩

/-- The condition at a run with an unsupported medium, an attach and a detach. -/
theorem clean_iff_attaches_once : ∃ s,
    run step System.init [.attach false true, .attach true true, .detach 0] = .ok s
      ∧ ((Always step Clean System.init [.attach false true, .attach true true, .detach 0]
          ∧ Meets step FailsClean System.init [.attach false true, .attach true true, .detach 0])
        ↔ Meets step StepAttaches System.init
          [.attach false true, .attach true true, .detach 0]) :=
  ⟨_, rfl, clean_iff_attaches rfl⟩

/-- **The ninth attach returns with the lock**, and nothing acquires it again. -/
theorem clean_fails : ¬ ∀ es s, run step System.init es = .ok s → Clean s := by
  intro hall
  have hrun : ∃ s, run step System.init (List.replicate 9 (.attach true true)) = .ok s
      ∧ s.driver.driverLock = true := ⟨_, rfl, rfl⟩
  obtain ⟨s, hs, hlock⟩ := hrun
  rw [(hall _ s hs).lock] at hlock
  cases hlock

end Ntfw.Ntfwkm
