import Ntfw.Ntfwkm.Driver
import Ntfw.Lib.Transition
import Ntfw.Lib.Counting

set_option autoImplicit false

/-! # Modules, counter, signal and event

What the driver and NDIS hold of the filter modules, and how the counter, the signal and the
event of a restart request follow it. The invariant holds after every step, in whatever order
NDIS makes its callbacks. -/

namespace Ntfw.Ntfwkm

open Counting (count)

/-! ## The callbacks, once the lock is free -/

theorem acquireDriverLock_ok {d d' : Driver} :
    acquireDriverLock d = .ok d' ↔ d.driverLock = false ∧ d' = d := by
  unfold acquireDriverLock
  cases d.driverLock with
  | true => simp
  | false => simp [eq_comm]

theorem acquireDriverLock_of_free {d : Driver} (h : d.driverLock = false) :
    acquireDriverLock d = .ok d := acquireDriverLock_ok.mpr ⟨h, rfl⟩

/-- A callback that takes the lock found it free, and went on from the same driver. -/
theorem locked_ok {α : Type} {d : Driver} {f : Driver → Except Blocked α} {r : α}
    (h : acquireDriverLock d >>= f = .ok r) : d.driverLock = false ∧ f d = .ok r := by
  obtain ⟨d', hacq, hf⟩ := Except.bind_eq_ok.mp h
  obtain ⟨hlock, rfl⟩ := acquireDriverLock_ok.mp hacq
  exact ⟨hlock, hf⟩

/-- A step that was not refused ran its callback. -/
theorem guarded_ok {α β : Type} {c : Prop} [Decidable c] {x : Except Blocked α}
    {f : α → Except Blocked β} {r : β} (h : (if c then .error .refused else x >>= f) = .ok r) :
    ¬ c ∧ ∃ a, x = .ok a ∧ f a = .ok r := by
  split at h
  · cases h
  · rename_i hc
    exact ⟨hc, Except.bind_eq_ok.mp h⟩

/-- **The four ways through `FilterAttach`**: the media check fails, the free list is empty, or its
head moves to the active list, with or without success. -/
theorem filterAttach_cases {d d' : Driver} {media setAttributes : Bool} {r : Option FltModule}
    (h : filterAttach d media setAttributes = .ok (r, d')) :
    (media = false ∧ r = none ∧ d' = d)
    ∨ (media = true ∧ d.fltModuleFreeList = [] ∧ r = none ∧ d' = { d with driverLock := true })
    ∨ (media = true ∧ ∃ m rest, d.fltModuleFreeList = m :: rest
      ∧ r = (if setAttributes then some m else none)
      ∧ d' = { d with
          state := Function.update d.state m .attached
          fltModuleList := d.fltModuleList ++ [m]
          fltModuleFreeList := rest }) := by
  unfold filterAttach at h
  cases media with
  | false =>
      cases h
      exact Or.inl ⟨rfl, rfl, rfl⟩
  | true =>
      rw [if_neg (by simp)] at h
      obtain ⟨-, h⟩ := locked_ok h
      cases hfree : d.fltModuleFreeList with
      | nil =>
          rw [hfree] at h
          cases h
          exact Or.inr (Or.inl ⟨rfl, rfl, rfl, rfl⟩)
      | cons m rest =>
          rw [hfree] at h
          cases h
          exact Or.inr (Or.inr ⟨rfl, m, rest, rfl, rfl, rfl⟩)

/-! ## What the driver and NDIS agree on -/

/-- The modules in the `Running` state. -/
def running (state : FltModule → FilterState) : Nat := count fun m => state m = .running

/-- **The invariant of the driver.** -/
structure Inv (s : System) : Prop where
  /-- Running modules are live, but not conversely. -/
  running_live : ∀ m, s.driver.state m = .running → s.ndis m = .live
  suspended : ∀ m, s.driver.state m = .suspended → s.ndis m = .restarting ∨ s.ndis m = .live
  free : ∀ m ∈ s.driver.fltModuleFreeList, s.ndis m = .absent
  free_nodup : s.driver.fltModuleFreeList.Nodup
  count : s.driver.runningModuleCount = BitVec.ofNat 32 (running s.driver.state)
  signal : s.driver.suspendSignal = true ↔ s.phase ≠ .idle
  /-- Once the event is set under a request, no module runs. -/
  drained : s.phase ≠ .idle → s.driver.suspendCompleteEvent = true →
    ∀ m, s.driver.state m ≠ .running
  configuring : s.phase = .configuring → s.driver.suspendCompleteEvent = true
  /-- A live module that does not run has outlived a request, which left the event set. -/
  stale : s.phase = .idle → (∃ m, s.ndis m = .live ∧ s.driver.state m ≠ .running) →
    s.driver.suspendCompleteEvent = true

theorem inv_init : Inv System.init where
  running_live := fun m h => by cases h
  suspended := fun m h => by cases h
  free := fun _ _ => rfl
  free_nodup := List.nodup_finRange _
  count := by decide
  signal := by simp [System.init, driverEntry]
  drained := fun h => absurd rfl h
  configuring := fun h => by cases h
  stale := by
    rintro - ⟨m, hm, -⟩
    cases hm

theorem running_le (state : FltModule → FilterState) : running state ≤ 8 := by
  have h := Finset.card_filter_le (Finset.univ : Finset FltModule) fun m => state m = .running
  simpa [running, count, MAX_FILTER_MODULES] using h

theorem running_eq_zero {state : FltModule → FilterState} :
    BitVec.ofNat 32 (running state) = 0 ↔ ∀ m, state m ≠ .running := by
  have hle := running_le state
  rw [← BitVec.toNat_inj, BitVec.toNat_ofNat]
  show running state % 2 ^ 32 = 0 ↔ _
  rw [Nat.mod_eq_of_lt (by omega)]
  exact Counting.count_eq_zero

/-- A change of one module's state. -/
theorem running_update (state : FltModule → FilterState) (m : FltModule) (st : FilterState) :
    running (Function.update state m st) + Counting.ind (state m = .running)
      = running state + Counting.ind (st = .running) := by
  have hoff := Counting.count_of_eq_off (P := fun j => Function.update state m st j = .running)
    (Q := fun j => state j = .running) m fun j hj => by
      rw [Function.update_of_ne hj]
  simp only [Function.update_self] at hoff
  exact hoff

theorem running_update_of_ne {state : FltModule → FilterState} {m : FltModule}
    {st : FilterState} (hm : state m ≠ .running) (hst : st ≠ .running) :
    running (Function.update state m st) = running state := by
  have hupd := running_update state m st
  rw [Counting.ind_of_not hm, Counting.ind_of_not hst] at hupd
  exact hupd

/-! ## The steps keep the invariant -/

theorem Inv.not_running {s : System} (h : Inv s) {m : FltModule} (hm : s.ndis m ≠ .live) :
    s.driver.state m ≠ .running := fun hr => hm (h.running_live m hr)

/-- A callback changes the state of its module alone, and leaves the module live if and only
if it leaves it `Running`. -/
structure Moves (s t : System) (m : FltModule) : Prop where
  state : ∀ j, j ≠ m → t.driver.state j = s.driver.state j
  ndis : ∀ j, j ≠ m → t.ndis j = s.ndis j
  phase : t.phase = s.phase
  signal : t.driver.suspendSignal = s.driver.suspendSignal
  live : t.driver.state m = .running ↔ t.ndis m = .live
  suspended : t.driver.state m = .suspended → t.ndis m = .restarting

/-- Both sides' views of the module are set. -/
theorem Moves.of_update {s t : System} {m : FltModule} {st : FilterState} {ndis : NdisState}
    (hstate : t.driver.state = Function.update s.driver.state m st)
    (hndis : t.ndis = Function.update s.ndis m ndis) (hphase : t.phase = s.phase)
    (hsignal : t.driver.suspendSignal = s.driver.suspendSignal)
    (hlive : st = .running ↔ ndis = .live) (hsuspended : st = .suspended → ndis = .restarting) :
    Moves s t m := by
  refine ⟨fun j hj => ?_, fun j hj => ?_, hphase, hsignal, ?_, ?_⟩
  · rw [hstate, Function.update_of_ne hj]
  · rw [hndis, Function.update_of_ne hj]
  · rw [hstate, hndis, Function.update_self, Function.update_self]
    exact hlive
  · rw [hstate, hndis, Function.update_self, Function.update_self]
    exact hsuspended

/-- **One module moves.** What the callback does to the free list, the counter and the event
is left to the caller. -/
theorem Inv.move {s t : System} {m : FltModule} (h : Inv s) (hm : Moves s t m)
    (hfree : ∀ j ∈ t.driver.fltModuleFreeList,
      (j ≠ m ∧ j ∈ s.driver.fltModuleFreeList) ∨ (j = m ∧ t.ndis m = .absent))
    (hnodup : t.driver.fltModuleFreeList.Nodup)
    (hcount : t.driver.runningModuleCount = BitVec.ofNat 32 (running t.driver.state))
    (hevent : s.driver.suspendCompleteEvent = true → t.driver.suspendCompleteEvent = true)
    (hdrained : s.phase ≠ .idle → t.driver.suspendCompleteEvent = true →
      ∀ j, t.driver.state j ≠ .running) : Inv t where
  running_live := by
    intro j hj
    by_cases hjm : j = m
    · subst hjm
      exact hm.live.mp hj
    · rw [hm.ndis j hjm]
      exact h.running_live j (hm.state j hjm ▸ hj)
  suspended := by
    intro j hj
    by_cases hjm : j = m
    · subst hjm
      exact Or.inl (hm.suspended hj)
    · rw [hm.ndis j hjm]
      exact h.suspended j (hm.state j hjm ▸ hj)
  free := by
    intro j hj
    rcases hfree j hj with ⟨hjm, hj⟩ | ⟨rfl, habs⟩
    · rw [hm.ndis j hjm]
      exact h.free j hj
    · exact habs
  free_nodup := hnodup
  count := hcount
  signal := by rw [hm.signal, hm.phase, h.signal]
  drained := fun hp => hdrained (hm.phase ▸ hp)
  configuring := fun hp => hevent (h.configuring (hm.phase ▸ hp))
  stale := by
    rintro hp ⟨j, hlive, hnr⟩
    by_cases hjm : j = m
    · subst hjm
      exact absurd (hm.live.mpr hlive) hnr
    · rw [hm.ndis j hjm] at hlive
      rw [hm.state j hjm] at hnr
      exact hevent (h.stale (hm.phase ▸ hp) ⟨j, hlive, hnr⟩)

/-- A module that moves to any other state than `Running` leaves the others drained. -/
theorem Inv.drained_of_moves {s t : System} {m : FltModule} (h : Inv s) (hm : Moves s t m)
    (hnr : t.driver.state m ≠ .running) (hp : s.phase ≠ .idle)
    (hev : s.driver.suspendCompleteEvent = true) (j : FltModule) :
    t.driver.state j ≠ .running := by
  by_cases hjm : j = m
  · subst hjm
    exact hnr
  · rw [hm.state j hjm]
    exact h.drained hp hev j

/-- A module that was not `Running` moves to another such state, and nothing is counted. -/
theorem Inv.move_uncounted {s t : System} {m : FltModule} (st : FilterState) (h : Inv s)
    (hm : Moves s t m) (hwas : s.driver.state m ≠ .running) (hst : st ≠ .running)
    (hstate : t.driver.state = Function.update s.driver.state m st)
    (hcount : t.driver.runningModuleCount = s.driver.runningModuleCount)
    (hevent : t.driver.suspendCompleteEvent = s.driver.suspendCompleteEvent)
    (hfree : ∀ j ∈ t.driver.fltModuleFreeList,
      (j ≠ m ∧ j ∈ s.driver.fltModuleFreeList) ∨ (j = m ∧ t.ndis m = .absent))
    (hnodup : t.driver.fltModuleFreeList.Nodup) : Inv t := by
  refine h.move hm hfree hnodup ?_ ?_ ?_
  · rw [hcount, hstate, running_update_of_ne hwas hst]
    exact h.count
  · exact fun hev => hevent.trans hev
  · intro hp hev
    refine h.drained_of_moves hm ?_ hp (hevent.symm.trans hev)
    rw [hstate, Function.update_self]
    exact hst

/-- `FilterAttach` takes a module that NDIS does not have from the free list. -/
theorem step_attach_ok {s t : System} {media setAttributes : Bool} {r : List NdisCall}
    (h : Inv s) (hs : step s (.attach media setAttributes) = .ok (r, t)) :
    (∃ lock, t = { s with driver := { s.driver with driverLock := lock } })
    ∨ ∃ m rest, s.driver.fltModuleFreeList = m :: rest ∧ Moves s t m
      ∧ t.driver = { s.driver with
          state := Function.update s.driver.state m .attached
          fltModuleList := s.driver.fltModuleList ++ [m]
          fltModuleFreeList := rest } := by
  rw [step, Except.bind_eq_ok] at hs
  obtain ⟨⟨r', d'⟩, hd, hs⟩ := hs
  cases hs
  rcases filterAttach_cases hd with ⟨-, rfl, rfl⟩ | ⟨-, -, rfl, rfl⟩ | ⟨-, m, rest, hfree, hr, rfl⟩
  · exact Or.inl ⟨s.driver.driverLock, rfl⟩
  · exact Or.inl ⟨true, rfl⟩
  · have habs : s.ndis m = .absent := h.free m (by simp [hfree])
    refine Or.inr ⟨m, rest, hfree, ?_, rfl⟩
    -- NDIS takes the module as paused, or the module is lost to it.
    cases setAttributes with
    | true =>
        obtain rfl : r' = some m := hr
        exact .of_update rfl rfl rfl rfl (by simp) (by simp)
    | false =>
        obtain rfl : r' = none := hr
        exact ⟨fun j hj => Function.update_of_ne hj _ _, fun _ _ => rfl, rfl, rfl,
          by simp [habs], by simp⟩

theorem inv_attach {s t : System} {media setAttributes : Bool} {r : List NdisCall} (h : Inv s)
    (hs : step s (.attach media setAttributes) = .ok (r, t)) : Inv t := by
  rcases step_attach_ok h hs with ⟨lock, rfl⟩ | ⟨m, rest, hfree, hm, hd⟩
  · exact ⟨h.running_live, h.suspended, h.free, h.free_nodup, h.count, h.signal, h.drained,
      h.configuring, h.stale⟩
  · have habs : s.ndis m = .absent := h.free m (by simp [hfree])
    have hnr := h.not_running (m := m) (by simp [habs])
    have hnodup := h.free_nodup
    rw [hfree, List.nodup_cons] at hnodup
    refine h.move_uncounted .attached hm hnr (by decide) (by rw [hd]) (by rw [hd])
      (by rw [hd]) ?_ ?_
    · rw [hd, hfree]
      exact fun j hj =>
        Or.inl ⟨fun hjm => hnodup.1 (hjm ▸ hj), List.mem_cons_of_mem _ hj⟩
    · rw [hd]
      exact hnodup.2

/-- `FilterDetach` frees a module that is not live. -/
theorem step_detach_ok {s t : System} {m : FltModule} {r : List NdisCall}
    (hs : step s (.detach m) = .ok (r, t)) :
    s.ndis m ≠ .absent ∧ s.ndis m ≠ .live ∧ Moves s t m ∧ t.ndis m = .absent
      ∧ t.driver = { s.driver with
          state := Function.update s.driver.state m .detached
          fltModuleList := s.driver.fltModuleList.erase m
          fltModuleFreeList := m :: s.driver.fltModuleFreeList } := by
  obtain ⟨hndis, d', hd, hs⟩ := guarded_ok hs
  obtain ⟨hthere, hnotlive⟩ := not_or.mp hndis
  obtain ⟨-, hd⟩ := locked_ok hd
  cases hd
  cases hs
  exact ⟨hthere, hnotlive, .of_update rfl rfl rfl rfl (by simp) (by simp),
    Function.update_self _ _ _, rfl⟩

theorem inv_detach {s t : System} {m : FltModule} {r : List NdisCall} (h : Inv s)
    (hs : step s (.detach m) = .ok (r, t)) : Inv t := by
  obtain ⟨hthere, hnotlive, hm, habs, hd⟩ := step_detach_ok hs
  have hnr := h.not_running hnotlive
  have hnew : m ∉ s.driver.fltModuleFreeList := fun hm => hthere (h.free m hm)
  refine h.move_uncounted .detached hm hnr (by decide) (by rw [hd]) (by rw [hd])
    (by rw [hd]) ?_ ?_
  · rw [hd]
    intro j hj
    rcases List.mem_cons.mp hj with rfl | hj
    · exact Or.inr ⟨rfl, habs⟩
    · exact Or.inl ⟨fun hjm => hnew (hjm ▸ hj), hj⟩
  · rw [hd]
    exact List.nodup_cons.mpr ⟨hnew, h.free_nodup⟩

/-- `FilterPause` on a live module: it counts the module off if it was `Running`, and sets
the event if it was the last. -/
theorem step_pause_ok {s t : System} {m : FltModule} {r : List NdisCall}
    (hs : step s (.pause m) = .ok (r, t)) :
    s.ndis m = .live ∧ Moves s t m ∧ ∃ count event,
      t = { s with
        driver := { s.driver with
          state := Function.update s.driver.state m .paused
          runningModuleCount := count
          suspendCompleteEvent := event }
        ndis := Function.update s.ndis m .paused }
      ∧ ((s.driver.state m ≠ .running ∧ count = s.driver.runningModuleCount
          ∧ event = s.driver.suspendCompleteEvent)
        ∨ (s.driver.state m = .running ∧ count = s.driver.runningModuleCount - 1
          ∧ event = (decide (count = 0) || s.driver.suspendCompleteEvent))) := by
  obtain ⟨hndis, d', hd, hs⟩ := guarded_ok hs
  obtain ⟨-, hd⟩ := locked_ok hd
  cases hs
  refine ⟨not_not.mp hndis, ?_⟩
  have hmoves : ∀ count event, Moves s
      ⟨setModuleState { s.driver with
        runningModuleCount := count, suspendCompleteEvent := event } m .paused,
        Function.update s.ndis m .paused, s.phase⟩ m := by
    exact fun _ _ => .of_update rfl rfl rfl rfl (by simp) (by simp)
  -- Only a module that runs is counted off, and the last of them sets the event.
  by_cases hr : s.driver.state m = .running
  · simp only [hr, if_true] at hd
    by_cases hz : s.driver.runningModuleCount - 1 = 0
    · rw [if_pos hz] at hd
      cases hd
      exact ⟨hmoves _ _, _, _, rfl,
        Or.inr ⟨hr, rfl, by rw [decide_eq_true hz, Bool.true_or]⟩⟩
    · rw [if_neg hz] at hd
      cases hd
      exact ⟨hmoves _ _, _, _, rfl,
        Or.inr ⟨hr, rfl, by rw [decide_eq_false hz, Bool.false_or]⟩⟩
  · simp only [hr, if_false] at hd
    cases hd
    exact ⟨hmoves _ _, _, _, rfl, Or.inl ⟨hr, rfl, rfl⟩⟩

/-- `FilterPause` keeps the counter in step. -/
theorem pause_count {s : System} {m : FltModule} {count : u32} (h : Inv s)
    (hcase : (s.driver.state m ≠ .running ∧ count = s.driver.runningModuleCount)
      ∨ (s.driver.state m = .running ∧ count = s.driver.runningModuleCount - 1)) :
    count = BitVec.ofNat 32 (running (Function.update s.driver.state m .paused)) := by
  have hupd := running_update s.driver.state m .paused
  rw [Counting.ind_of_not (p := FilterState.paused = .running) (by decide), Nat.add_zero] at hupd
  rcases hcase with ⟨hr, rfl⟩ | ⟨hr, rfl⟩
  · rw [Counting.ind_of_not hr, Nat.add_zero] at hupd
    rw [h.count, hupd]
  · rw [Counting.ind_of hr] at hupd
    rw [h.count, ← hupd, BitVec.ofNat_add]
    exact BitVec.add_sub_cancel _ _

theorem inv_pause {s t : System} {m : FltModule} {r : List NdisCall} (h : Inv s)
    (hs : step s (.pause m) = .ok (r, t)) : Inv t := by
  obtain ⟨hlive, hm, count, event, rfl, hcase⟩ := step_pause_ok hs
  have hcount := pause_count h (hcase.imp (fun c => ⟨c.1, c.2.1⟩) fun c => ⟨c.1, c.2.1⟩)
  refine h.move hm ?_ h.free_nodup hcount ?_ ?_
  · intro j hj
    refine Or.inl ⟨?_, hj⟩
    rintro rfl
    rw [h.free j hj] at hlive
    cases hlive
  · intro hev
    rcases hcase with ⟨-, -, rfl⟩ | ⟨-, -, rfl⟩
    · exact hev
    · exact Bool.or_eq_true_iff.mpr (Or.inr hev)
  · intro hp hev
    have hnr : Function.update s.driver.state m .paused m ≠ .running := by simp
    rcases hcase with ⟨-, -, rfl⟩ | ⟨-, -, rfl⟩
    · exact h.drained_of_moves hm hnr hp hev
    · rcases Bool.or_eq_true_iff.mp hev with hz | hev
      · exact running_eq_zero.mp (hcount.symm.trans (of_decide_eq_true hz))
      · exact h.drained_of_moves hm hnr hp hev

/-- `FilterRestart` completes the restart, or under a request leaves the module `Suspended`. -/
theorem filterRestart_ok {d d' : Driver} {m : FltModule} {complete : Bool}
    (h : filterRestart d m = .ok (complete, d')) :
    (d.suspendSignal = true ∧ complete = false
      ∧ d' = { d with state := Function.update d.state m .suspended })
    ∨ (d.suspendSignal = false ∧ complete = true
      ∧ d' = { d with
          state := Function.update d.state m .running
          runningModuleCount := d.runningModuleCount + 1 }) := by
  obtain ⟨-, h⟩ := locked_ok h
  simp only [setModuleState, Function.update_idem] at h
  by_cases hsig : d.suspendSignal = true
  · rw [if_pos hsig] at h
    cases h
    exact Or.inl ⟨hsig, rfl, rfl⟩
  · rw [if_neg hsig] at h
    cases h
    exact Or.inr ⟨Bool.not_eq_true _ ▸ hsig, rfl, rfl⟩

theorem step_restart_ok {s t : System} {m : FltModule} {r : List NdisCall}
    (hs : step s (.restart m) = .ok (r, t)) :
    s.ndis m = .paused ∧ Moves s t m
      ∧ ((s.driver.suspendSignal = true
          ∧ t.driver = { s.driver with state := Function.update s.driver.state m .suspended })
        ∨ (s.driver.suspendSignal = false
          ∧ t.driver = { s.driver with
              state := Function.update s.driver.state m .running
              runningModuleCount := s.driver.runningModuleCount + 1 })) := by
  obtain ⟨hndis, ⟨complete, d'⟩, hd, hs⟩ := guarded_ok hs
  cases hs
  refine ⟨not_not.mp hndis, ?_⟩
  rcases filterRestart_ok hd with ⟨hsig, rfl, rfl⟩ | ⟨hsig, rfl, rfl⟩
  · exact ⟨.of_update rfl rfl rfl rfl (by simp) (by simp), Or.inl ⟨hsig, rfl⟩⟩
  · exact ⟨.of_update rfl rfl rfl rfl (by simp) (by simp), Or.inr ⟨hsig, rfl⟩⟩

theorem inv_restart {s t : System} {m : FltModule} {r : List NdisCall} (h : Inv s)
    (hs : step s (.restart m) = .ok (r, t)) : Inv t := by
  obtain ⟨hndis, hm, hcase⟩ := step_restart_ok hs
  have hnr := h.not_running (m := m) (by simp [hndis])
  have hfree : ∀ j ∈ s.driver.fltModuleFreeList, j ≠ m ∧ j ∈ s.driver.fltModuleFreeList := by
    intro j hj
    refine ⟨?_, hj⟩
    rintro rfl
    rw [h.free j hj] at hndis
    cases hndis
  rcases hcase with ⟨-, hd⟩ | ⟨hsig, hd⟩
  · refine h.move_uncounted .suspended hm hnr (by decide) (by rw [hd]) (by rw [hd])
      (by rw [hd]) ?_ ?_
    · rw [hd]
      exact fun j hj => Or.inl (hfree j hj)
    · rw [hd]
      exact h.free_nodup
  · refine h.move hm ?_ ?_ ?_ ?_ ?_
    · rw [hd]
      exact fun j hj => Or.inl (hfree j hj)
    · rw [hd]
      exact h.free_nodup
    · have hupd := running_update s.driver.state m .running
      rw [Counting.ind_of_not hnr, Counting.ind_of rfl, Nat.add_zero] at hupd
      rw [hd]
      calc s.driver.runningModuleCount + 1
          = BitVec.ofNat 32 (running s.driver.state + 1) := by
            rw [h.count, BitVec.ofNat_add]
            rfl
        _ = _ := congrArg _ hupd.symm
    · rw [hd]
      exact id
    · intro hp
      rw [h.signal.mpr hp] at hsig
      cases hsig

/-- What `Suspend` does before it waits. -/
theorem step_suspend_ok {s t : System} {r : List NdisCall} (hs : step s .suspend = .ok (r, t)) :
    s.phase = .idle ∧ s.driver.driverLock = false
      ∧ t = { s with
          driver := { s.driver with
            suspendSignal := true
            suspendCompleteEvent :=
              decide (s.driver.runningModuleCount = 0) && s.driver.suspendCompleteEvent }
          phase := .waiting } := by
  obtain ⟨hphase, ⟨calls, d'⟩, hd, hs⟩ := guarded_ok hs
  cases hs
  obtain ⟨hlock, hd⟩ := locked_ok hd
  refine ⟨not_not.mp hphase, hlock, ?_⟩
  dsimp only at hd
  by_cases hz : s.driver.runningModuleCount = 0
  · rw [if_neg (not_not_intro hz)] at hd
    cases hd
    rw [decide_eq_true hz, Bool.true_and]
  · rw [if_pos hz] at hd
    cases hd
    rw [decide_eq_false hz, Bool.false_and]

theorem inv_suspend {s t : System} {r : List NdisCall} (h : Inv s)
    (hs : step s .suspend = .ok (r, t)) : Inv t := by
  obtain ⟨-, -, rfl⟩ := step_suspend_ok hs
  refine ⟨h.running_live, h.suspended, h.free, h.free_nodup, h.count, by simp, ?_, ?_, ?_⟩
  · intro _ hev
    obtain ⟨hz, -⟩ := Bool.and_eq_true_iff.mp hev
    exact running_eq_zero.mp (h.count.symm.trans (of_decide_eq_true hz))
  · intro hp
    cases hp
  · intro hp
    cases hp

theorem step_suspendReturns_ok {s t : System} {r : List NdisCall} :
    step s .suspendReturns = .ok (r, t) ↔ s.phase = .waiting
      ∧ s.driver.suspendCompleteEvent = true ∧ r = [] ∧ t = { s with phase := .configuring } := by
  simp only [step]
  constructor
  · intro hs
    split at hs
    · cases hs
    · rename_i hcond
      cases hs
      simpa using hcond
  · rintro ⟨hp, hev, rfl, rfl⟩
    rw [if_neg (by simp [hp, hev])]

theorem inv_suspendReturns {s t : System} {r : List NdisCall} (h : Inv s)
    (hs : step s .suspendReturns = .ok (r, t)) : Inv t := by
  obtain ⟨hp, hev, -, rfl⟩ := step_suspendReturns_ok.mp hs
  have hbusy : s.phase ≠ .idle := by simp [hp]
  refine ⟨h.running_live, h.suspended, h.free, h.free_nodup, h.count, ?_, ?_, fun _ => hev, ?_⟩
  · exact iff_of_true (h.signal.mpr hbusy) (by simp)
  · exact fun _ => h.drained hbusy
  · intro hidle
    cases hidle

/-- `Resume` completes the pending restarts and leaves the modules as they are. -/
theorem step_resume_ok {s t : System} {r : List NdisCall} (hs : step s .resume = .ok (r, t)) :
    s.phase = .configuring
      ∧ t = { s with
          driver := { s.driver with suspendSignal := false }
          ndis := completeRestarts s.ndis r
          phase := .idle }
      ∧ ∀ m, .restartComplete m ∈ r → s.driver.state m = .suspended := by
  obtain ⟨hphase, ⟨calls, d'⟩, hd, hs⟩ := guarded_ok hs
  cases hs
  obtain ⟨-, hd⟩ := locked_ok hd
  cases hd
  refine ⟨not_not.mp hphase, rfl, ?_⟩
  intro m hm
  obtain ⟨j, hj, hjm⟩ := List.mem_map.mp hm
  cases hjm
  exact of_decide_eq_true (List.mem_filter.mp hj).2

theorem inv_resume {s t : System} {r : List NdisCall} (h : Inv s)
    (hs : step s .resume = .ok (r, t)) : Inv t := by
  obtain ⟨hp, rfl, hcalls⟩ := step_resume_ok hs
  refine ⟨?_, ?_, ?_, h.free_nodup, h.count, by simp, ?_, ?_, ?_⟩
  · intro m hm
    show completeRestarts s.ndis r m = .live
    rw [completeRestarts, h.running_live m hm, ite_self]
  · intro m hm
    show completeRestarts s.ndis r m = .restarting ∨ completeRestarts s.ndis r m = .live
    unfold completeRestarts
    split
    · exact Or.inr rfl
    · exact h.suspended m hm
  · intro m hm
    have habs : s.ndis m = .absent := h.free m hm
    have hnot : .restartComplete m ∉ r := by
      intro hmem
      rcases h.suspended m (hcalls m hmem) with hm | hm
      · simp [habs] at hm
      · simp [habs] at hm
    show completeRestarts s.ndis r m = .absent
    rw [completeRestarts, if_neg hnot, habs]
  · exact fun hidle => absurd rfl hidle
  · intro hconf
    cases hconf
  · exact fun _ _ => h.configuring hp

/-- **The driver keeps its invariant**, whatever NDIS and the requests do next. -/
theorem inv_step (s : System) (e : Event) (r : List NdisCall) (t : System) (h : Inv s)
    (hs : step s e = .ok (r, t)) : Inv t := by
  cases e with
  | attach media setAttributes => exact inv_attach h hs
  | detach m => exact inv_detach h hs
  | pause m => exact inv_pause h hs
  | restart m => exact inv_restart h hs
  | suspend => exact inv_suspend h hs
  | suspendReturns => exact inv_suspendReturns h hs
  | resume => exact inv_resume h hs

end Ntfw.Ntfwkm
