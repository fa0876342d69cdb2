import Ntfw.Common.Pce

set_option autoImplicit false

/-! # Filter modules (`ntfwkm/driver.cpp`)

The control path of the filter driver: the callbacks NDIS makes for each module, and the two
halves of a restart request. Every one of them runs under the driver lock, so it is one step;
`Suspend` is two, since it waits for an event after it has released the lock. The lock is a
field only because one path returns with it. A module is its index in `FltModules`. -/

namespace Ntfw.Ntfwkm

def MAX_FILTER_MODULES : Nat := 8

instance : NeZero MAX_FILTER_MODULES := ⟨by decide⟩

/-- `FILTER_STATE`. -/
inductive FilterState where
  | undefined
  | attached
  | pausing
  | paused
  | restarting
  | suspended
  | running
  | detaching
  | detached
  deriving DecidableEq

/-- A module, by its position in `FltModules`. -/
abbrev FltModule := Fin MAX_FILTER_MODULES

/-- The globals of the driver. -/
structure Driver where
  state : FltModule → FilterState
  fltModuleList : List FltModule
  fltModuleFreeList : List FltModule
  runningModuleCount : u32
  suspendSignal : Bool
  suspendCompleteEvent : Bool
  /-- A routine has returned without releasing the lock. -/
  driverLock : Bool

/-- The globals after `DriverEntry`, which pushes the last module first. -/
def driverEntry : Driver where
  state := fun _ => .undefined
  fltModuleList := []
  fltModuleFreeList := List.finRange MAX_FILTER_MODULES
  runningModuleCount := 0
  suspendSignal := false
  suspendCompleteEvent := false
  driverLock := false

/-- Why a step is not taken: a routine waits for the lock, or the event does not occur in
this state. -/
inductive Blocked where
  | spin
  | refused
  deriving DecidableEq

/-- A call of the driver into NDIS. -/
inductive NdisCall where
  | restartFilter (m : FltModule)
  | restartComplete (m : FltModule)
  deriving DecidableEq

/-- `ACQUIRE_DRIVER_LOCK`. -/
def acquireDriverLock (d : Driver) : Except Blocked Driver :=
  if d.driverLock then .error .spin else .ok d

/-- `SetModuleState`. -/
def setModuleState (d : Driver) (m : FltModule) (st : FilterState) : Driver :=
  { d with state := Function.update d.state m st }

/-! ## Callbacks -/

/-- `FilterAttach`, for whether the medium is supported and whether `NdisFSetAttributes`
succeeds: the module, if the call does. Without a free module it returns with the lock. -/
def filterAttach (d : Driver) (media setAttributes : Bool) :
    Except Blocked (Option FltModule × Driver) :=
  if !media then .ok (none, d)
  else
  acquireDriverLock d >>= fun d =>
  match d.fltModuleFreeList with
  | [] => .ok (none, { d with driverLock := true })
  | m :: rest =>
      let d := { d with fltModuleList := d.fltModuleList ++ [m], fltModuleFreeList := rest }
      let d := setModuleState d m .attached
      .ok (if setAttributes then some m else none, d)

/-- `FilterDetach`. -/
def filterDetach (d : Driver) (m : FltModule) : Except Blocked Driver :=
  acquireDriverLock d >>= fun d =>
  let d := setModuleState d m .detached
  .ok { d with fltModuleList := d.fltModuleList.erase m,
               fltModuleFreeList := m :: d.fltModuleFreeList }

/-- `FilterPause`. -/
def filterPause (d : Driver) (m : FltModule) : Except Blocked Driver :=
  acquireDriverLock d >>= fun d =>
  let d :=
    if d.state m = .running then
      let d := { d with runningModuleCount := d.runningModuleCount - 1 }
      if d.runningModuleCount = 0 then { d with suspendCompleteEvent := true } else d
    else d
  .ok (setModuleState d m .paused)

/-- `FilterRestart`; the answer is whether the restart is complete or pending. -/
def filterRestart (d : Driver) (m : FltModule) : Except Blocked (Bool × Driver) :=
  acquireDriverLock d >>= fun d =>
  let d := setModuleState d m .restarting
  if d.suspendSignal then .ok (false, setModuleState d m .suspended)
  else
    let d := { d with runningModuleCount := d.runningModuleCount + 1 }
    .ok (true, setModuleState d m .running)

/-! ## The restart request -/

/-- `Suspend`, up to its wait for the event. -/
def suspend (d : Driver) : Except Blocked (List NdisCall × Driver) :=
  acquireDriverLock d >>= fun d =>
  let d := { d with suspendSignal := true }
  if d.runningModuleCount ≠ 0 then
    .ok ((d.fltModuleList.filter (fun m => d.state m = .running)).map .restartFilter,
      { d with suspendCompleteEvent := false })
  else .ok ([], d)

/-- `Resume`. -/
def resume (d : Driver) : Except Blocked (List NdisCall × Driver) :=
  acquireDriverLock d >>= fun d =>
  let d := { d with suspendSignal := false }
  .ok ((d.fltModuleList.filter (fun m => d.state m = .suspended)).map .restartComplete, d)

/-! ## The driver under NDIS

NDIS keeps a state of its own for every module. It pauses live modules only, restarts paused
ones only, and detaches none that is live. The requests to restart the engine come one at a
time, `UserMutex` sees to it. -/

/-- What NDIS holds of a module: `live` from the completion of a restart to the next pause. -/
inductive NdisState where
  | absent
  | paused
  | restarting
  | live
  deriving DecidableEq

/-- How far the thread that serves `IOCTL_NTFW_ENGINE_RESTART` has got: `configuring` is
between the return of `Suspend` and the call of `Resume`. -/
inductive Phase where
  | idle
  | waiting
  | configuring
  deriving DecidableEq

structure System where
  driver : Driver
  ndis : FltModule → NdisState
  phase : Phase

/-- The system after `DriverEntry`. -/
def System.init : System := ⟨driverEntry, fun _ => .absent, .idle⟩

inductive Event where
  | attach (media setAttributes : Bool)
  | detach (m : FltModule)
  | pause (m : FltModule)
  | restart (m : FltModule)
  | suspend
  | suspendReturns
  | resume
  deriving DecidableEq

/-- The modules whose restart a list of calls completes become live. -/
def completeRestarts (ndis : FltModule → NdisState) (calls : List NdisCall) :
    FltModule → NdisState :=
  fun m => if .restartComplete m ∈ calls then .live else ndis m

/-- One step; the answer is what the driver calls in NDIS. -/
def step (s : System) : Event → Except Blocked (List NdisCall × System)
  | .attach media setAttributes =>
      filterAttach s.driver media setAttributes >>= fun r =>
      .ok ([], { s with
        driver := r.2
        ndis := match r.1 with
          | some m => Function.update s.ndis m .paused
          | none => s.ndis })
  | .detach m =>
      if s.ndis m = .absent ∨ s.ndis m = .live then .error .refused
      else
      filterDetach s.driver m >>= fun d =>
      .ok ([], { s with driver := d, ndis := Function.update s.ndis m .absent })
  | .pause m =>
      if s.ndis m ≠ .live then .error .refused
      else
      filterPause s.driver m >>= fun d =>
      .ok ([], { s with driver := d, ndis := Function.update s.ndis m .paused })
  | .restart m =>
      if s.ndis m ≠ .paused then .error .refused
      else
      filterRestart s.driver m >>= fun r =>
      .ok ([], { s with
        driver := r.2
        ndis := Function.update s.ndis m (if r.1 then .live else .restarting) })
  | .suspend =>
      if s.phase ≠ .idle then .error .refused
      else
      Ntfwkm.suspend s.driver >>= fun r =>
      .ok (r.1, { s with driver := r.2, phase := .waiting })
  | .suspendReturns =>
      if s.phase ≠ .waiting ∨ !s.driver.suspendCompleteEvent then .error .refused
      else .ok ([], { s with phase := .configuring })
  | .resume =>
      if s.phase ≠ .configuring then .error .refused
      else
      Ntfwkm.resume s.driver >>= fun r =>
      .ok (r.1, { s with
        driver := r.2
        ndis := completeRestarts s.ndis r.1
        phase := .idle })

end Ntfw.Ntfwkm
