import Ntfw.Ntfwkm.Configure
import Ntfw.Lib.Transition

set_option autoImplicit false

/-! # What a restart request reports

The exits of `ConfigureFirewallEngine` share a status variable, and one of them does not write
it: where the buffer for the file cannot be allocated, the status is that of the query before,
which succeeded. -/

namespace Ntfw.Ntfwkm

/-! ## What the request is to report -/

/-- The length the engine is given, the low part of the size of the file. -/
def Outcomes.fileLength (o : Outcomes) : u32 := o.queryInformationFile.2.setWidth 32

/-- **Success is reported exactly if the file was applied**: `ntfe_configure` was called on what
the file holds, and returned true. -/
def ReportsApplied (o : Outcomes) (r : Status × List Action) : Prop :=
  r.1 = STATUS_SUCCESS ↔ .configure o.readFile.2 o.fileLength true ∈ r.2

def Action.openedHandle : Action → Option Handle
  | .opened h => some h
  | _ => none

def Action.closedHandle : Action → Option Handle
  | .closed h => some h
  | _ => none

def Action.allocatedBuffer : Action → Option Buffer
  | .allocated b => some b
  | _ => none

def Action.freedBuffer : Action → Option Buffer
  | .freed b => some b
  | _ => none

/-- **Whatever is opened is closed once, and whatever is allocated is freed once.** -/
structure Released (calls : List Action) : Prop where
  handles : calls.filterMap Action.closedHandle = calls.filterMap Action.openedHandle
  buffers : calls.filterMap Action.freedBuffer = calls.filterMap Action.allocatedBuffer

/-- The buffer is asked for, and there is none. -/
structure AllocationFails (o : Outcomes) : Prop where
  configuration : o.readConfiguration = STATUS_SUCCESS
  file : o.openFile.1 = STATUS_SUCCESS
  information : o.queryInformationFile.1 = STATUS_SUCCESS
  size : ¬ (MAX_NTFE_CFG_SZ : Int) < o.queryInformationFile.2.toInt
  pool : o.allocatePool = none

/-! ## The exits -/

/-- The calls of `ConfigureFirewallEngine` on any path: the file is opened, the buffer allocated,
something neutral is done, and both are disposed of. -/
theorem released_done (handle : Option Handle) (data : Option Buffer) {calls : List Action}
    (hcalls : ∀ a ∈ calls, ∃ cfg cfg_len result, a = .configure cfg cfg_len result) :
    Released ((handle.map Action.opened).toList ++ (data.map Action.allocated).toList ++ calls
      ++ done handle data) := by
  have hnone : ∀ {f : Action → Option Nat}, (∀ cfg len r, f (.configure cfg len r) = none) →
      calls.filterMap f = [] := by
    intro f hf
    refine List.filterMap_eq_nil_iff.mpr fun a ha => ?_
    obtain ⟨cfg, len, r, rfl⟩ := hcalls a ha
    exact hf cfg len r
  constructor
  · simp only [List.filterMap_append, hnone (f := Action.closedHandle) (fun _ _ _ => rfl),
      hnone (f := Action.openedHandle) (fun _ _ _ => rfl), done]
    cases handle <;> cases data <;> rfl
  · simp only [List.filterMap_append, hnone (f := Action.freedBuffer) (fun _ _ _ => rfl),
      hnone (f := Action.allocatedBuffer) (fun _ _ _ => rfl), done]
    cases handle <;> cases data <;> rfl

/-- Nothing is configured by the other calls. -/
theorem configure_mem (handle : Option Handle) (data : Option Buffer) {calls : List Action}
    {cfg : NtfeConfig} {cfg_len : u32} {result : Bool} :
    .configure cfg cfg_len result ∈ (handle.map Action.opened).toList
        ++ (data.map Action.allocated).toList ++ calls ++ done handle data
      ↔ .configure cfg cfg_len result ∈ calls := by
  unfold done
  cases handle <;> cases data <;> simp

/-- The engine is told of the file once, if it is valid, and success means that it agreed. -/
theorem applyConfiguration_ok {env : Env} {gs gs' : Gs} {status : Status} {cfg : NtfeConfig}
    {cfg_len : u32} {r : Status × List Action} (hstatus : status = STATUS_SUCCESS)
    (h : applyConfiguration env gs status cfg cfg_len = .ok (r, gs')) :
    (∀ a ∈ r.2, ∃ result, a = .configure cfg cfg_len result)
      ∧ (r.1 = STATUS_SUCCESS ↔ .configure cfg cfg_len true ∈ r.2) := by
  obtain ⟨ok, hval, h⟩ := Except.bind_eq_ok.mp h
  cases ok with
  | false =>
      cases h
      exact ⟨nofun, iff_of_false (by decide) nofun⟩
  | true =>
      obtain ⟨⟨ok, gs₁⟩, hconf, h⟩ := Except.bind_eq_ok.mp h
      cases h
      subst hstatus
      cases ok with
      | false =>
          refine ⟨by simp, iff_of_false ?_ (by simp)⟩
          show ¬ STATUS_INTERNAL_ERROR = STATUS_SUCCESS
          decide
      | true => exact ⟨by simp, iff_of_true rfl (by simp)⟩

/-- An exit before the engine is called: nothing is configured, and what there is is released. -/
theorem exit_unconfigured (handle : Option Handle) (data : Option Buffer) {calls : List Action}
    (hcalls : calls = (handle.map Action.opened).toList ++ (data.map Action.allocated).toList) :
    Released (calls ++ done handle data)
      ∧ ∀ cfg cfg_len result, .configure cfg cfg_len result ∉ calls ++ done handle data := by
  have heq : calls ++ done handle data = (handle.map Action.opened).toList
      ++ (data.map Action.allocated).toList ++ [] ++ done handle data := by
    rw [hcalls, List.append_nil]
  rw [heq]
  refine ⟨released_done handle data nofun, fun cfg cfg_len result h => ?_⟩
  exact absurd ((configure_mem handle data).mp h) List.not_mem_nil

/-- An exit without a call of `ntfe_configure` reports as it should if it reports a failure. -/
theorem reportsApplied_of_failure {o : Outcomes} {r : Status × List Action}
    (hstatus : r.1 ≠ STATUS_SUCCESS)
    (hnone : ∀ cfg cfg_len result, .configure cfg cfg_len result ∉ r.2) : ReportsApplied o r :=
  iff_of_false hstatus (hnone _ _ true)

/-- Once the buffer is there, the status is that of the read or of what becomes of the file. -/
theorem configureFirewallEngine_of_buffer {env : Env} {gs gs' : Gs} {o : Outcomes} {data : Buffer}
    {r : Status × List Action} (hreg : o.readConfiguration = STATUS_SUCCESS)
    (hopen : o.openFile.1 = STATUS_SUCCESS) (hquery : o.queryInformationFile.1 = STATUS_SUCCESS)
    (hsize : ¬ (MAX_NTFE_CFG_SZ : Int) < o.queryInformationFile.2.toInt)
    (hpool : o.allocatePool = some data)
    (h : configureFirewallEngine env gs o = .ok (r, gs')) : ReportsApplied o r ∧ Released r.2 := by
  unfold configureFirewallEngine at h
  dsimp only at h
  rw [if_neg (not_not.mpr hreg), if_neg (not_not.mpr hopen), if_neg (not_not.mpr hquery),
    if_neg hsize, hpool] at h
  dsimp only at h
  by_cases hread : o.readFile.1 ≠ STATUS_SUCCESS
  · rw [if_pos hread] at h
    cases h
    obtain ⟨hreleased, hnone⟩ := exit_unconfigured o.openFile.2 (some data) rfl
    exact ⟨reportsApplied_of_failure hread hnone, hreleased⟩
  · rw [if_neg hread] at h
    obtain ⟨⟨⟨status, calls⟩, gs₁⟩, happ, h⟩ := Except.bind_eq_ok.mp h
    cases h
    obtain ⟨hcalls, hiff⟩ := applyConfiguration_ok (not_not.mp hread) happ
    refine ⟨hiff.trans (configure_mem o.openFile.2 (some data)).symm,
      released_done o.openFile.2 (some data) fun a ha => ?_⟩
    obtain ⟨result, ha⟩ := hcalls a ha
    exact ⟨_, _, result, ha⟩

/-- Where there is no buffer, the query has succeeded, and its status is what is returned. -/
theorem configureFirewallEngine_of_no_buffer (env : Env) (gs : Gs) {o : Outcomes}
    (hfails : AllocationFails o) : configureFirewallEngine env gs o
      = .ok ((STATUS_SUCCESS, (o.openFile.2.map Action.opened).toList ++ done o.openFile.2 none),
        gs) := by
  unfold configureFirewallEngine
  dsimp only
  rw [if_neg (not_not.mpr hfails.configuration), if_neg (not_not.mpr hfails.file),
    if_neg (not_not.mpr hfails.information), if_neg hfails.size, hfails.pool, hfails.information]

/-- **A restart request reports success exactly if a configuration was applied, unless the buffer
for the file could not be allocated.** Handle and buffer are released on every path. -/
theorem reportsApplied_iff (env : Env) (gs : Gs) (o : Outcomes) :
    (∀ r gs', configureFirewallEngine env gs o = .ok (r, gs') →
      ReportsApplied o r ∧ Released r.2) ↔ ¬ AllocationFails o := by
  obtain ⟨hreleased, hnone⟩ := exit_unconfigured o.openFile.2 none (List.append_nil _).symm
  constructor
  · intro h hfails
    obtain ⟨happlied, -⟩ := h _ gs (configureFirewallEngine_of_no_buffer env gs hfails)
    exact hnone _ _ _ (happlied.mp rfl)
  · intro hfails r gs' h
    have h₀ := h
    unfold configureFirewallEngine at h
    dsimp only at h
    by_cases hreg : o.readConfiguration ≠ STATUS_SUCCESS
    · rw [if_pos hreg] at h
      cases h
      exact ⟨reportsApplied_of_failure hreg nofun, ⟨rfl, rfl⟩⟩
    rw [if_neg hreg] at h
    by_cases hopen : o.openFile.1 ≠ STATUS_SUCCESS
    · rw [if_pos hopen] at h
      cases h
      exact ⟨reportsApplied_of_failure hopen hnone, hreleased⟩
    rw [if_neg hopen] at h
    by_cases hquery : o.queryInformationFile.1 ≠ STATUS_SUCCESS
    · rw [if_pos hquery] at h
      cases h
      exact ⟨reportsApplied_of_failure hquery hnone, hreleased⟩
    rw [if_neg hquery] at h
    by_cases hsize : (MAX_NTFE_CFG_SZ : Int) < o.queryInformationFile.2.toInt
    · rw [if_pos hsize] at h
      cases h
      refine ⟨reportsApplied_of_failure ?_ hnone, hreleased⟩
      show STATUS_FILE_TOO_LARGE ≠ STATUS_SUCCESS
      decide
    rw [not_not] at hreg hopen hquery
    cases hpool : o.allocatePool with
    | none => exact absurd ⟨hreg, hopen, hquery, hsize, hpool⟩ hfails
    | some data => exact configureFirewallEngine_of_buffer hreg hopen hquery hsize hpool h₀

/-- What the system returns on a machine that is short of memory. -/
def outOfMemory : Outcomes where
  readConfiguration := STATUS_SUCCESS
  openFile := (STATUS_SUCCESS, some 1)
  queryInformationFile := (STATUS_SUCCESS, 100)
  allocatePool := none
  readFile := (STATUS_SUCCESS, fun _ => 0)

/-- **Success is reported, and nothing was applied**: there was no memory for the file. -/
theorem reportsApplied_fails : ¬ ∀ (env : Env) (gs : Gs) (o : Outcomes) (r : Status × List Action)
    (gs' : Gs), configureFirewallEngine env gs o = .ok (r, gs') →
      ReportsApplied o r ∧ Released r.2 := by
  intro hclaim
  have happlied := (hclaim ⟨0, false, 0⟩ Gs.zero outOfMemory
    (STATUS_SUCCESS, [.opened 1, .closed 1]) Gs.zero rfl).1
  exact absurd (happlied.mp rfl) (by simp)

/-! ## The request returns -/

/-- The engine returns on the file. -/
def EngineReturns (env : Env) (gs : Gs) (cfg : NtfeConfig) (cfg_len : u32) : Prop :=
  ∃ ok, ntfeValidateConfiguration gs cfg cfg_len = .ok ok
    ∧ (ok = true → ∃ r, ntfeConfigure env gs cfg cfg_len = .ok r)

/-- The request returns whenever the engine does. -/
theorem configureFirewallEngine_returns {env : Env} {gs : Gs} {o : Outcomes}
    (h : EngineReturns env gs o.readFile.2 o.fileLength) :
    ∃ r, configureFirewallEngine env gs o = .ok r := by
  obtain ⟨ok, hval, hconf⟩ := h
  have happ : ∃ r, applyConfiguration env gs o.readFile.1 o.readFile.2 o.fileLength = .ok r := by
    cases ok with
    | false => exact ⟨_, Except.bind_eq_ok.mpr ⟨false, hval, rfl⟩⟩
    | true =>
        obtain ⟨r, hconf⟩ := hconf rfl
        exact ⟨_, Except.bind_eq_ok.mpr ⟨true, hval, Except.bind_eq_ok.mpr ⟨r, hconf, rfl⟩⟩⟩
  obtain ⟨r, happ⟩ := happ
  unfold configureFirewallEngine
  dsimp only
  -- Only the last of the exits depends on the engine.
  split
  · exact ⟨_, rfl⟩
  split
  · exact ⟨_, rfl⟩
  split
  · exact ⟨_, rfl⟩
  split
  · exact ⟨_, rfl⟩
  split
  · exact ⟨_, rfl⟩
  split
  · exact ⟨_, rfl⟩
  exact ⟨_, Except.bind_eq_ok.mpr ⟨r, happ, rfl⟩⟩

end Ntfw.Ntfwkm
