import Ntfw.Ntfwkm.Receive
import Ntfw.Engine.Calls
import Ntfw.Lib.LinkedChain

set_option autoImplicit false

/-! # Disposal of a received batch

Every net buffer list of a batch has a verdict: accepted if its header cannot be mapped or
`ntfe_rx` says so, dropped otherwise. `FilterReceive` indicates all of them, which is right
for a batch without drops only. The filtering behind its early return is right for every
batch. -/

namespace Ntfw.Ntfwkm

open LinkedChain (Chain Queue)

/-! ## Verdicts and their execution -/

/-- The verdicts on a batch, one packet after the other. -/
def judge (verify : Verify) (p : Packets) : Gs → List Nbl → Exec (List (Nbl × Bool) × Gs)
  | gs, [] => .ok ([], gs)
  | gs, nbl :: nbls =>
      accepts verify p nbl gs >>= fun (accept, gs) =>
      judge verify p gs nbls >>= fun (js, gs) => .ok ((nbl, accept) :: js, gs)

def accepted (js : List (Nbl × Bool)) : List Nbl := (js.filter fun j => j.2).map Prod.fst

def dropped (js : List (Nbl × Bool)) : List Nbl := (js.filter fun j => !j.2).map Prod.fst

/-- What the calls do with net buffer lists: `up` is indicated and `down` returned, in null-
terminated chains and with the right counts. -/
inductive Disposed (next : NextFields) : List DataCall → List Nbl → List Nbl → Prop
  | done : Disposed next [] [] []
  | indicate {context : FltModule} {nbls : Option Nbl} {portNumber count flags : u32}
      {calls : List DataCall} {l up down : List Nbl} (hchain : Chain .nbl next nbls l)
      (hcount : count = BitVec.ofNat 32 l.length) (hrest : Disposed next calls up down) :
      Disposed next (.indicateReceive context nbls portNumber count flags :: calls) (l ++ up) down
  | release {context : FltModule} {nbls : Option Nbl} {flags : u32} {calls : List DataCall}
      {l up down : List Nbl} (hchain : Chain .nbl next nbls l)
      (hrest : Disposed next calls up down) :
      Disposed next (.returnNbls context nbls flags :: calls) up (l ++ down)

/-- **The verdicts are enforced**: the accepted are indicated, in order, and the dropped are
returned. -/
def Enforces (r : Received) (js : List (Nbl × Bool)) : Prop :=
  Disposed r.next r.calls (accepted js) (dropped js)

theorem judge_cons_ok {verify : Verify} {p : Packets} {gs gs' : Gs} {nbl : Nbl} {nbls : List Nbl}
    {js : List (Nbl × Bool)} : judge verify p gs (nbl :: nbls) = .ok (js, gs') ↔
      ∃ accept gs1 js', accepts verify p nbl gs = .ok (accept, gs1)
        ∧ judge verify p gs1 nbls = .ok (js', gs') ∧ js = (nbl, accept) :: js' := by
  rw [judge, Except.bind_eq_ok]
  constructor
  · rintro ⟨⟨accept, gs1⟩, hacc, h⟩
    obtain ⟨⟨js', gs2⟩, hrest, h⟩ := Except.bind_eq_ok.mp h
    cases h
    exact ⟨accept, gs1, js', hacc, hrest, rfl⟩
  · rintro ⟨accept, gs1, js', hacc, hrest, rfl⟩
    exact ⟨(accept, gs1), hacc, Except.bind_eq_ok.mpr ⟨(js', gs'), hrest, rfl⟩⟩

/-- Every net buffer list of the batch is judged, in the order of the batch. -/
theorem judge_fst {verify : Verify} {p : Packets} {gs gs' : Gs} {nbls : List Nbl}
    {js : List (Nbl × Bool)} (h : judge verify p gs nbls = .ok (js, gs')) :
    js.map Prod.fst = nbls := by
  induction nbls generalizing gs js with
  | nil =>
      cases h
      rfl
  | cons nbl nbls ih =>
      obtain ⟨accept, gs1, js', -, hrest, rfl⟩ := judge_cons_ok.mp h
      rw [List.map_cons, ih hrest]

theorem accepted_eq_iff {js : List (Nbl × Bool)} :
    (accepted js = js.map Prod.fst ∧ dropped js = []) ↔ ∀ j ∈ js, j.2 = true := by
  constructor
  · rintro ⟨-, hdown⟩ j hj
    by_contra hj2
    have hmem : j.1 ∈ dropped js :=
      List.mem_map.mpr ⟨j, List.mem_filter.mpr ⟨hj, by simpa using hj2⟩, rfl⟩
    rw [hdown] at hmem
    cases hmem
  · intro h
    unfold accepted dropped
    rw [List.filter_eq_self.mpr h, List.filter_eq_nil_iff.mpr fun j hj => by simp [h j hj]]
    exact ⟨rfl, rfl⟩

/-! ## The passthrough -/

/-- The passthrough disposes of the batch in one way only: all of it goes up. -/
theorem enforces_passthrough_iff {c : ReceiveCall} {next : NextFields} {gs : Gs}
    {nbls : List Nbl} {js : List (Nbl × Bool)} (hchain : Chain .nbl next c.netBufferLists nbls)
    (hcount : c.numberOfNetBufferLists = BitVec.ofNat 32 nbls.length) :
    Enforces (filterReceive c next gs) js ↔ accepted js = nbls ∧ dropped js = [] := by
  constructor
  · intro h
    unfold Enforces at h
    generalize accepted js = up at h
    generalize dropped js = down at h
    cases h with
    | indicate hc _ hrest =>
        cases hrest
        exact ⟨by rw [List.append_nil, hchain.unique hc], rfl⟩
  · rintro ⟨hup, hdown⟩
    unfold Enforces
    rw [hup, hdown, ← List.append_nil nbls]
    exact Disposed.indicate hchain hcount Disposed.done

/-- **`FilterReceive` enforces the verdicts of a batch exactly when it has nothing to drop.** -/
theorem filterReceive_enforces_iff (verify : Verify) (p : Packets) (cpu : Fin MAX_CPUS)
    (hpc : u64) (c : ReceiveCall) (next : NextFields) (gs gs' : Gs) (nbls : List Nbl)
    (js : List (Nbl × Bool)) (hchain : Chain .nbl next c.netBufferLists nbls)
    (hcount : c.numberOfNetBufferLists = BitVec.ofNat 32 nbls.length)
    (hjudge : judge verify p (ntfeRxPrepare gs cpu hpc) nbls = .ok (js, gs')) :
    Enforces (filterReceive c next gs) js ↔ ∀ j ∈ js, j.2 = true := by
  rw [enforces_passthrough_iff hchain hcount, ← accepted_eq_iff, judge_fst hjudge]

/-- An engine that has the sender of the sample frame as an authorised host. -/
def trustingEngine : Gs :=
  (hostInsertAuthorized quietEnv Gs.zero (hostFetchBucket 0x0100000A) 0x0100000A HOST_PRI_STATIC).2

/-- A chain of three net buffer lists. -/
def threeNbls : NextFields
  | .nbl 1 => some 2
  | .nbl 2 => some 3
  | _ => none

/-- Two frames of that sender, and one packet of which the header is not mapped. -/
def trustedPackets : Packets where
  dataLength _ := 64
  getDataBuffer nbl _ :=
    if nbl = 1 then some httpFrame
    else if nbl = 2 then some (sampleFrame IP_P_ICMP [10, 0, 0, 1] 0 [10, 0, 0, 2] 0)
    else none
  env _ := quietEnv
  meanwhile _ gs := gs

/-- A batch that the engine accepts is indicated. -/
theorem filterReceive_enforces_trusted : ∃ gs',
    judge (fun _ _ _ => false) trustedPackets (ntfeRxPrepare trustingEngine 0 0) [1, 2, 3]
      = .ok ([(1, true), (2, true), (3, true)], gs')
    ∧ Enforces (filterReceive ⟨0, some 1, 0, 3, 0⟩ threeNbls trustingEngine)
        [(1, true), (2, true), (3, true)] := by
  have hjudge : (judge (fun _ _ _ => false) trustedPackets (ntfeRxPrepare trustingEngine 0 0)
      [1, 2, 3]).toOption.map Prod.fst = some [(1, true), (2, true), (3, true)] := by
    decide +kernel
  cases hrun : judge (fun _ _ _ => false) trustedPackets (ntfeRxPrepare trustingEngine 0 0)
      [1, 2, 3] with
  | error e =>
      rw [hrun] at hjudge
      cases hjudge
  | ok r =>
      obtain ⟨js, gs'⟩ := r
      rw [hrun] at hjudge
      obtain rfl : js = [(1, true), (2, true), (3, true)] := Option.some.inj hjudge
      exact ⟨gs', rfl, (filterReceive_enforces_iff _ trustedPackets 0 0 ⟨0, some 1, 0, 3, 0⟩
        threeNbls trustingEngine gs' [1, 2, 3] _ ⟨rfl, rfl, rfl, rfl⟩ rfl hrun).mpr (by decide)⟩

/-- An IPv4 frame whose header length is 0, which the engine takes for malformed. -/
def malformedFrame : NetFrame := Mem.ofBytes [0, 0, 0, 0, 0, 0, 0, 0, 0, 0, 0, 0, 8, 0]

/-- **The driver does not filter**: it indicates a packet that the engine drops. -/
theorem filterReceive_accepts_dropped : ¬ ∀ (verify : Verify) (p : Packets)
    (cpu : Fin MAX_CPUS) (hpc : u64) (c : ReceiveCall) (next : NextFields) (gs gs' : Gs)
    (nbls : List Nbl) (js : List (Nbl × Bool)), Chain .nbl next c.netBufferLists nbls →
    c.numberOfNetBufferLists = BitVec.ofNat 32 nbls.length →
    c.receiveFlags &&& NDIS_RECEIVE_FLAGS_RESOURCES = 0 →
    judge verify p (ntfeRxPrepare gs cpu hpc) nbls = .ok (js, gs') →
    Enforces (filterReceive c next gs) js := by
  intro hall
  let p : Packets :=
    ⟨fun _ => 64, fun _ _ => some malformedFrame, fun _ => ⟨0, false, 0⟩, fun _ gs => gs⟩
  have hjudge : ∃ gs', judge (fun _ _ _ => false) p (ntfeRxPrepare Gs.zero 0 0) [1]
      = .ok ([(1, false)], gs') := ⟨_, rfl⟩
  obtain ⟨gs', hjudge⟩ := hjudge
  let c : ReceiveCall := ⟨0, some 1, 0, 1, 0⟩
  have hchain : Chain NextField.nbl (fun _ => none) c.netBufferLists [1] := ⟨rfl, rfl⟩
  have h := hall _ p 0 0 c (fun _ => none) Gs.zero gs' [1] [(1, false)] hchain rfl
    (by decide) hjudge
  have hup := ((enforces_passthrough_iff hchain rfl).mp h).1
  exact absurd hup (by decide)

/-! ## Behind the early return -/

/-- **The invariant of the loop**, after the packets in `up` and `down` and before those in
`rest`. -/
structure Segregated (s : Segregation) (up down rest : List Nbl) : Prop where
  accept : Queue .nbl s.next .nblAcceptHead s.nblAcceptTail up
  drop : Queue .nbl s.next .nblDropHead s.nblDropTail down
  todo : Chain .nbl s.next s.nbl rest
  count : s.acceptCount = BitVec.ofNat 32 up.length
  apart : ∀ a ∈ down, a ∉ up
  ahead : ∀ a ∈ rest, a ∉ up ∧ a ∉ down

theorem nbl_injective : Function.Injective NextField.nbl := fun _ _ h => NextField.nbl.inj h

/-- One round of the loop puts the packet at the end of one of the chains. -/
theorem segregateOne_ok {verify : Verify} {p : Packets} {s : Segregation} {nbl : Nbl}
    {up down rest : List Nbl} {accept : Bool} {gs' : Gs} (h : Segregated s up down (nbl :: rest))
    (hacc : accepts verify p nbl s.gs = .ok (accept, gs')) :
    ∃ s', segregateOne verify p nbl s = .ok s' ∧ s'.gs = gs'
      ∧ Segregated s' (if accept then up ++ [nbl] else up) (if accept then down else down ++ [nbl])
          rest := by
  obtain ⟨hup, hdown⟩ := h.ahead nbl List.mem_cons_self
  have hrest : ∀ a ∈ rest, a ∉ up ∧ a ∉ down := fun a ha => h.ahead a (List.mem_cons_of_mem _ ha)
  -- The packet is the first of those to go, and in neither of the chains built so far.
  have hchain : Chain .nbl s.next (some nbl) (nbl :: rest) := ⟨rfl, h.todo.2⟩
  have hnew : ∀ a ∈ rest, a ≠ nbl := by
    rintro a ha rfl
    exact (List.nodup_cons.mp h.todo.nodup).1 ha
  refine ⟨_, by rw [segregateOne, hacc]; rfl, rfl, ?_⟩
  cases accept with
  | true =>
      -- One chain takes it; the other one and the rest do not meet the cells written.
      obtain ⟨hq, hq', hr⟩ := h.accept.take nbl_injective h.drop hchain (by decide) (by simp)
        (by simp) hup hdown h.apart fun a ha => (hrest a ha).1
      refine ⟨hq, hq', hr, ?_, ?_, ?_⟩
      · show s.acceptCount + 1 = BitVec.ofNat 32 (up ++ [nbl]).length
        rw [h.count, List.length_append, List.length_singleton, BitVec.ofNat_add]
        rfl
      · intro a ha
        simp only [if_true, List.mem_append, List.mem_singleton, not_or]
        refine ⟨h.apart a ha, ?_⟩
        rintro rfl
        exact hdown ha
      · intro a ha
        simp only [if_true, List.mem_append, List.mem_singleton, not_or]
        exact ⟨⟨(hrest a ha).1, hnew a ha⟩, (hrest a ha).2⟩
  | false =>
      obtain ⟨hq, hq', hr⟩ := h.drop.take nbl_injective h.accept hchain (by decide) (by simp)
        (by simp) hdown hup (fun a ha ha' => h.apart a ha' ha) fun a ha => (hrest a ha).2
      refine ⟨hq', hq, hr, h.count, ?_, ?_⟩
      · intro a ha
        simp only [Bool.false_eq_true, if_false, List.mem_append, List.mem_singleton] at ha ⊢
        rcases ha with ha | rfl
        · exact h.apart a ha
        · exact hup
      · intro a ha
        simp only [Bool.false_eq_true, if_false, List.mem_append, List.mem_singleton, not_or]
        exact ⟨(hrest a ha).1, (hrest a ha).2, hnew a ha⟩

theorem accepted_cons (nbl : Nbl) (accept : Bool) (js : List (Nbl × Bool)) :
    accepted ((nbl, accept) :: js) = if accept then nbl :: accepted js else accepted js := by
  cases accept <;> rfl

theorem dropped_cons (nbl : Nbl) (accept : Bool) (js : List (Nbl × Bool)) :
    dropped ((nbl, accept) :: js) = if accept then dropped js else nbl :: dropped js := by
  cases accept <;> rfl

/-- **The loop sorts the batch**, given fuel for its length. -/
theorem segregate_ok {verify : Verify} {p : Packets} {gs' : Gs} (rest : List Nbl) :
    ∀ (s : Segregation) (up down : List Nbl) (js : List (Nbl × Bool)) (fuel : Nat),
      Segregated s up down rest → judge verify p s.gs rest = .ok (js, gs') →
      rest.length ≤ fuel →
      ∃ s', segregate verify p fuel s = .ok (some s') ∧ s'.gs = gs'
        ∧ Segregated s' (up ++ accepted js) (down ++ dropped js) [] := by
  induction rest with
  | nil =>
      intro s up down js fuel h hjudge _
      have hnil : s.nbl = none := h.todo
      cases hjudge
      refine ⟨s, ?_, rfl, ?_⟩
      · unfold segregate
        rw [hnil]
      · rw [accepted, dropped, List.filter_nil, List.filter_nil, List.map_nil, List.append_nil,
          List.append_nil]
        exact h
  | cons nbl rest ih =>
      intro s up down js fuel h hjudge hfuel
      -- One round, and the loop on the rest with the fuel that is left.
      obtain ⟨accept, gs1, js', hacc, hrest, rfl⟩ := judge_cons_ok.mp hjudge
      obtain ⟨s1, hone, hgs, h1⟩ := segregateOne_ok h hacc
      cases fuel with
      | zero => exact absurd hfuel (by simp)
      | succ fuel =>
          obtain ⟨s', hs', hgs', h'⟩ := ih s1 _ _ js' fuel h1 (hgs.symm ▸ hrest)
            (Nat.le_of_succ_le_succ hfuel)
          refine ⟨s', ?_, hgs', ?_⟩
          · have hnbl : s.nbl = some nbl := h.todo.1
            unfold segregate
            rw [hnbl]
            exact Except.bind_eq_ok.mpr ⟨s1, hone, hs'⟩
          · rw [accepted_cons, dropped_cons]
            cases accept with
            | true => simpa using h'
            | false => simpa using h'

/-- The two calls at the end dispose of the two chains. -/
theorem release_disposed {c : ReceiveCall} {s : Segregation} {up down : List Nbl}
    (h : Segregated s up down []) : Disposed s.next (release c s) up down := by
  have haccept : Disposed s.next
      (if (s.next .nblAcceptHead).isSome then
        [.indicateReceive c.context (s.next .nblAcceptHead) c.portNumber s.acceptCount
          (c.receiveFlags &&& ~~~ NDIS_RECEIVE_FLAGS_PERFECT_FILTERED)] else []) up [] := by
    cases up with
    | nil =>
        have hnone : s.next .nblAcceptHead = none := h.accept.chain
        rw [hnone]
        exact Disposed.done
    | cons a up =>
        have hsome : s.next .nblAcceptHead = some a := h.accept.chain.1
        rw [if_pos (Option.isSome_iff_exists.mpr ⟨a, hsome⟩), ← List.append_nil (a :: up)]
        exact Disposed.indicate h.accept.chain h.count Disposed.done
  simp only [release]
  cases down with
  | nil =>
      have hnone : s.next .nblDropHead = none := h.drop.chain
      rw [hnone]
      exact haccept
  | cons a down =>
      have hsome : s.next .nblDropHead = some a := h.drop.chain.1
      rw [if_pos (Option.isSome_iff_exists.mpr ⟨a, hsome⟩), ← List.append_nil (a :: down)]
      exact Disposed.release h.drop.chain haccept

/-- **The filtering behind the early return enforces the verdicts** of every batch, and ends
in one round for each net buffer list. -/
theorem filterReceiveRest_enforces {verify : Verify} {p : Packets} {cpu : Fin MAX_CPUS}
    {hpc : u64} {c : ReceiveCall} {next : NextFields} {gs gs' : Gs} {nbls : List Nbl}
    {js : List (Nbl × Bool)} {fuel : Nat} (hchain : Chain .nbl next c.netBufferLists nbls)
    (hflags : c.receiveFlags &&& NDIS_RECEIVE_FLAGS_RESOURCES = 0)
    (hjudge : judge verify p (ntfeRxPrepare gs cpu hpc) nbls = .ok (js, gs'))
    (hfuel : nbls.length ≤ fuel) :
    ∃ r, filterReceiveRest verify p cpu hpc true fuel c next gs = .ok (some r) ∧ r.gs = gs'
      ∧ Enforces r js := by
  set start : NextFields :=
    Function.update (Function.update next .nblDropHead none) .nblAcceptHead none
  have haccept : start .nblAcceptHead = none := Function.update_self _ _ _
  have hdrop : start .nblDropHead = none :=
    (Function.update_of_ne (by decide) _ _).trans (Function.update_self _ _ _)
  have hnext : ∀ a, start (.nbl a) = next (.nbl a) := fun a =>
    (Function.update_of_ne (by simp) _ _).trans (Function.update_of_ne (by simp) _ _)
  have hinit : Segregated
      ⟨c.netBufferLists, start, .nblDropHead, .nblAcceptHead, 0, ntfeRxPrepare gs cpu hpc⟩
      [] [] nbls := by
    refine ⟨Queue.empty haccept, Queue.empty hdrop, hchain.frame fun a _ => hnext a, rfl, ?_, ?_⟩
    · exact fun a ha => by cases ha
    · exact fun a _ => ⟨List.not_mem_nil, List.not_mem_nil⟩
  obtain ⟨s, hs, hgs, h⟩ := segregate_ok nbls _ [] [] js fuel hinit hjudge hfuel
  refine ⟨⟨release c s, s.next, s.gs⟩, ?_, hgs, ?_⟩
  · rw [filterReceiveRest, if_neg (not_not_intro hflags)]
    exact Except.bind_eq_ok.mpr ⟨some s, hs, rfl⟩
  · exact release_disposed h

end Ntfw.Ntfwkm
