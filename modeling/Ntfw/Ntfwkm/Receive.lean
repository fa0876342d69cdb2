import Ntfw.Ntfe.Engine
import Ntfw.Ntfwkm.Driver

set_option autoImplicit false

/-! # Receive path (`ntfwkm/driver.cpp`)

`FilterReceive` gets a chain of net buffer lists. As the code stands it indicates the whole
chain upward and returns; behind that `return` is the filtering it was written for, which
sorts the chain in place into one to accept and one to drop. Both are modelled. Links live in
a memory, since the two tails start as pointers to the head variables, taken for net buffer
lists. The interrupt level and the saved vector registers, which the function restores, are
left out. -/

namespace Ntfw.Ntfwkm

def NDIS_RECEIVE_FLAGS_RESOURCES : u32 := 0x2
def NDIS_RECEIVE_FLAGS_PERFECT_FILTERED : u32 := 0x400

/-- `sizeof(FrameData)`. -/
def SZ_FRAME_DATA : u32 := 64

/-- A net buffer list, by its address. -/
abbrev Nbl := Nat

/-- What holds a link: the `Next` of a net buffer list, or one of the two head variables. -/
inductive NextField where
  | nbl (nbl : Nbl)
  | nblDropHead
  | nblAcceptHead
  deriving DecidableEq

abbrev NextFields := NextField → Option Nbl

/-- The packets of a batch, as the driver and the engine get to see them. -/
structure Packets where
  /-- `FirstNetBuffer->DataLength`. -/
  dataLength : Nbl → u32
  /-- `NdisGetDataBuffer` of the first net buffer, for a number of bytes. -/
  getDataBuffer : Nbl → u32 → Option NetFrame
  /-- What `ntfe_rx` reads from its environment when it is called for the packet. -/
  env : Nbl → Env
  /-- What the other CPUs have done to the engine by then. -/
  meanwhile : Nbl → Gs → Gs

/-- A call of `FilterReceive`. -/
structure ReceiveCall where
  context : FltModule
  netBufferLists : Option Nbl
  portNumber : u32
  numberOfNetBufferLists : u32
  receiveFlags : u32

/-- What `FilterReceive` calls in NDIS. -/
inductive DataCall where
  | indicateReceive (context : FltModule) (nbls : Option Nbl) (portNumber count flags : u32)
  | returnNbls (context : FltModule) (nbls : Option Nbl) (flags : u32)
  deriving DecidableEq

/-- The calls made, in order, and the memory and the engine at the time of them. -/
structure Received where
  calls : List DataCall
  next : NextFields
  gs : Gs

/-- The batch as it came, to the next layer. -/
def ReceiveCall.passthrough (c : ReceiveCall) : DataCall :=
  .indicateReceive c.context c.netBufferLists c.portNumber c.numberOfNetBufferLists c.receiveFlags

/-- `FilterReceive`, which ends with `-- Passthrough --`. -/
def filterReceive (c : ReceiveCall) (next : NextFields) (gs : Gs) : Received :=
  ⟨[c.passthrough], next, gs⟩

/-! ## Behind the early return -/

/-- The condition of the loop's `if`: no header, or `ntfe_rx` says so. -/
def accepts (verify : Verify) (p : Packets) (nbl : Nbl) (gs : Gs) : Exec (Bool × Gs) :=
  let frameLength := p.dataLength nbl
  let needed := if frameLength < SZ_FRAME_DATA then frameLength else SZ_FRAME_DATA
  match p.getDataBuffer nbl needed with
  | none => .ok (true, p.meanwhile nbl gs)
  | some header =>
      ntfeRx verify (p.env nbl) (p.meanwhile nbl gs) header (frameLength.setWidth 16)

/-- The variables of the loop. -/
structure Segregation where
  nbl : Option Nbl
  next : NextFields
  nblDropTail : NextField
  nblAcceptTail : NextField
  acceptCount : u32
  gs : Gs

/-- `Tail->Next = nbl`, then, at the end of the body, `nbl->Next = NULL`. -/
def linkBehind (next : NextFields) (tail : NextField) (nbl : Nbl) : NextFields :=
  Function.update (Function.update next tail (some nbl)) (.nbl nbl) none

/-- The body of the loop. `Next` is read after the link behind the tail is written. -/
def segregateOne (verify : Verify) (p : Packets) (nbl : Nbl) (s : Segregation) :
    Exec Segregation :=
  accepts verify p nbl s.gs >>= fun (accept, gs) =>
  let tail := if accept then s.nblAcceptTail else s.nblDropTail
  .ok {
    nbl := Function.update s.next tail (some nbl) (.nbl nbl)
    next := linkBehind s.next tail nbl
    nblDropTail := if accept then s.nblDropTail else .nbl nbl
    nblAcceptTail := if accept then .nbl nbl else s.nblAcceptTail
    acceptCount := if accept then s.acceptCount + 1 else s.acceptCount
    gs := gs }

/-- The loop, for at most `fuel` net buffer lists. -/
def segregate (verify : Verify) (p : Packets) : Nat → Segregation → Exec (Option Segregation)
  | fuel, s =>
      match s.nbl, fuel with
      | none, _ => .ok (some s)
      | some _, 0 => .ok none
      | some nbl, fuel + 1 => segregateOne verify p nbl s >>= segregate verify p fuel

/-- The two calls at the end, each for a chain that is not empty. -/
def release (c : ReceiveCall) (s : Segregation) : List DataCall :=
  let receiveFlags := c.receiveFlags &&& ~~~ NDIS_RECEIVE_FLAGS_PERFECT_FILTERED
  let drop := s.next .nblDropHead
  let accept := s.next .nblAcceptHead
  (if drop.isSome then [.returnNbls c.context drop receiveFlags] else []) ++
  (if accept.isSome then
    [.indicateReceive c.context accept c.portNumber s.acceptCount receiveFlags] else [])

/-- The rest of `FilterReceive`, for the clock value `ntfe_rx_prepare` reads on its CPU and for
whether `KeSaveExtendedProcessorState` succeeds. -/
def filterReceiveRest (verify : Verify) (p : Packets) (cpu : Fin MAX_CPUS) (hpc : u64)
    (saved : Bool) (fuel : Nat) (c : ReceiveCall) (next : NextFields) (gs : Gs) :
    Exec (Option Received) :=
  if c.receiveFlags &&& NDIS_RECEIVE_FLAGS_RESOURCES ≠ 0 then .ok (some ⟨[], next, gs⟩)
  else
  let gs := ntfeRxPrepare gs cpu hpc
  if !saved then .ok (some ⟨[c.passthrough], next, gs⟩)
  else
  let next := Function.update (Function.update next .nblDropHead none) .nblAcceptHead none
  segregate verify p fuel ⟨c.netBufferLists, next, .nblDropHead, .nblAcceptHead, 0, gs⟩ >>=
    fun s => .ok (s.map fun s => ⟨release c s, s.next, s.gs⟩)

end Ntfw.Ntfwkm
