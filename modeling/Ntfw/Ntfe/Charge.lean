import Ntfw.Lib.SpinLock
import Ntfw.Ntfe.Engine
import Ntfw.Ntfe.Locking

set_option autoImplicit false

/-! # Charging by its accesses (`ntfe/ntfe.cpp`)

The state of a host is shared by every CPU that receives from it. `host_charge_packet` charges its
buckets under bit 0 of `host->lock`, with plain loads and stores; the time is that of the CPU. -/

namespace Ntfw.Charge

open SpinLock

/-- Where a host state can be accessed. -/
inductive HostWord where
  | tokens (i : Fin MAX_METERS)
  | last (i : Fin MAX_METERS)
  | lock
  deriving DecidableEq

def hostLock : Lock HostWord u32 := bitLock .lock ⟨0, by omega⟩

abbrev HostProg (ρ : Type) := Prog HostWord u32 ρ

/-- A host state as the memory it occupies. -/
def words (host : HostState) : Memory HostWord u32
  | .tokens i => (host.tb i).tokens
  | .last i => (host.tb i).last
  | .lock => host.lock

/-- The host state that a memory holds. -/
def state (m : Memory HostWord u32) : HostState :=
  ⟨fun i => ⟨m (.tokens i), m (.last i)⟩, m .lock⟩

/-- `token_bucket_charge` of the bucket `i`. -/
def tokenBucketCharge (i : Fin MAX_METERS) (tbd : TBucketDesc) (tmsec cost : u32) :
    HostProg Bool := do
  let last ← Prog.fetch (.last i)
  let dt := tmsec - last
  if dt ≠ 0 then
    Prog.modify (.tokens i) fun tokens =>
      let filled := satadd32 tokens (satmul32 dt tbd.rate)
      if tbd.capacity < filled then tbd.capacity else filled
    Prog.put (.last i) tmsec
  Prog.modify (.tokens i) (satsub32 · cost)
  let tokens ← Prog.fetch (.tokens i)
  return tbd.level < tokens

/-- A packet to charge: the rule that it matched, its size, the time of the CPU that charges it.
The rule names buckets that there are. -/
structure Packet where
  rl : Rule
  in_bytes : u16
  msec : u64
  in_byte_tb : rl.in_byte_tb.toNat < MAX_METERS
  in_packet_tb : rl.in_packet_tb.toNat < MAX_METERS

namespace Packet

variable (o : Packet)

def byteMeter : Fin MAX_METERS := ⟨o.rl.in_byte_tb.toNat, o.in_byte_tb⟩
def packetMeter : Fin MAX_METERS := ⟨o.rl.in_packet_tb.toNat, o.in_packet_tb⟩

/-- `(u32) time_msec()`. -/
def tmsec : u32 := o.msec.setWidth 32

end Packet

/-- One conditional charge: 1 if it conforms, or costs nothing. -/
def chargeMeter (gs : GsRom) (i : Fin MAX_METERS) (tmsec cost : u32) : HostProg u8 :=
  if cost ≠ 0 then do
    let ok ← tokenBucketCharge i (gs.tbdesc i) tmsec cost
    return if ok then 1 else 0
  else return 1

/-- `host_charge_packet`, from `spin_acquire` to `spin_release`. -/
def body (gs : GsRom) (o : Packet) : HostProg u8 := do
  let in_bytes_cost := satmul32 (o.in_bytes.setWidth 32) (o.rl.in_byte_scale.setWidth 32)
  let in_packet_cost : u32 := o.rl.in_packet_scale.setWidth 32
  let ok1 ← chargeMeter gs o.byteMeter o.tmsec in_bytes_cost
  let ok2 ← chargeMeter gs o.packetMeter o.tmsec in_packet_cost
  return 2 - ok1 - ok2

/-- Before the lock it only computes the costs. -/
def look (o : Packet) : HostProg (u8 ⊕ Packet) := return .inr o

end Ntfw.Charge
