import Ntfw.Ntfe.Host
import Ntfw.Ntfe.Helper

set_option autoImplicit false

/-! # The firewall engine (`ntfe/ntfe.cpp`)

`ed25519_verify` is a parameter: signature, message and key to a verdict. The counters are
kept, the log output is not. -/

namespace Ntfw

/-- `ed25519_verify`, of the signature, the message and the public key. -/
abbrev Verify := List byte → List byte → NtfePkey → Bool

/-! ## The rule table -/

/-- `x & ((1 << hashsz) - 1)`, the slot a hash selects. -/
def ruleIndex (hash : u16) (hashsz : u8) : Nat :=
  (hash.setWidth 32 &&& (shl32 1 hashsz.toNat - 1)).toNat

/-- `hash_flowsig`. -/
def hashFlowsig (gs : GsRom) (fs : FlowSig) : Nat :=
  ruleIndex (ruleHashfn fs gs.rule_seed) gs.rule_hashsz

/-- `rule_lookup`. Behind the table the code compares whatever memory it finds; here the call has
no answer then. -/
def ruleLookup (gs : GsRom) (fs : FlowSig) : Exec (Option Rule) :=
  if h : hashFlowsig gs fs < MAX_RULES then
    let rl := gs.rules ⟨hashFlowsig gs fs, h⟩
    .ok (if rl.fsig = fs then some rl else none)
  else .error .outOfBounds

/-- The compiled form of a rule of the image. -/
def NtfeRule.compile (rl : NtfeRule) : Rule where
  fsig := ruleSig rl.ether rl.dport rl.proto
  in_byte_scale := rl.byte_scale
  in_packet_scale := rl.packet_scale
  in_syn_scale := rl.syn_scale
  in_byte_tb := rl.byte_tb.setWidth 3
  in_packet_tb := rl.packet_tb.setWidth 3
  in_syn_tb := rl.syn_tb.setWidth 3

/-- The slot of a rule of the image, for a seed and a table size. -/
def NtfeRule.index (rl : NtfeRule) (seed : u32) (hashsz : u8) : Nat :=
  ruleIndex (ntfeRuleHashfn seed rl.ether rl.dport rl.proto) hashsz

/-- `rule_insert`; with `test` the slot is only looked at. Behind the table there is no answer. -/
def ruleInsert (gs : Gs) (rl : NtfeRule) (seed : u32) (hashsz : u8) (test : Bool) :
    Exec (Bool × Gs) :=
  if h : rl.index seed hashsz < MAX_RULES then
    let dst : Fin MAX_RULES := ⟨rl.index seed hashsz, h⟩
    if (gs.rules dst).fsig ≠ 0 then .ok (false, gs)
    else if test then .ok (true, gs)
    else .ok (true, { gs with rules := Function.update gs.rules dst rl.compile })
  else .error .outOfBounds

/-! ## Policing -/

/-- `token_bucket_charge`: the bucket after the charge and whether it conformed. -/
def tokenBucketCharge (tb : TBucket) (tbd : TBucketDesc) (tmsec cost : u32) : TBucket × Bool :=
  let dt := tmsec - tb.last
  let tb :=
    if dt ≠ 0 then
      let filled := satadd32 tb.tokens (satmul32 dt tbd.rate)
      { tokens := if tbd.capacity < filled then tbd.capacity else filled, last := tmsec }
    else tb
  let tb := { tb with tokens := satsub32 tb.tokens cost }
  (tb, tbd.level < tb.tokens)

/-- One conditional charge of `host_charge_packet`: nothing is charged for a zero cost. -/
def chargeMeter (gs : GsRom) (host : HostState) (tb : BitVec 3) (tmsec cost : u32) :
    Exec (HostState × Bool) :=
  if cost = 0 then .ok (host, true)
  else if h : tb.toNat < MAX_METERS then
    let r := tokenBucketCharge (host.tb ⟨tb.toNat, h⟩) (gs.tbdesc ⟨tb.toNat, h⟩) tmsec cost
    .ok ({ host with tb := Function.update host.tb ⟨tb.toNat, h⟩ r.1 }, r.2)
  else .error .outOfBounds

/-- `host_charge_packet`: zero if the packet conforms to both of the rule's meters. The
release of the host's spinlock clears its bit 0. -/
def hostChargePacket (gs : GsRom) (host : HostState) (rl : Rule) (tmsec : u32) (in_bytes : u16) :
    Exec (HostState × u8) :=
  let in_bytes_cost := satmul32 (in_bytes.setWidth 32) (rl.in_byte_scale.setWidth 32)
  let in_packet_cost : u32 := rl.in_packet_scale.setWidth 32
  chargeMeter gs host rl.in_byte_tb tmsec in_bytes_cost >>= fun (host, ok1) =>
  chargeMeter gs host rl.in_packet_tb tmsec in_packet_cost >>= fun (host, ok2) =>
  .ok ({ host with lock := host.lock &&& ~~~1 },
    2 - (if ok1 then 1 else 0) - (if ok2 then 1 else 0))

/-! ## Remote authorisation -/

/-- The chain of checks of `ntfp_rx_process`: the address to authorise, if they all pass. -/
def ntfpRxCheck (verify : Verify) (pkey : NtfePkey) (t : u64) (frame : NetFrame) (len : u16) :
    Option be32 :=
  let msg := NtfpMsg.ofFrame frame
  if msg.magic ≠ pkey.magic then none
  else
  let len := len - BitVec.ofNat 16 SZ_ETH_HDR
  if len.toNat < SZ_IP_HDR ∨ len < ntohs frame.ipLen then none
  else
  -- May truncate due to link padding.
  let len := ntohs frame.ipLen - BitVec.ofNat 16 SZ_IP_HDR
  if len.toNat < SZ_UDP_HDR ∨ len < ntohs frame.udpLen then none
  else
  let len := len - BitVec.ofNat 16 SZ_UDP_HDR
  if len.toNat < SZ_NTFP_HDR ∨ len < msg.len then none
  else
  if msg.timestamp < t - AUTH_TWND / 2 ∨ t + AUTH_TWND / 2 < msg.timestamp then none
  else
  if !verify msg.signature (msg.payload msg.len.toNat) pkey then none
  else
  if msg.authAddr = 0 then none
  else some msg.authAddr

/-- `ntfp_rx_process`. -/
def ntfpRxProcess (verify : Verify) (env : Env) (gs : Gs) (frame : NetFrame) (len : u16) : Gs :=
  match ntfpRxCheck verify gs.pkey env.time frame len with
  | none => gs
  | some addr => (hostInsertAuthorized env gs (hostFetchBucket addr) addr HOST_PRI_DYNAUTH).2

/-! ## Receive -/

/-- How `ntfe_rx` leaves: by `accept`, by `drop`, or by `drop` after the frame was handed to
`ntfp_rx_process`. -/
inductive RxExit where
  | accept
  | drop
  | ntfp
  deriving DecidableEq

/-- The value `ntfe_rx` returns. -/
def RxExit.ret : RxExit → Bool
  | .accept => true
  | _ => false

/-- The label `drop`. -/
def rxDrop (env : Env) (gs : Gs) (exit : RxExit) : Exec (RxExit × Gs) :=
  .ok (exit, gs.count env.cpu fun sc => { sc with rx_dropped := sc.rx_dropped + 1 })

/-- A drop that counts the frame as malformed. -/
def rxMalformed (env : Env) (gs : Gs) : Exec (RxExit × Gs) :=
  rxDrop env (gs.count env.cpu fun sc => { sc with rx_malformed := sc.rx_malformed + 1 }) .drop

/-- The flow signature `ntfe_rx` builds. -/
def rxFlowsig (frame : NetFrame) : FlowSig :=
  FlowSig.mk (etherBe16ToFs frame.ethProto) frame.ipProto frame.tcpDport

/-- The word the NTFP hook compares the signature with. -/
def ntfpHookSig : FlowSig := (IP_P_UDP.setWidth 32 <<< 8) ||| ((htons NTFP_PORT).setWidth 32 <<< 16)

/-- The part of a signature that a rule of the protocol can name. -/
def portMask (proto : u8) : u32 := if hasPorts proto then 0x0000FFFF ||| 0xFFFF0000 else 0x0000FFFF

/-- The policing of a public frame: the tail of `ntfe_rx`, for the rule it matched. -/
def rxPolice (env : Env) (gs : Gs) (htb : Fin HTBL_SIZE) (saddr : be32) (hidx : Option Slot)
    (rl : Rule) (len : u16) : Exec (RxExit × Gs) :=
  -- Without a pool there is no policing.
  if !gs.hpool then .ok (.accept, gs)
  else
  (match hidx with
    | some k => .ok (some k, gs)
    | none => hostInsert env gs htb saddr) >>= fun (hidx, gs) =>
  match hidx with
  | none => rxDrop env gs .drop
  | some k =>
      let i := getHostState (gs.host_tbl htb) k
      hostChargePacket gs.toGsRom (gs.pool i) rl ((gs.timeMsec env.cpu).setWidth 32)
        (len - BitVec.ofNat 16 SZ_ETH_HDR) >>= fun (host, failed) =>
      let gs := { gs with pool := Function.update gs.pool i host }
      if failed ≠ 0 then
        rxDrop env
          (gs.count env.cpu fun sc => { sc with rx_drop_policed := sc.rx_drop_policed + 1 }) .drop
      else .ok (.accept, gs)

/-- The body of `ntfe_rx`. -/
def ntfeRxExit (verify : Verify) (env : Env) (gs : Gs) (frame : NetFrame) (len : u16) :
    Exec (RxExit × Gs) :=
  let sig := rxFlowsig frame
  -- Other traffic than IPv4 only needs a rule.
  if frame.ethProto ≠ htons ETH_P_IP then
    ruleLookup gs.toGsRom (sig &&& 0xFF) >>= fun rl =>
    if rl.isNone then rxDrop env gs .drop else .ok (.accept, gs)
  else if frame.ipIhl ≠ IP_IHL_MIN then rxMalformed env gs
  else
  let saddr := frame.ipSaddr
  if saddr = 0 then rxMalformed env gs
  else
  let htb := hostFetchBucket saddr
  if frame.ipFragOff &&& htons (IP_MF ||| IP_OFFSET) ≠ 0 then rxMalformed env gs
  else if hasPorts frame.ipProto ∧ frame.tcpDport = 0 then rxMalformed env gs
  else
  let hidx := hostLookup (gs.host_tbl htb) saddr
  -- An authorised host is always accepted.
  if hidx.any (fun k => ((gs.host_tbl htb).ctrl k).pri ≠ HOST_PRI_NONE) then .ok (.accept, gs)
  else if sig = ntfpHookSig then rxDrop env (ntfpRxProcess verify env gs frame len) .ntfp
  else
  ruleLookup gs.toGsRom (sig &&& portMask frame.ipProto) >>= fun rl =>
  match rl with
  | none =>
      rxDrop env (gs.count env.cpu fun sc => { sc with rx_drop_priv := sc.rx_drop_priv + 1 }) .drop
  | some rl => rxPolice env gs htb saddr hidx rl len

/-- `ntfe_rx`. -/
def ntfeRx (verify : Verify) (env : Env) (gs : Gs) (frame : NetFrame) (len : u16) :
    Exec (Bool × Gs) :=
  ntfeRxExit verify env gs frame len >>= fun (exit, gs) => .ok (exit.ret, gs)

/-! ## Transmit -/

/-- The flow signature `ntfe_tx` builds. -/
def txFlowsig (frame : NetFrame) : FlowSig :=
  FlowSig.mk ((frame.ethProto >>> 7).setWidth 8) frame.ipProto frame.tcpDport

/-- `ntfe_tx`. -/
def ntfeTx (env : Env) (gs : Gs) (frame : NetFrame) : Exec Gs :=
  let sig := txFlowsig frame
  if frame.ethProto ≠ htons ETH_P_IP then .ok gs
  else if frame.ipIhl ≠ IP_IHL_MIN then
    .ok (gs.count env.cpu fun sc => { sc with tx_malformed := sc.tx_malformed + 1 })
  else
  let daddr := frame.ipDaddr
  let htb := hostFetchBucket daddr
  ruleLookup gs.toGsRom (sig &&& portMask frame.ipProto) >>= fun rl =>
  -- Only private traffic is of interest.
  if rl.isSome then .ok gs
  else if (hostLookup (gs.host_tbl htb) daddr).any
      (fun k => HOST_PRI_OUTAUTH ≤ ((gs.host_tbl htb).ctrl k).pri) then .ok gs
  else .ok (hostInsertAuthorized env gs htb daddr HOST_PRI_OUTAUTH).2

/-- `ntfe_rx_prepare`, at the high-precision clock value `hpc`. -/
def ntfeRxPrepare (gs : Gs) (cpu : Fin MAX_CPUS) (hpc : u64) : Gs :=
  let cl := { gs.cpuls cpu with ts_hpc := hpc, ts_msec := (hpc * 1000) / gs.hpc_hz }
  { gs with cpuls := Function.update gs.cpuls cpu cl }

/-- `ntfe_tx_prepare`. -/
def ntfeTxPrepare (gs : Gs) (cpu : Fin MAX_CPUS) (hpc : u64) : Gs := ntfeRxPrepare gs cpu hpc

/-! ## Configuration -/

/-- The rule loop of `ntfe_validate_configuration`. -/
def validateRules (gs : Gs) (seed : u32) (hashsz : u8) : List NtfeRule → Exec Bool
  | [] => .ok true
  | rl :: rls =>
      ruleInsert gs rl seed hashsz true >>= fun r =>
      if !r.1 then .ok false else validateRules gs seed hashsz rls

/-- The checks of `ntfe_validate_configuration` that come before its rule loop. -/
def validateHeader (cfg : NtfeConfig) (cfg_len : u32) : Bool :=
  !(cfg_len.toNat < SZ_NTFE_CONFIG || cfg_len < cfg.length.setWidth 32) &&
  !(cfg.length.toNat < SZ_NTFE_CONFIG + cfg.rule_count.toNat * SZ_NTFE_RULE +
      cfg.meter_count.toNat * SZ_NTFE_METER + cfg.host_count.toNat * SZ_NTFE_HOST) &&
  !(cfg.reserved != 0) &&
  !(cfg.version != NTFE_CFG_VERSION) &&
  !(MAX_RULES < cfg.rule_count.toNat ||
    (MAX_RULES : Int) < (shl32 1 cfg.rule_hashsz.toNat).toInt || cfg.rule_hashsz == 0)

/-- `ntfe_validate_configuration`. It reads the live rule table through `rule_insert`. -/
def ntfeValidateConfiguration (gs : Gs) (cfg : NtfeConfig) (cfg_len : u32) : Exec Bool :=
  if !validateHeader cfg cfg_len then .ok false
  else
  validateRules gs cfg.rule_seed (cfg.rule_hashsz.setWidth 8) cfg.rules >>= fun ok =>
  if !ok then .ok false
  else if MAX_METERS < cfg.meter_count.toNat then .ok false
  else .ok true

/-- The rule loop of `ntfe_configure`. -/
def loadRules (gs : Gs) (seed : u32) (hashsz : u8) : List NtfeRule → Exec (Bool × Gs)
  | [] => .ok (true, gs)
  | rl :: rls =>
      ruleInsert gs rl seed hashsz false >>= fun (ok, gs) =>
      if !ok then .ok (false, gs) else loadRules gs seed hashsz rls

/-- The meter loop of `ntfe_configure`, from index `i`. -/
def loadMeters (gs : Gs) (i : Nat) : List NtfeMeter → Exec Gs
  | [] => .ok gs
  | m :: ms =>
      if h : i < MAX_METERS then
        let dst : TBucketDesc := ⟨m.rate, m.size, m.level⟩
        loadMeters { gs with tbdesc := Function.update gs.tbdesc ⟨i, h⟩ dst } (i + 1) ms
      else .error .outOfBounds

/-- The host loop of `ntfe_configure`. -/
def loadHosts (env : Env) (gs : Gs) : List be32 → Bool × Gs
  | [] => (true, gs)
  | saddr :: hs =>
      let r := hostInsertAuthorized env gs (hostFetchBucket saddr) saddr HOST_PRI_STATIC
      if r.1.isNone then (false, r.2) else loadHosts env r.2 hs

/-- The wipe at the start of `ntfe_configure`, up to the new table size and seed. -/
def resetConfiguration (gs : Gs) (cfg : NtfeConfig) : Gs :=
  let gs := { gs with rules := fun _ => Rule.zero, tbdesc := fun _ => TBucketDesc.zero,
                      pkey := NtfePkey.zero }
  let gs := hostClearStaticallyAuthorized gs
  { gs with rule_hashsz := cfg.rule_hashsz.setWidth 8, rule_seed := cfg.rule_seed }

/-- `ntfe_configure`. -/
def ntfeConfigure (env : Env) (gs : Gs) (cfg : NtfeConfig) (cfg_len : u32) : Exec (Bool × Gs) :=
  ntfeValidateConfiguration gs cfg cfg_len >>= fun ok =>
  if !ok then .ok (false, gs)
  else
  loadRules (resetConfiguration gs cfg) cfg.rule_seed (cfg.rule_hashsz.setWidth 8) cfg.rules >>=
    fun (ok, gs) =>
  if !ok then .ok (false, gs)
  else
  loadMeters gs 0 cfg.meters >>= fun gs =>
  .ok (loadHosts env gs cfg.hosts)

/-- `ntfe_init`, for the clock frequency and the outcome of `RegionAllocate`. -/
def ntfeInit (gs : Gs) (hz : u64) (allocated : Bool) : Bool × Gs :=
  let gs := { gs with hpc_hz := hz, hpool := allocated, pool := fun _ => HostState.zero }
  if !allocated then (false, gs) else (true, hostPoolGrow gs)

/-- `ntfe_cleanup`. -/
def ntfeCleanup (gs : Gs) : Gs := { gs with hpool := false }

end Ntfw
