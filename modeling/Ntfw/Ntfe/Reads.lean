import Ntfw.Ntfe.Engine
import Ntfw.Lib.Reader

set_option autoImplicit false

/-! # What the parsers read (`ntfe/ntfe.cpp`)

`ntfe_validate_configuration`, `ntfe_configure` and `ntfp_rx_process` once more, as programs
over the memory they are given, which therefore say which of its bytes they read. A field
that a function reads several times is read once here, at its first use, and so is the bound
of a loop; the log lines read fields that have been read before. -/

namespace Ntfw.Reads

/-- A call that reads a memory, and may not return. -/
abbrev ReadExec := ExceptT Stuck Reader

/-! ## Rules -/

/-- `rule_insert`, of the rule at the cursor `rl`. -/
def ruleInsert (gs : Gs) (rl : Nat) (seed : u32) (hashsz : u8) (test : Bool) :
    ReadExec (Bool × Gs) := do
  let ether ← Reader.le16 rl
  let dport ← Reader.le16 (rl + 2)
  let proto ← Reader.byte (rl + 10)
  let hash := ruleIndex (ntfeRuleHashfn seed ether dport proto) hashsz
  if h : hash < MAX_RULES then
    if (gs.rules ⟨hash, h⟩).fsig ≠ 0 then pure (false, gs)
    else if test then pure (true, gs)
    else do
      let byte_scale ← Reader.le16 (rl + 4)
      let packet_scale ← Reader.le16 (rl + 6)
      let syn_scale ← Reader.le16 (rl + 8)
      let byte_tb ← Reader.byte (rl + 11)
      let packet_tb ← Reader.byte (rl + 12)
      let syn_tb ← Reader.byte (rl + 13)
      let src : NtfeRule :=
        ⟨ether, dport, byte_scale, packet_scale, syn_scale, proto, byte_tb, packet_tb, syn_tb⟩
      pure (true, { gs with rules := Function.update gs.rules ⟨hash, h⟩ src.compile })
  else throw .outOfBounds

/-! ## Validation -/

/-- The rule loop of `ntfe_validate_configuration`: rules to go, and the cursor. -/
def validateRules (gs : Gs) (seed : u32) (hashsz : u8) : Nat → Nat → ReadExec Bool
  | 0, _ => pure true
  | n + 1, rl => do
      let r ← ruleInsert gs rl seed hashsz true
      if !r.1 then pure false else validateRules gs seed hashsz n (rl + SZ_NTFE_RULE)

/-- The size of the four parts of an image, in the 64-bit arithmetic of `size_t`. -/
def sectionsSize (rule_count meter_count host_count : u32) : u64 :=
  BitVec.ofNat 64 SZ_NTFE_CONFIG + rule_count.setWidth 64 * BitVec.ofNat 64 SZ_NTFE_RULE +
    meter_count.setWidth 64 * BitVec.ofNat 64 SZ_NTFE_METER +
    host_count.setWidth 64 * BitVec.ofNat 64 SZ_NTFE_HOST

/-- The checks of `ntfe_validate_configuration` that come before its rule loop. -/
def validateHeader (cfg_len : u32) : Reader Bool := do
  -- `cfg->length` is looked at only if there is a header.
  if cfg_len.toNat < SZ_NTFE_CONFIG then pure false
  else
  let length ← Reader.le16 6
  if cfg_len < length.setWidth 32 then pure false
  else
  let rule_count ← Reader.le32 88
  let meter_count ← Reader.le32 92
  let host_count ← Reader.le32 96
  if length.setWidth 64 < sectionsSize rule_count meter_count host_count then pure false
  else
  let reserved ← Reader.le32 0
  if reserved ≠ 0 then pure false
  else
  let version ← Reader.le16 4
  if version ≠ NTFE_CFG_VERSION then pure false
  else
  if MAX_RULES < rule_count.toNat then pure false
  else
  let rule_hashsz ← Reader.le32 84
  if (MAX_RULES : Int) < (shl32 1 rule_hashsz.toNat).toInt then pure false
  else pure (rule_hashsz != 0)

/-- `ntfe_validate_configuration`. -/
def ntfeValidateConfiguration (gs : Gs) (cfg_len : u32) : ReadExec Bool := do
  let ok ← validateHeader cfg_len
  if !ok then pure false
  else
  let rule_count ← Reader.le32 88
  let rule_seed ← Reader.le32 80
  let rule_hashsz ← Reader.le32 84
  let ok ← validateRules gs rule_seed (rule_hashsz.setWidth 8) rule_count.toNat SZ_NTFE_CONFIG
  if !ok then pure false
  else
  let meter_count ← Reader.le32 92
  if MAX_METERS < meter_count.toNat then pure false
  else pure true

/-! ## Configuration

The three loops share one cursor: each starts where the one before has left it. -/

/-- The rule loop of `ntfe_configure`, and where it leaves the cursor. -/
def loadRules (gs : Gs) (seed : u32) (hashsz : u8) : Nat → Nat → ReadExec ((Bool × Gs) × Nat)
  | 0, rl => pure ((true, gs), rl)
  | n + 1, rl => do
      let r ← ruleInsert gs rl seed hashsz false
      if !r.1 then pure ((false, r.2), rl) else loadRules r.2 seed hashsz n (rl + SZ_NTFE_RULE)

/-- The meter loop, from index `i`. -/
def loadMeters (gs : Gs) (i : Nat) : Nat → Nat → ReadExec (Gs × Nat)
  | 0, meter => pure (gs, meter)
  | n + 1, meter => do
      let rate ← Reader.le32 meter
      let size ← Reader.le32 (meter + 4)
      let level ← Reader.le32 (meter + 8)
      if h : i < MAX_METERS then
        let dst : TBucketDesc := ⟨rate, size, level⟩
        loadMeters { gs with tbdesc := Function.update gs.tbdesc ⟨i, h⟩ dst } (i + 1) n
          (meter + SZ_NTFE_METER)
      else throw .outOfBounds

/-- The host loop; 28 reserved bytes of a host come before its address. -/
def loadHosts (env : Env) (gs : Gs) : Nat → Nat → Reader (Bool × Gs)
  | 0, _ => pure (true, gs)
  | n + 1, host => do
      let saddr ← Reader.le32 (host + 28)
      let r := hostInsertAuthorized env gs (hostFetchBucket saddr) saddr HOST_PRI_STATIC
      if r.1.isNone then pure (false, r.2) else loadHosts env r.2 n (host + SZ_NTFE_HOST)

/-- The meters and the hosts, from where the rule loop has left the cursor. -/
def loadMetersHosts (env : Env) (gs : Gs) (meter : Nat) : ReadExec (Bool × Gs) := do
  let meter_count ← Reader.le32 92
  let r ← loadMeters gs 0 meter_count.toNat meter
  let host_count ← Reader.le32 96
  loadHosts env r.1 host_count.toNat r.2

/-- The three loops. -/
def loadSections (env : Env) (gs : Gs) : ReadExec (Bool × Gs) := do
  let rule_count ← Reader.le32 88
  let r ← loadRules gs gs.rule_seed gs.rule_hashsz rule_count.toNat SZ_NTFE_CONFIG
  if !r.1.1 then pure (false, r.1.2) else loadMetersHosts env r.1.2 r.2

/-- `ntfe_configure`, behind its validation: the wipe, and the loops. -/
def loadConfiguration (env : Env) (gs : Gs) : ReadExec (Bool × Gs) := do
  let rule_hashsz ← Reader.le32 84
  let rule_seed ← Reader.le32 80
  let gs := { gs with rules := fun _ => Rule.zero, tbdesc := fun _ => TBucketDesc.zero,
                      pkey := NtfePkey.zero }
  let gs := hostClearStaticallyAuthorized gs
  loadSections env { gs with rule_hashsz := rule_hashsz.setWidth 8, rule_seed := rule_seed }

/-- `ntfe_configure`. -/
def ntfeConfigure (env : Env) (gs : Gs) (cfg_len : u32) : ReadExec (Bool × Gs) := do
  let ok ← ntfeValidateConfiguration gs cfg_len
  if !ok then pure (false, gs) else loadConfiguration env gs

/-! ## NTFP messages -/

/-- Offset of the message behind the UDP header. -/
def NTFP_OFS : Nat := L4_OFS + SZ_UDP_HDR

/-- `ntfp_rx_process`, up to the address it authorises. -/
def ntfpRxProcess (verify : Verify) (pkey : NtfePkey) (t : u64) (len : u16) :
    Reader (Option be32) := do
  let magic ← (Reader.le64 0).shift NTFP_OFS
  if magic ≠ pkey.magic then pure none
  else
  let len := len - BitVec.ofNat 16 SZ_ETH_HDR
  if len.toNat < SZ_IP_HDR then pure none
  else
  let ip_len ← Reader.le16 (SZ_ETH_HDR + 2)
  if len < ntohs ip_len then pure none
  else
  let len := ntohs ip_len - BitVec.ofNat 16 SZ_IP_HDR
  if len.toNat < SZ_UDP_HDR then pure none
  else
  let udp_len ← Reader.le16 (L4_OFS + 4)
  if len < ntohs udp_len then pure none
  else
  let len := len - BitVec.ofNat 16 SZ_UDP_HDR
  if len.toNat < SZ_NTFP_HDR then pure none
  else
  let msg_len ← (Reader.le16 (SZ_NTFP_HDR + 14)).shift NTFP_OFS
  if len < msg_len then pure none
  else
  let timestamp ← (Reader.le64 SZ_NTFP_HDR).shift NTFP_OFS
  if timestamp < t - AUTH_TWND / 2 ∨ t + AUTH_TWND / 2 < timestamp then pure none
  else
  let signature ← (Reader.bytes 8 64).shift NTFP_OFS
  let payload ← (Reader.bytes SZ_NTFP_HDR msg_len.toNat).shift NTFP_OFS
  if !verify signature payload pkey then pure none
  else
  let addr ← (Reader.le32 (SZ_NTFP_HDR + 16 + SZ_NTFP_HDR)).shift NTFP_OFS
  if addr = 0 then pure none
  else pure (some addr)

end Ntfw.Reads
