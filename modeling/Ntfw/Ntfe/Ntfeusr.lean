import Ntfw.Ntfe.Net
import Ntfw.Lib.BitField

set_option autoImplicit false

/-! # Configuration image, NTFP messages and flow signatures (`ntfe/ntfeusr.h`, `ntfeusr.cpp`)

The on-disk structures are packed, so a configuration image and an NTFP message are, like a
frame, memories read at fixed offsets. -/

namespace Ntfw

def NTFE_CFG_VERSION : u16 := 1

def NTFE_MAX_METERS : Nat := 4
def NTFE_MAX_CPUS : Nat := 64
def NTFE_MAX_RULES : Nat := 128

def NTFP_PORT : u16 := 5662

def NTFE_PKEY_SZ : Nat := 32

/-- The largest configuration file there may be (`ntfwkm/shared.h`). -/
def MAX_NTFE_CFG_SZ : Nat := 0x4000

/-- `ETHER_LE16_TO_FS`: the one-byte encoding of a host-order ethertype. -/
def etherLe16ToFs (ethertype : le16) : u8 := ((htons ethertype >>> 7) ||| 0x80).setWidth 8

/-- `ETHER_BE16_TO_FS`: the same encoding of an ethertype as it lies in the frame. -/
def etherBe16ToFs (ethertype : be16) : u8 := ((ethertype >>> 7) ||| 0x80).setWidth 8

/-! ## The public key -/

/-- `ntfe_pkey`; the bytes of the key. -/
abbrev NtfePkey := Fin NTFE_PKEY_SZ → byte

/-- The low 64 bits of the key, used as protocol magic. -/
def NtfePkey.magic (k : NtfePkey) : u64 :=
  Mem.le64 (fun i => if h : i < NTFE_PKEY_SZ then k ⟨i, h⟩ else 0) 0

/-- The wiped key. -/
def NtfePkey.zero : NtfePkey := fun _ => 0

/-! ## The configuration image -/

/-- `ntfe_meter`. -/
structure NtfeMeter where
  rate : u32
  size : u32
  level : u32
  deriving DecidableEq

/-- `ntfe_rule`. -/
structure NtfeRule where
  ether : le16
  dport : le16
  byte_scale : u16
  packet_scale : u16
  syn_scale : u16
  proto : u8
  byte_tb : u8
  packet_tb : u8
  syn_tb : u8
  deriving DecidableEq

def SZ_NTFE_CONFIG : Nat := 100
def SZ_NTFE_RULE : Nat := 26
def SZ_NTFE_METER : Nat := 16
def SZ_NTFE_HOST : Nat := 32

/-- `ntfe_config`: the fixed header and, behind it, the rules, meters and hosts. -/
abbrev NtfeConfig := Mem

namespace NtfeConfig

def reserved (cfg : NtfeConfig) : u32 := cfg.le32 0
def version (cfg : NtfeConfig) : u16 := cfg.le16 4
def length (cfg : NtfeConfig) : u16 := cfg.le16 6
def pkey (cfg : NtfeConfig) : NtfePkey := fun i => cfg (16 + i.val)
def rule_seed (cfg : NtfeConfig) : u32 := cfg.le32 80
def rule_hashsz (cfg : NtfeConfig) : u32 := cfg.le32 84
def rule_count (cfg : NtfeConfig) : u32 := cfg.le32 88
def meter_count (cfg : NtfeConfig) : u32 := cfg.le32 92
def host_count (cfg : NtfeConfig) : u32 := cfg.le32 96

/-- The rule at the cursor `o`. -/
def ruleAt (cfg : NtfeConfig) (o : Nat) : NtfeRule where
  ether := cfg.le16 o
  dport := cfg.le16 (o + 2)
  byte_scale := cfg.le16 (o + 4)
  packet_scale := cfg.le16 (o + 6)
  syn_scale := cfg.le16 (o + 8)
  proto := cfg (o + 10)
  byte_tb := cfg (o + 11)
  packet_tb := cfg (o + 12)
  syn_tb := cfg (o + 13)

def meterAt (cfg : NtfeConfig) (o : Nat) : NtfeMeter where
  rate := cfg.le32 o
  size := cfg.le32 (o + 4)
  level := cfg.le32 (o + 8)

/-- `saddr` of the host at the cursor `o`; 28 reserved bytes come first. -/
def hostAt (cfg : NtfeConfig) (o : Nat) : be32 := cfg.le32 (o + 28)

/-- The rule section, in order. -/
def rules (cfg : NtfeConfig) : List NtfeRule :=
  (List.range cfg.rule_count.toNat).map (fun i => cfg.ruleAt (SZ_NTFE_CONFIG + i * SZ_NTFE_RULE))

/-- The offset the shared cursor has reached behind the rules. -/
def metersOfs (cfg : NtfeConfig) : Nat := SZ_NTFE_CONFIG + cfg.rule_count.toNat * SZ_NTFE_RULE

def meters (cfg : NtfeConfig) : List NtfeMeter :=
  (List.range cfg.meter_count.toNat).map (fun i => cfg.meterAt (cfg.metersOfs + i * SZ_NTFE_METER))

/-- The offset the shared cursor has reached behind the meters. -/
def hostsOfs (cfg : NtfeConfig) : Nat := cfg.metersOfs + cfg.meter_count.toNat * SZ_NTFE_METER

/-- The addresses of the host section, in order. -/
def hosts (cfg : NtfeConfig) : List be32 :=
  (List.range cfg.host_count.toNat).map (fun i => cfg.hostAt (cfg.hostsOfs + i * SZ_NTFE_HOST))

end NtfeConfig

/-! ## NTFP messages

`ntfp_msg` starts with `ntfp_hdr` (magic and signature); the signed payload follows. -/

def SZ_NTFP_HDR : Nat := 72

/-- The message, behind the UDP header of a frame. -/
abbrev NtfpMsg := Mem

namespace NtfpMsg

/-- `(&frame->udp)[1]`. -/
def ofFrame (f : NetFrame) : NtfpMsg := fun i => f (L4_OFS + SZ_UDP_HDR + i)

def magic (m : NtfpMsg) : u64 := m.le64 0
def signature (m : NtfpMsg) : List byte := m.bytes 8 64
def timestamp (m : NtfpMsg) : u64 := m.le64 SZ_NTFP_HDR
def len (m : NtfpMsg) : u16 := m.le16 (SZ_NTFP_HDR + 14)

/-- `auth.addr`; the nested `ntfp_auth` repeats the header before it. -/
def authAddr (m : NtfpMsg) : be32 := m.le32 (SZ_NTFP_HDR + 16 + SZ_NTFP_HDR)

/-- The first `n` bytes of the payload. -/
def payload (m : NtfpMsg) (n : Nat) : List byte := m.bytes SZ_NTFP_HDR n

end NtfpMsg

/-! ## Flow signatures -/

/-- `ntfe_flowsig`, by its `data` word. -/
abbrev FlowSig := u32

namespace FlowSig

/-- The word whose bytes are the three fields: `ether` lowest, `dport` in the upper half. -/
def mk (ether proto : u8) (dport : be16) : FlowSig := dport ++ (proto ++ ether)

def etherField : BitField.Field 32 := ⟨0, 8, by decide⟩
def protoField : BitField.Field 32 := ⟨8, 8, by decide⟩
def dportField : BitField.Field 32 := ⟨16, 16, by decide⟩

def ether (fs : FlowSig) : u8 := etherField.get fs
def proto (fs : FlowSig) : u8 := protoField.get fs
def dport (fs : FlowSig) : be16 := dportField.get fs

end FlowSig

def ruleHashfn (fs : FlowSig) (seed : u32) : u16 :=
  let a : u32 := ((seed + 0x165667B5) - (fs * 0x3D4D51C3)).rotateLeft 17 * 0x27D4EB2F
  let b : u32 := (a ^^^ (a >>> 15)) * 0x85EBCA77
  let c : u32 := (b ^^^ (b >>> 13)) * 0x0C2B2AE3D
  (c ^^^ (c >>> 16)).setWidth 16

/-- The signature a rule of the image stands for. -/
def ruleSig (ethertype : le16) (port : le16) (proto : u8) : FlowSig :=
  FlowSig.mk (etherLe16ToFs ethertype) proto (htons port)

def ntfeRuleHashfn (seed : u32) (ethertype port : le16) (proto : u8) : u16 :=
  ruleHashfn (ruleSig ethertype port proto) seed

end Ntfw
