import Ntfw.Ntfe.Ntfeusr

set_option autoImplicit false

/-! # Rules dialog (`ntfw/dlgrules.cpp`)

The dialog keeps 32 entries, of which a page of eight is in the controls. `RulesDownload`
writes the entries that are defined into the image, as rules, one behind the other. A text is
the list of its bytes, without the terminating zero. -/

namespace Ntfw.Tool

def RULE_PAGE_SZ : Nat := 8
def MAX_RULES : Nat := 32
def MAX_PROTO_NAME : Nat := 16

def ascii (s : String) : List byte := s.toList.map fun c => BitVec.ofNat 8 c.toNat

def strToL4 : List (List byte × u8) :=
  [(ascii "icmp", IP_P_ICMP), (ascii "igmp", IP_P_IGMP), (ascii "ipip", IP_P_IPIP),
    (ascii "tcp", IP_P_TCP), (ascii "egp", IP_P_EGP), (ascii "pup", IP_P_PUP),
    (ascii "udp", IP_P_UDP), (ascii "dccp", IP_P_DCCP), (ascii "rsvp", IP_P_RSVP),
    (ascii "sctp", IP_P_SCTP), (ascii "ldp", IP_P_LDP)]

def strToL3 : List (List byte × u16) :=
  [(ascii "ip", ETH_P_IP), (ascii "arp", ETH_P_ARP), (ascii "ip6", ETH_P_IPV6),
    (ascii "ipx", ETH_P_IPX), (ascii "802.1q", ETH_P_8021Q), (ascii "ptp", ETH_P_PTP)]

/-- `Rule::Proto`: a zero-terminated text in a buffer of `MAX_PROTO_NAME` bytes. -/
structure Proto where
  chars : List byte
  fits : chars.length < MAX_PROTO_NAME
  nonzero : ∀ c ∈ chars, c ≠ 0

/-- `Rule`, an entry of the dialog. -/
structure Rule where
  proto : Proto
  port : u16
  byteCost : u16
  packetCost : u16
  synCost : u16
  byteMeter : BitVec 2
  packetMeter : BitVec 2
  synMeter : BitVec 2

/-- The entries, the position of the scroll bar, and what the controls of the page read. -/
structure Dialog where
  rules : Fin MAX_RULES → Rule
  scrollPos : Fin (MAX_RULES - RULE_PAGE_SZ + 1)
  page : Fin RULE_PAGE_SZ → Rule

/-- The entries once the page is synchronized. -/
def Dialog.synchronized (dlg : Dialog) (i : Fin MAX_RULES) : Rule :=
  if h : dlg.scrollPos.val ≤ i.val ∧ i.val < dlg.scrollPos.val + RULE_PAGE_SZ then
    dlg.page ⟨i.val - dlg.scrollPos.val, by omega⟩
  else dlg.rules i

def Dialog.entries (dlg : Dialog) : List Rule := (List.finRange MAX_RULES).map dlg.synchronized

/-! ## Protocols -/

/-- `*p |= 0x20` for every character. -/
def Rule.normalized (rl : Rule) : List byte := rl.proto.chars.map (· ||| 0x20)

/-- The bits of all the characters. -/
def Rule.charBits (rl : Rule) : u8 := rl.normalized.foldl (· ||| ·) 0

/-- `!(v & 0xE0)`, an undefined entry. -/
def Rule.undefined (rl : Rule) : Bool := rl.charBits &&& 0xE0 == 0

def isHexDigit (c : byte) : Bool :=
  (0x30 ≤ c && c ≤ 0x39) || (0x61 ≤ c && c ≤ 0x66)

def hexValue (c : byte) : u16 :=
  if c &&& 0x40 ≠ 0 then (c &&& 0x0F).setWidth 16 + 9 else (c &&& 0x0F).setWidth 16

/-- The loop over a custom protocol: whether it gets to the end, and the number so far. The
bound lets a fifth digit through, which shifts the first one out. -/
def customProto : List byte → u8 → le16 → Bool × le16
  | [], _, ether => (true, ether)
  | c :: cs, digits, ether =>
      if !isHexDigit c || 4 < digits then (false, ether)
      else customProto cs (digits + 1) ((ether <<< 4) + hexValue c)

/-- What an entry makes of the rule at the cursor: `ether`, `proto` and `dport`. -/
def Rule.setProto (src : Rule) (dst : NtfeRule) : Bool × NtfeRule :=
  match strToL4.lookup src.normalized with
  | some proto => (true, { dst with ether := ETH_P_IP, proto := proto, dport := src.port })
  | none =>
      match strToL3.lookup src.normalized with
      | some ether => (true, { dst with ether := ether, proto := 0, dport := 0 })
      | none =>
          let r := customProto src.normalized 0 0
          if r.1 && r.2 &&& 0xFF00 == 0 then
            (true, { dst with ether := ETH_P_IP, proto := r.2.setWidth 8, dport := 0 })
          else (r.1, { dst with ether := r.2, proto := 0, dport := 0 })

def Rule.setCosts (src : Rule) (dst : NtfeRule) : NtfeRule :=
  { dst with
    byte_scale := src.byteCost
    packet_scale := src.packetCost
    syn_scale := src.synCost
    byte_tb := src.byteMeter.setWidth 8
    packet_tb := src.packetMeter.setWidth 8
    syn_tb := src.synMeter.setWidth 8 }

/-! ## The image -/

/-- The stored form of a rule, up to its reserved bytes. -/
def ruleBytes (rl : NtfeRule) : List byte :=
  Mem.bytes16 rl.ether ++ Mem.bytes16 rl.dport ++ Mem.bytes16 rl.byte_scale ++
    Mem.bytes16 rl.packet_scale ++ Mem.bytes16 rl.syn_scale ++
    [rl.proto, rl.byte_tb, rl.packet_tb, rl.syn_tb]

def setVersion (cfg : NtfeConfig) (v : u16) : NtfeConfig := cfg.put 4 (Mem.bytes16 v)
def setLength (cfg : NtfeConfig) (v : u16) : NtfeConfig := cfg.put 6 (Mem.bytes16 v)
def setRuleSeed (cfg : NtfeConfig) (v : u32) : NtfeConfig := cfg.put 80 (Mem.bytes32 v)
def setRuleHashsz (cfg : NtfeConfig) (v : u32) : NtfeConfig := cfg.put 84 (Mem.bytes32 v)
def setRuleCount (cfg : NtfeConfig) (v : u32) : NtfeConfig := cfg.put 88 (Mem.bytes32 v)

/-- The rule that an entry writes at the cursor, and the header that then counts it. -/
def appendRule (cfg : NtfeConfig) (dst : Nat) (rl : NtfeRule) : NtfeConfig :=
  let cfg : NtfeConfig := cfg.put dst (ruleBytes rl)
  let cfg : NtfeConfig := setRuleCount cfg (cfg.rule_count + 1)
  setLength cfg (cfg.length + BitVec.ofNat 16 SZ_NTFE_RULE)

/-- The loop of `RulesDownload`, with the cursor `dst`. It stops at a protocol it does not
recognize, with the rules before it in the image. -/
def downloadRules : List Rule → NtfeConfig → Nat → Bool × NtfeConfig
  | [], cfg, _ => (true, cfg)
  | src :: rest, cfg, dst =>
      if src.undefined then downloadRules rest cfg dst
      else
      let r := src.setProto (cfg.ruleAt dst)
      if !r.1 then (false, cfg.put dst (ruleBytes r.2))
      else downloadRules rest (appendRule cfg dst (src.setCosts r.2)) (dst + SZ_NTFE_RULE)

/-- `RulesDownload`. -/
def rulesDownload (dlg : Dialog) (cfg : NtfeConfig) : Bool × NtfeConfig :=
  downloadRules dlg.entries (setRuleCount cfg 0) SZ_NTFE_CONFIG

end Ntfw.Tool
