import Ntfw.Image.Custom
import Ntfw.Engine.DefaultDeny

set_option autoImplicit false

/-! # From a typed entry to a received frame

An entry of the dialog names an IPv4 protocol by its name or by its number. The tool stores the
port of the entry with every name, and none with a number; the engine looks frames up with
their port for the protocols that have ports, and without for the others. An entry whose port
is handled differently by the two never matches a frame. -/

namespace Ntfw.Tool

/-! ## What an entry names -/

/-- The text is the name of the protocol. -/
def Rule.Named (rl : Rule) (p : u8) : Prop := strToL4.lookup rl.normalized = some p

/-- The text is one or two hexadecimal digits, and the protocol is their value. -/
inductive Rule.Numbered (rl : Rule) : u8 → Prop
  | one {c : byte} {d : BitVec 4} (htext : rl.proto.chars = [c]) (h : typedDigit c = some d) :
      Rule.Numbered rl (d.setWidth 8)
  | two {c c' : byte} {d d' : BitVec 4} (htext : rl.proto.chars = [c, c'])
      (h : typedDigit c = some d) (h' : typedDigit c' = some d') : Rule.Numbered rl (d ++ d')

/-- The entry names the IPv4 protocol. -/
def Rule.Names (rl : Rule) (p : u8) : Prop := rl.Named p ∨ rl.Numbered p

/-- The port of the entry is handled alike by the tool and the engine: a protocol with ports is
named by its name, and another by its number, or with no port. -/
def Rule.PortAgrees (rl : Rule) (p : u8) : Prop :=
  if hasPorts p then rl.Named p else rl.Numbered p ∨ rl.port = 0

/-! ## The rule of an entry -/

/-- The rule is for IPv4 frames of the protocol, with the port. -/
structure IsIpv4Rule (rl : NtfeRule) (p : u8) (dport : le16) : Prop where
  ether : rl.ether = ETH_P_IP
  proto : rl.proto = p
  dport : rl.dport = dport

/-- A name is stored with the port of the entry, whichever protocol it is. -/
theorem Rule.Named.image {rl : Rule} {p : u8} (h : rl.Named p) :
    IsIpv4Rule rl.image p rl.port := by
  unfold Rule.image Rule.setProto
  rw [show strToL4.lookup rl.normalized = some p from h]
  exact ⟨rfl, rfl, rfl⟩

/-- A number in a text is read as what it stands for. -/
theorem Rule.Numbered.read {rl : Rule} {p : u8} (h : rl.Numbered p) :
    (∀ c ∈ rl.normalized, isHexDigit c = true)
      ∧ customProto rl.normalized 0 0 = (true, p.setWidth 16) := by
  cases h with
  | @one c d htext hd =>
      obtain ⟨hdigit, hvalue⟩ := typedDigit_read hd
      have hsum : ∀ d : BitVec 4,
          ((0 : le16) <<< 4) + d.setWidth 16 = (d.setWidth 8).setWidth 16 := by
        decide
      have htext : rl.normalized = [c ||| 0x20] := by
        rw [Rule.normalized, htext]
        rfl
      rw [htext]
      refine ⟨by simpa using hdigit, ?_⟩
      rw [customProto, hdigit, hvalue, hsum]
      rfl
  | @two c c' d d' htext hd hd' =>
      obtain ⟨hdigit, hvalue⟩ := typedDigit_read hd
      obtain ⟨hdigit', hvalue'⟩ := typedDigit_read hd'
      have hsum : ∀ d d' : BitVec 4,
          ((((0 : le16) <<< 4) + d.setWidth 16) <<< 4) + d'.setWidth 16 = (d ++ d').setWidth 16 := by
        decide +kernel
      have htext : rl.normalized = [c ||| 0x20, c' ||| 0x20] := by
        rw [Rule.normalized, htext]
        rfl
      rw [htext]
      refine ⟨by simpa using ⟨hdigit, hdigit'⟩, ?_⟩
      rw [customProto, hdigit, hvalue, customProto, hdigit', hvalue', ← hsum]
      rfl

/-- A number is no name. -/
theorem Rule.Numbered.lookup_eq_none {rl : Rule} {p : u8} (h : rl.Numbered p) :
    strToL4.lookup rl.normalized = none ∧ strToL3.lookup rl.normalized = none := by
  exact lookup_eq_none_of_digits h.read.1

theorem Rule.Numbered.not_named {rl : Rule} {p q : u8} (h : rl.Numbered p) : ¬ rl.Named q := by
  intro hname
  rw [Rule.Named, h.lookup_eq_none.1] at hname
  cases hname

/-- A number is stored without a port. -/
theorem Rule.Numbered.image {rl : Rule} {p : u8} (h : rl.Numbered p) :
    IsIpv4Rule rl.image p 0 := by
  obtain ⟨hl4, hl3⟩ := h.lookup_eq_none
  obtain ⟨-, hread⟩ := h.read
  -- Two digits leave the high byte zero, which is how the tool tells an L4 protocol.
  have hnarrow : ∀ p : u8, (p.setWidth 16 &&& 0xFF00 == (0 : u16)) = true := by decide
  have hback : (p.setWidth 16).setWidth 8 = p := by
    rw [BitVec.setWidth_setWidth_of_le _ (by decide), BitVec.setWidth_eq]
  unfold Rule.image Rule.setProto
  rw [hl4, hl3, hread]
  simp only [Bool.true_and]
  rw [if_pos (hnarrow p)]
  exact ⟨rfl, hback, rfl⟩

theorem Rule.Names.chars_ne_nil {rl : Rule} {p : u8} (h : rl.Names p) : rl.proto.chars ≠ [] := by
  intro hnil
  rcases h with hname | hnum
  · rw [Rule.Named, Rule.normalized, hnil] at hname
    cases hname
  · cases hnum with
    | one htext => simp [hnil] at htext
    | two htext => simp [hnil] at htext

/-- **The rule of an entry is the one its frames are looked up by** exactly if the port is
handled alike. -/
theorem Rule.Names.fsig_iff {rl : Rule} {p : u8} (h : rl.Names p) {dport : be16}
    (hport : hasPorts p = true → dport = htons rl.port ∧ dport ≠ 0) :
    rl.image.compile.fsig = ipv4Sig p dport ↔ rl.PortAgrees p := by
  rw [compile_fsig_eq_ipv4Sig, Rule.PortAgrees]
  rcases h with hname | hnum
  · rw [hname.image.ether, hname.image.proto, hname.image.dport]
    by_cases hp : hasPorts p = true
    · rw [if_pos hp, if_pos hp, (hport hp).1, ntohs_htons]
      exact iff_of_true ⟨rfl, rfl, rfl⟩ hname
    · -- The frame is looked up without a port, and the stored one is the entry's.
      have hnot : ¬ rl.Numbered p := fun hnum => hnum.not_named hname
      rw [if_neg hp, if_neg hp, or_iff_right hnot]
      simp
  · rw [hnum.image.ether, hnum.image.proto, hnum.image.dport]
    by_cases hp : hasPorts p = true
    · -- The frame's port is not the zero that is stored.
      have hne : (0 : le16) ≠ ntohs dport := by
        intro h0
        refine (hport hp).2 ?_
        rw [← htons_ntohs dport, ← h0]
        decide
      rw [if_pos hp, if_pos hp]
      exact iff_of_false (fun hc => hne hc.2.2) hnum.not_named
    · rw [if_neg hp, if_neg hp]
      exact iff_of_true ⟨rfl, rfl, rfl⟩ (Or.inl hnum)

/-! ## From the dialog to the engine -/

/-- **The dialog is saved in the file**: every entry with a text was recognized, and the seed
puts the rules in slots of their own. -/
structure SavedAs (dlg : Dialog) (file' : File) : Prop where
  parsed : (rulesDownload dlg emptyConfig).1 = true
  saved : ∃ findRuleMagic answers file written,
    saveNtfeConfiguration findRuleMagic dlg answers file written = (true, file')
  collisionFree : CollisionFree (NtfeConfig.rules file'.data) (NtfeConfig.rule_seed file'.data)
    (NtfeConfig.rule_hashsz file'.data)

/-- **The engine runs on the file**: it took it when it was fresh, and has not been configured
again since. -/
def RunsOn (verify : Verify) (file : File) (gs : Gs) : Prop :=
  ∃ env gs₀ gs₁ cfg_len calls, Initialized gs₀
    ∧ ntfeConfigure env gs₀ file.data cfg_len = .ok (true, gs₁) ∧ NoConfigure calls
    ∧ Transition.run (engineStep verify) gs₁ calls = .ok gs

/-- The rules of a saved file are those of the entries with a text. -/
theorem SavedAs.image_mem {dlg : Dialog} {file : File} (h : SavedAs dlg file) {src : Rule}
    (hsrc : src ∈ dlg.entries) (htext : src.proto.chars ≠ []) :
    src.image ∈ NtfeConfig.rules file.data := by
  obtain ⟨findRuleMagic, answers, file₀, written, hsave⟩ := h.saved
  obtain ⟨seed, hashsz, himg, -⟩ := saveNtfeConfiguration_image hsave
  have hall := (rulesDownload_image dlg).2.mp h.parsed
  rw [himg.rules]
  exact List.mem_map_of_mem (mem_readEntries hall hsrc htext)

theorem RunsOn.applies {verify : Verify} {file : File} {gs : Gs} (h : RunsOn verify file gs) :
    Applies gs file.data := by
  obtain ⟨env, gs₀, gs₁, cfg_len, calls, -, hconf, hcalls, hrun⟩ := h
  exact run_applies hconf hcalls hrun

/-- A dialog that was read to the end, and has an entry, runs on a fresh engine as soon as it is
saved; no host is authorised then. -/
theorem saved_runs {findRuleMagic : List NtfeRule → Option (u32 × u32)}
    (hsound : SearchSound findRuleMagic) {dlg : Dialog} {answers : Answers} {file file' : File}
    {written : Option Nat} (hparsed : (rulesDownload dlg emptyConfig).1 = true)
    (hne : readEntries dlg.entries ≠ [])
    (hsave : saveNtfeConfiguration findRuleMagic dlg answers file written = (true, file')) :
    SavedAs dlg file' ∧ ∃ gs, (∀ verify, RunsOn verify file' gs) ∧ ∀ a, ¬ HostAuthorized gs a := by
  obtain ⟨seed, hashsz, himg, -, hcase⟩ := saveNtfeConfiguration_image hsave
  -- There is a rule, so there is a seed for it, and a sound search has found a good one.
  obtain ⟨-, hmagic⟩ := hcase.resolve_left fun hc => hne hc.1
  obtain ⟨hpos, hle, hfree⟩ :=
    hsound _ seed hashsz (fun hnil => hne (List.map_eq_nil_iff.mp hnil)) hmagic
  constructor
  · refine ⟨hparsed, ⟨findRuleMagic, answers, file, written, hsave⟩, ?_⟩
    rw [himg.rules, himg.rule_seed, himg.rule_hashsz]
    exact hfree
  · have hinit : Initialized (ntfeInit Gs.zero 0 true).2 := ⟨0, rfl⟩
    have hlen : (NtfeConfig.length file'.data).toNat
        ≤ ((NtfeConfig.length file'.data).setWidth 32 : u32).toNat := by
      rw [BitVec.toNat_setWidth]
      omega
    obtain ⟨-, gs, hconf, hswept⟩ := himg.applied hpos hle hfree hinit quietEnv hlen
    refine ⟨gs, fun verify => ⟨quietEnv, _, gs, _, [], hinit, hconf, noConfigure_nil, rfl⟩, ?_⟩
    rintro a ⟨k, -, hpri⟩
    refine hpri ?_
    rw [(hswept _).pri]
    exact HtBucket.zero_pri k

/-! ## From the engine to the frame -/

/-- The frames an entry is for: well-formed IPv4 frames of the protocol, and to its port if the
protocol has ports. -/
structure TypedTraffic (src : Rule) (p : u8) (frame : NetFrame) : Prop where
  ip : frame.ethProto = htons ETH_P_IP
  wellFormed : RxWellFormed frame
  proto : frame.ipProto = p
  dport : hasPorts p = true → frame.tcpDport = htons src.port

/-- The lookup that `ntfe_rx` makes for a frame with an IPv4 header. -/
def rxLookup (gs : GsRom) (frame : NetFrame) : Exec (Option Ntfw.Rule) :=
  ruleLookup gs (rxFlowsig frame &&& portMask frame.ipProto)

/-- How `ntfe_rx` goes on from the lookup. -/
def rxLookedUp (env : Env) (gs : Gs) (frame : NetFrame) (len : u16) :
    Option Ntfw.Rule → Exec (RxExit × Gs)
  | none =>
      rxDrop env (gs.count env.cpu fun sc => { sc with rx_drop_priv := sc.rx_drop_priv + 1 }) .drop
  | some rl =>
      rxPolice env gs (hostFetchBucket frame.ipSaddr) frame.ipSaddr
        (hostLookup (gs.host_tbl (hostFetchBucket frame.ipSaddr)) frame.ipSaddr) rl len

/-- **`ntfe_rx` gets to the lookup and finds the rule.** -/
structure RxFinds (verify : Verify) (gs : Gs) (frame : NetFrame) (rl : Ntfw.Rule) : Prop where
  reached : ∀ env len,
    ntfeRxExit verify env gs frame len = rxLookup gs.toGsRom frame >>= rxLookedUp env gs frame len
  found : rxLookup gs.toGsRom frame = .ok (some rl)

section

variable {verify : Verify} {gs : Gs} {src : Rule} {p : u8} {frame : NetFrame}

theorem TypedTraffic.rxLookup_eq (h : TypedTraffic src p frame) (gs : GsRom) :
    rxLookup gs frame = ruleLookup gs (ipv4Sig p frame.tcpDport) := by
  rw [rxLookup, rxFlowsig_masked h.ip, h.proto]
  rfl

/-- Frames of unauthorised hosts are looked up. -/
theorem TypedTraffic.reached (h : TypedTraffic src p frame)
    (hauth : ¬ HostAuthorized gs frame.ipSaddr) (env : Env) (len : u16) :
    ntfeRxExit verify env gs frame len
      = rxLookup gs.toGsRom frame >>= rxLookedUp env gs frame len := by
  rw [(ntfeRxExit_of_wellFormed h.ip h.wellFormed).2 hauth, h.rxLookup_eq, h.proto]
  congr 1

/-- The engine finds the rule of an entry under the signature of the frame. -/
theorem SavedAs.rxFinds_iff {file : File} {dlg : Dialog} (hsaved : SavedAs dlg file)
    (happ : Applies gs file.data) (hsrc : src ∈ dlg.entries) (hname : src.Names p)
    (hframe : TypedTraffic src p frame) (hauth : ¬ HostAuthorized gs frame.ipSaddr) :
    RxFinds verify gs frame src.image.compile
      ↔ src.image.compile.fsig = ipv4Sig p frame.tcpDport := by
  constructor
  · rintro ⟨-, hfound⟩
    rw [hframe.rxLookup_eq] at hfound
    exact (ruleLookup_eq_some.mp hfound).2
  · intro hsig
    refine ⟨hframe.reached hauth, ?_⟩
    rw [hframe.rxLookup_eq]
    rw [← hsig]
    exact happ.finds_rule (hsaved.image_mem hsrc hname.chars_ne_nil)

/-- **Typed rules match the traffic they name** exactly if the port of the entry is handled
alike: in every state of an engine that runs on the saved dialog, `ntfe_rx` finds the rule of
the entry for a frame of an unauthorised host. -/
theorem typedRule_found_iff {dlg : Dialog} {file : File} (hsaved : SavedAs dlg file)
    (hruns : RunsOn verify file gs) (hsrc : src ∈ dlg.entries) (hname : src.Names p)
    (hframe : TypedTraffic src p frame) (hauth : ¬ HostAuthorized gs frame.ipSaddr) :
    RxFinds verify gs frame src.image.compile ↔ src.PortAgrees p := by
  have hport : hasPorts p = true → frame.tcpDport = htons src.port ∧ frame.tcpDport ≠ 0 :=
    fun hp => ⟨hframe.dport hp, hframe.wellFormed.dport (hframe.proto ▸ hp)⟩
  rw [hsaved.rxFinds_iff hruns.applies hsrc hname hframe hauth, hname.fsig_iff hport]

end

/-- The first entry of the dialog with the one text. -/
def firstEntry (proto : Proto) : Rule := ⟨proto, 80, 0, 0, 0, 0, 0, 0⟩

theorem firstEntry_mem (proto : Proto) : firstEntry proto ∈ (dialogOf proto).entries :=
  List.mem_map.mpr ⟨⟨0, by decide⟩, List.mem_finRange _, rfl⟩

/-- A dialog with one text that the tool recognizes, saved with the seed 0. -/
theorem dialogOf_runs (proto : Proto) (htext : proto.chars ≠ [])
    (hparsed : (rulesDownload (dialogOf proto) emptyConfig).1 = true)
    (hsave : (saveNtfeConfiguration trySeedZero (dialogOf proto) ⟨false, true⟩ noFile
      (some 126)).1 = true) :
    ∃ file gs, SavedAs (dialogOf proto) file ∧ (∀ verify, RunsOn verify file gs)
      ∧ ∀ a, ¬ HostAuthorized gs a := by
  have hread : firstEntry proto ∈ readEntries (dialogOf proto).entries :=
    mem_readEntries ((rulesDownload_image _).2.mp hparsed) (firstEntry_mem proto) htext
  obtain ⟨hsaved, gs, hruns, hauth⟩ := saved_runs trySeedZero_sound hparsed
    (List.ne_nil_of_mem hread) (Prod.ext hsave rfl)
  exact ⟨_, gs, hsaved, hruns, hauth⟩

/-- Frames to TCP port 80 match the entry "tcp" with port 80. -/
theorem typedRule_found_iff_tcp : ∃ dlg file gs src,
    SavedAs dlg file ∧ RunsOn (fun _ _ _ => false) file gs ∧ src ∈ dlg.entries
      ∧ src.Names IP_P_TCP ∧ TypedTraffic src IP_P_TCP httpFrame
      ∧ (RxFinds (fun _ _ _ => false) gs httpFrame src.image.compile ↔ src.PortAgrees IP_P_TCP) := by
  let proto : Proto := ⟨ascii "tcp", by decide, by decide⟩
  obtain ⟨file, gs, hsaved, hruns, hauth⟩ := dialogOf_runs proto (by decide)
    (by decide +kernel) (by decide +kernel)
  have hname : (firstEntry proto).Names IP_P_TCP := Or.inl rfl
  have hframe : TypedTraffic (firstEntry proto) IP_P_TCP httpFrame :=
    ⟨httpFrame_ipv4, httpFrame_wellFormed, by decide +kernel, by decide +kernel⟩
  exact ⟨dialogOf proto, file, gs, firstEntry proto, hsaved, hruns _, firstEntry_mem proto, hname,
    hframe, typedRule_found_iff hsaved (hruns _) (firstEntry_mem proto) hname hframe (hauth _)⟩

/-- An ICMP frame. -/
def icmpFrame : NetFrame := sampleFrame IP_P_ICMP [10, 0, 0, 1] 0 [10, 0, 0, 2] 0

/-- **Some typed rules never match**: the entry "icmp" with 80 in its port field is stored with
the port, and no frame of ICMP is looked up with one. -/
theorem typedRule_never_found : ¬ ∀ (verify : Verify) (dlg : Dialog) (file : File) (gs : Gs)
    (src : Rule) (p : u8) (frame : NetFrame),
    SavedAs dlg file → RunsOn verify file gs → src ∈ dlg.entries → src.Names p →
    TypedTraffic src p frame → ¬ (p = IP_P_UDP ∧ src.port = NTFP_PORT) →
    ¬ HostAuthorized gs frame.ipSaddr → RxFinds verify gs frame src.image.compile := by
  intro hclaim
  let proto : Proto := ⟨ascii "icmp", by decide, by decide⟩
  obtain ⟨file, gs, hsaved, hruns, hauth⟩ := dialogOf_runs proto (by decide)
    (by decide +kernel) (by decide +kernel)
  have hname : (firstEntry proto).Names IP_P_ICMP := Or.inl rfl
  have hframe : TypedTraffic (firstEntry proto) IP_P_ICMP icmpFrame :=
    ⟨by decide +kernel, by constructor <;> decide +kernel, by decide +kernel, by decide +kernel⟩
  have hfinds := hclaim (fun _ _ _ => false) _ file gs _ _ _ hsaved (hruns _)
    (firstEntry_mem proto) hname hframe (by decide) (hauth _)
  have hsig := (hsaved.rxFinds_iff (hruns fun _ _ _ => false).applies (firstEntry_mem proto)
    hname hframe (hauth _)).mp hfinds
  exact absurd hsig (by decide +kernel)

end Ntfw.Tool
