import Ntfw.Image.Upload
import Ntfw.Image.Custom

set_option autoImplicit false

/-! # From an image to the dialog and back

A rule becomes an entry with the name or the number of its protocol, and the entry a rule again.
The number is written without leading zeros, so an ethertype below 0x100 looks like a protocol
of IPv4. Every other rule that the tool could have written itself comes back as it was. -/

namespace Ntfw.Tool

/-! ## The text of a rule -/

/-- The text of the protocol of a rule. -/
def entryText (rl : NtfeRule) : List byte :=
  if rl.ether ≠ ETH_P_IP then l3Text rl.ether else l4Text rl.proto

theorem hexText_ne_nil (n : Nat) : hexText n ≠ [] :=
  fun h => Numeral.write_ne_nil 16 n (List.map_eq_nil_iff.mp h)

theorem zero_notMem_hexText (n : Nat) : (0 : byte) ∉ hexText n := by
  have hdigit : ∀ d < 16, digitChar d ≠ 0 := by decide
  intro hc
  obtain ⟨d, hd, hzero⟩ := List.mem_map.mp hc
  exact hdigit d (Numeral.lt_of_mem_write (by decide) hd) hzero

theorem entryText_ne_nil (rl : NtfeRule) : entryText rl ≠ [] :=
  protocolText_of (P := fun text => text ≠ []) (by decide) (by decide)
    (fun n _ => hexText_ne_nil n) rl

/-- The text is in the entry as a whole. -/
theorem chars_ofNtfeRule (rl : NtfeRule) :
    (Rule.ofNtfeRule rl).proto.chars = entryText rl := by
  have hfits : (entryText rl).length < MAX_PROTO_NAME :=
    protocolText_of (P := fun text => text.length < MAX_PROTO_NAME) (by decide) (by decide)
      (fun n hn => Nat.lt_of_le_of_lt (length_hexText_le (by decide) hn) (by decide)) rl
  have hzero : (0 : byte) ∉ entryText rl :=
    protocolText_of (P := fun text => (0 : byte) ∉ text) (by decide) (by decide)
      (fun n _ => zero_notMem_hexText n) rl
  exact congrArg Proto.chars
    (Proto.ofText_eq ⟨entryText rl, hfits, fun c hc h0 => hzero (h0 ▸ hc)⟩)

theorem normalized_ofNtfeRule (rl : NtfeRule) :
    (Rule.ofNtfeRule rl).normalized = (entryText rl).map (· ||| 0x20) := by
  rw [Rule.normalized, chars_ofNtfeRule]

/-- **A number is read as it was written.** -/
theorem typedNumber_hexText (n : Nat) : typedNumber (hexText n) = some n := by
  have hdigit : ∀ d < 16, (typedDigit (digitChar d)).map BitVec.toNat = some d := by decide
  have hlt : ∀ d ∈ Numeral.write 16 n, d < 16 := fun _ hd =>
    Numeral.lt_of_mem_write (by decide) hd
  calc typedNumber (hexText n) = some (Numeral.read 16 (Numeral.write 16 n) 0) :=
        Numeral.scan_map _ 16 digitChar hdigit hlt 0
    _ = some n := by rw [Numeral.read_write]

/-! ## One rule -/

/-- **A rule that the dialog can show**: without a protocol and a port above another layer, with a
port for a protocol that has a name only, and with meters that there are. -/
structure Editable (rl : NtfeRule) : Prop where
  layer3 : rl.ether ≠ ETH_P_IP → rl.proto = 0 ∧ rl.dport = 0
  port : rl.ether = ETH_P_IP → rl.dport ≠ 0 → (l4ToStr.lookup rl.proto).isSome = true
  byte_tb : rl.byte_tb.toNat < 4
  packet_tb : rl.packet_tb.toNat < 4
  syn_tb : rl.syn_tb.toNat < 4

/-- What becomes of a rule: an ethertype below 0x100 is taken for a protocol of IPv4. -/
def reread (rl : NtfeRule) : NtfeRule :=
  if rl.ether ≠ ETH_P_IP ∧ rl.ether.toNat < 0x100 then
    { rl with ether := ETH_P_IP, proto := rl.ether.setWidth 8 }
  else rl

/-- Costs and meters come back. -/
theorem setCosts_ofNtfeRule {rl : NtfeRule} (h : Editable rl) (dst : NtfeRule) :
    (Rule.ofNtfeRule rl).setCosts dst
      = { rl with ether := dst.ether, dport := dst.dport, proto := dst.proto } := by
  have hmeter : ∀ b : u8, b.toNat < 4 → (b.setWidth 2).setWidth 8 = b := by
    intro b hb
    apply BitVec.eq_of_toNat_eq
    simp only [BitVec.toNat_setWidth]
    omega
  unfold Rule.setCosts Rule.ofNtfeRule
  simp only [hmeter _ h.byte_tb, hmeter _ h.packet_tb, hmeter _ h.syn_tb]

/-- A number in an entry. -/
theorem ofNtfeRule_number {rl : NtfeRule} {n : Nat} (htext : entryText rl = hexText n)
    (hn : n < 2 ^ 16) : (Rule.ofNtfeRule rl).recognized = true
      ∧ (Rule.ofNtfeRule rl).image = (Rule.ofNtfeRule rl).setCosts
        (if n < 0x100 then ⟨ETH_P_IP, 0, 0, 0, 0, BitVec.ofNat 8 n, 0, 0, 0⟩
          else ⟨BitVec.ofNat 16 n, 0, 0, 0, 0, 0, 0, 0, 0⟩) := by
  have hchars : (Rule.ofNtfeRule rl).proto.chars = hexText n :=
    (chars_ofNtfeRule rl).trans htext
  have hnum : typedNumber (Rule.ofNtfeRule rl).proto.chars = some n := by
    rw [hchars, typedNumber_hexText]
  have hlen : (Rule.ofNtfeRule rl).proto.chars.length ≤ 4 := by
    rw [hchars]
    exact length_hexText_le (by decide) hn
  have hdigits := typedNumber_digits hnum
  obtain ⟨hl4, hl3⟩ := lookup_eq_none_of_digits hdigits
  have himage := Rule.image_of_number hl4 hl3 hnum (by omega)
  rw [Nat.mod_eq_of_lt hn] at himage
  exact ⟨(Rule.recognized_iff hl4 hl3).mpr ⟨hdigits, by omega⟩, himage⟩

/-- The name of an IPv4 protocol in an entry. -/
theorem ofNtfeRule_l4Name {rl : NtfeRule} {e : u8 × List byte} (he : e ∈ l4ToStr)
    (htext : entryText rl = e.2) : (Rule.ofNtfeRule rl).recognized = true
      ∧ (Rule.ofNtfeRule rl).image
        = (Rule.ofNtfeRule rl).setCosts ⟨ETH_P_IP, rl.dport, 0, 0, 0, e.1, 0, 0, 0⟩ := by
  have hnames : ∀ e ∈ l4ToStr, strToL4.lookup (e.2.map (· ||| 0x20)) = some e.1 := by decide
  have hl4 : strToL4.lookup (Rule.ofNtfeRule rl).normalized = some e.1 := by
    rw [normalized_ofNtfeRule, htext, hnames e he]
  unfold Rule.recognized Rule.image Rule.setProto
  rw [hl4]
  exact ⟨rfl, rfl⟩

/-- The name of a protocol of layer 3 in an entry. -/
theorem ofNtfeRule_l3Name {rl : NtfeRule} {e : u16 × List byte} (he : e ∈ l3ToStr)
    (htext : entryText rl = e.2) : (Rule.ofNtfeRule rl).recognized = true
      ∧ (Rule.ofNtfeRule rl).image
        = (Rule.ofNtfeRule rl).setCosts ⟨e.1, 0, 0, 0, 0, 0, 0, 0, 0⟩ := by
  have hnames : ∀ e ∈ l3ToStr, strToL4.lookup (e.2.map (· ||| 0x20)) = none
      ∧ strToL3.lookup (e.2.map (· ||| 0x20)) = some e.1 := by decide
  have hl4 : strToL4.lookup (Rule.ofNtfeRule rl).normalized = none := by
    rw [normalized_ofNtfeRule, htext, (hnames e he).1]
  have hl3 : strToL3.lookup (Rule.ofNtfeRule rl).normalized = some e.1 := by
    rw [normalized_ofNtfeRule, htext, (hnames e he).2]
  unfold Rule.recognized Rule.image Rule.setProto
  rw [hl4, hl3]
  exact ⟨rfl, rfl⟩

/-- Every entry that is made of a rule is recognized. -/
theorem recognized_ofNtfeRule (rl : NtfeRule) : (Rule.ofNtfeRule rl).recognized = true := by
  by_cases hether : rl.ether ≠ ETH_P_IP
  · have htext : entryText rl = l3Text rl.ether := if_pos hether
    rcases lookup_getD_cases l3ToStr rl.ether rl.ether.toNat with ⟨e, he, -, hname⟩ | ⟨-, hnum⟩
    · exact (ofNtfeRule_l3Name he (htext.trans hname)).1
    · exact (ofNtfeRule_number (htext.trans hnum) rl.ether.isLt).1
  · have htext : entryText rl = l4Text rl.proto := if_neg hether
    rcases lookup_getD_cases l4ToStr rl.proto rl.proto.toNat with ⟨e, he, -, hname⟩ | ⟨-, hnum⟩
    · exact (ofNtfeRule_l4Name he (htext.trans hname)).1
    · exact (ofNtfeRule_number (htext.trans hnum)
        (Nat.lt_of_lt_of_le rl.proto.isLt (by decide))).1

/-- **One rule, there and back.** -/
theorem image_ofNtfeRule {rl : NtfeRule} (h : Editable rl) :
    (Rule.ofNtfeRule rl).image = reread rl := by
  unfold reread
  by_cases hether : rl.ether ≠ ETH_P_IP
  · have hwide : ∀ e ∈ l3ToStr, ¬ e.1.toNat < 0x100 := by decide
    obtain ⟨hproto, hdport⟩ := h.layer3 hether
    have htext : entryText rl = l3Text rl.ether := if_pos hether
    rcases lookup_getD_cases l3ToStr rl.ether rl.ether.toNat with ⟨e, he, hk, hname⟩ | ⟨-, hnum⟩
    · rw [(ofNtfeRule_l3Name he (htext.trans hname)).2, setCosts_ofNtfeRule h, ← hk,
        if_neg fun hc => hwide e he hc.2]
      dsimp only
      rw [hk, ← hproto, ← hdport]
    · rw [(ofNtfeRule_number (htext.trans hnum) rl.ether.isLt).2, setCosts_ofNtfeRule h]
      by_cases hlt : rl.ether.toNat < 0x100
      · rw [if_pos hlt, if_pos ⟨hether, hlt⟩, BitVec.ofNat_toNat]
        dsimp only
        rw [← hdport]
      · rw [if_neg hlt, if_neg fun hc => hlt hc.2, BitVec.ofNat_toNat, BitVec.setWidth_eq]
        dsimp only
        rw [← hdport, ← hproto]
  · have hip : rl.ether = ETH_P_IP := not_not.mp hether
    have htext : entryText rl = l4Text rl.proto := if_neg hether
    rw [if_neg fun hc => hether hc.1]
    rcases lookup_getD_cases l4ToStr rl.proto rl.proto.toNat with ⟨e, he, hk, hname⟩ | ⟨hnone, hnum⟩
    · rw [(ofNtfeRule_l4Name he (htext.trans hname)).2, setCosts_ofNtfeRule h]
      dsimp only
      rw [hk, ← hip]
    · -- A protocol without a name has no port.
      have hdport : rl.dport = 0 := by
        by_contra hport
        have hsome := h.port hip hport
        rw [hnone] at hsome
        cases hsome
      have hlt := rl.proto.isLt
      rw [(ofNtfeRule_number (htext.trans hnum) (Nat.lt_trans hlt (by decide))).2,
        setCosts_ofNtfeRule h, if_pos hlt, BitVec.ofNat_toNat, BitVec.setWidth_eq]
      dsimp only
      rw [← hip, ← hdport]

/-- A rule comes back as it was unless its ethertype looks like a protocol of IPv4. -/
theorem reread_eq_iff (rl : NtfeRule) :
    reread rl = rl ↔ (rl.ether ≠ ETH_P_IP → 0x100 ≤ rl.ether.toNat) := by
  unfold reread
  by_cases hlow : rl.ether ≠ ETH_P_IP ∧ rl.ether.toNat < 0x100
  · rw [if_pos hlow]
    refine iff_of_false (fun heq => hlow.1 (congrArg NtfeRule.ether heq).symm) fun hc => ?_
    exact absurd (hc hlow.1) (by omega)
  · rw [if_neg hlow]
    exact iff_of_true rfl fun hne => Nat.le_of_not_lt fun hlt => hlow ⟨hne, hlt⟩

/-! ## The dialog -/

/-- **Scrolling changes no entry.** -/
theorem entries_scroll (dlg : Dialog) (newPos : Int) :
    (scroll dlg newPos).entries = dlg.entries := by
  rw [scroll, Dialog.entries_showing, List.ofFn_eq_map, Dialog.entries]

theorem entries_scrolls (dlg : Dialog) (positions : List Int) :
    (positions.foldl scroll dlg).entries = dlg.entries := by
  induction positions generalizing dlg with
  | nil => rfl
  | cons newPos positions ih => exact (ih (scroll dlg newPos)).trans (entries_scroll dlg newPos)

section

variable {cfg : NtfeConfig}

/-- **The entries of an image** are those of its rules, and undefined ones behind them. -/
theorem ofFn_entriesOf (hfew : cfg.rule_count.toNat ≤ MAX_RULES) :
    List.ofFn (entriesOf cfg) = cfg.rules.map Rule.ofNtfeRule
      ++ List.replicate (MAX_RULES - cfg.rule_count.toNat) .zero := by
  have hlen : cfg.rules.length = cfg.rule_count.toNat := by
    rw [NtfeConfig.rules, List.length_map, List.length_range]
  apply List.ext_getElem
  · rw [List.length_ofFn, List.length_append, List.length_map, List.length_replicate, hlen]
    omega
  · intro j hj hj'
    rw [List.getElem_ofFn, entriesOf, uploaded]
    dsimp only
    by_cases hrule : j < cfg.rule_count.toNat
    · rw [if_pos ⟨Nat.zero_le _, by omega⟩, Nat.sub_zero,
        List.getElem_append_left (by rw [List.length_map, hlen]; exact hrule), List.getElem_map]
      simp only [NtfeConfig.rules, List.getElem_map, List.getElem_range]
    · rw [if_neg (by omega), List.getElem_append_right (by rw [List.length_map, hlen]; omega),
        List.getElem_replicate]

/-- They are all recognized, and those of the rules are read. -/
theorem read_entriesOf (hfew : cfg.rule_count.toNat ≤ MAX_RULES) :
    AllRecognized (List.ofFn (entriesOf cfg))
      ∧ readEntries (List.ofFn (entriesOf cfg)) = cfg.rules.map Rule.ofNtfeRule := by
  have hrules : AllRecognized (cfg.rules.map Rule.ofNtfeRule) := by
    intro rl hrl _
    obtain ⟨src, -, rfl⟩ := List.mem_map.mp hrl
    exact recognized_ofNtfeRule src
  have htext : ∀ rl ∈ cfg.rules.map Rule.ofNtfeRule, decide (rl.proto.chars ≠ []) = true := by
    intro rl hrl
    obtain ⟨src, -, rfl⟩ := List.mem_map.mp hrl
    rw [chars_ofNtfeRule]
    exact decide_eq_true (entryText_ne_nil src)
  have hzero : readEntries (List.replicate (MAX_RULES - cfg.rule_count.toNat) .zero) = [] := by
    rw [readEntries_eq_filter (allRecognized_zero _), List.filter_replicate]
    rfl
  rw [ofFn_entriesOf hfew, readEntries_append hrules, hzero, List.append_nil,
    readEntries_eq_filter hrules, List.filter_eq_self.mpr htext]
  exact ⟨List.forall_mem_append.mpr ⟨hrules, allRecognized_zero _⟩, rfl⟩

/-- **What `RulesDownload` makes of a loaded image**, scrolled to anywhere. -/
theorem rulesDownload_rulesUpload (hfew : cfg.rule_count.toNat ≤ MAX_RULES)
    (hrules : ∀ rl ∈ cfg.rules, Editable rl) : ∃ dlg, rulesUpload.run.value cfg = .ok dlg
      ∧ ∀ positions : List Int,
        (rulesDownload (positions.foldl scroll dlg) emptyConfig).1 = true
          ∧ NtfeConfig.rules (rulesDownload (positions.foldl scroll dlg) emptyConfig).2
            = cfg.rules.map reread := by
  refine ⟨_, (value_rulesUpload cfg).trans (if_pos hfew), fun positions => ?_⟩
  obtain ⟨himg, hall⟩ :=
    rulesDownload_image (positions.foldl scroll (.showing (entriesOf cfg) scrollTop))
  have hentries : (positions.foldl scroll (.showing (entriesOf cfg) scrollTop)).entries
      = List.ofFn (entriesOf cfg) := by
    rw [entries_scrolls, Dialog.entries_showing]
  obtain ⟨hrec, hread⟩ := read_entriesOf hfew
  rw [hentries] at himg hall
  refine ⟨hall.mpr hrec, ?_⟩
  rw [himg.rules, hread, List.map_map]
  exact List.map_congr_left fun rl hrl => image_ofNtfeRule (hrules rl hrl)

/-- **The rules of an image survive** being loaded and stored again. -/
def RoundTrips (cfg : NtfeConfig) : Prop :=
  ∃ dlg, rulesUpload.run.value cfg = .ok dlg
    ∧ (rulesDownload dlg emptyConfig).1 = true
    ∧ NtfeConfig.rules (rulesDownload dlg emptyConfig).2 = cfg.rules

/-- **Rules survive a round trip** exactly if no ethertype looks like a protocol of IPv4. -/
theorem roundTrips_iff (hfew : cfg.rule_count.toNat ≤ MAX_RULES)
    (hrules : ∀ rl ∈ cfg.rules, Editable rl) :
    RoundTrips cfg ↔ ∀ rl ∈ cfg.rules, rl.ether ≠ ETH_P_IP → 0x100 ≤ rl.ether.toNat := by
  obtain ⟨dlg, hdlg, hdown⟩ := rulesDownload_rulesUpload hfew hrules
  obtain ⟨hok, hreread⟩ := hdown []
  have hsame : cfg.rules.map reread = cfg.rules
      ↔ ∀ rl ∈ cfg.rules, rl.ether ≠ ETH_P_IP → 0x100 ≤ rl.ether.toNat := by
    rw [← forall₂_congr fun rl (_ : rl ∈ cfg.rules) => reread_eq_iff rl]
    conv_lhs => rhs; rw [← List.map_id cfg.rules]
    exact List.map_inj_left
  rw [← hsame]
  constructor
  · rintro ⟨dlg', hdlg', -, hsaved⟩
    obtain rfl : dlg = dlg' := Except.ok.inj (hdlg.symm.trans hdlg')
    exact hreread.symm.trans hsaved
  · intro h
    exact ⟨dlg, hdlg, hok, hreread.trans h⟩

end

/-- Rules for a named protocol with a port and one without, for a named ethertype, and for a
protocol and an ethertype that have a number only. -/
def variedRules : List NtfeRule :=
  [⟨ETH_P_IP, 80, 1, 2, 3, IP_P_TCP, 0, 1, 2⟩, ⟨ETH_P_IP, 0, 1, 2, 3, IP_P_ICMP, 3, 1, 2⟩,
    ⟨ETH_P_ARP, 0, 1, 2, 3, 0, 0, 1, 2⟩, ⟨ETH_P_IP, 0, 1, 2, 3, 0x67, 0, 3, 2⟩,
    ⟨0x88CC, 0, 1, 2, 3, 0, 0, 1, 3⟩]

theorem variedRules_rules : (imageOf variedRules).rules = variedRules := by decide +kernel

theorem roundTrips_varied : RoundTrips (imageOf variedRules) := by
  refine (roundTrips_iff (by decide +kernel) ?_).mpr ?_
  · rw [variedRules_rules]
    intro rl hrl
    constructor <;> revert rl hrl <;> decide
  · rw [variedRules_rules]
    decide

/-- A rule for frames with a length in place of an ethertype. -/
def llcRule : NtfeRule := ⟨0x60, 0, 1, 2, 3, 0, 0, 1, 2⟩

/-- **A low ethertype comes back as a protocol of IPv4.** -/
theorem roundTrips_fails : ¬ ∀ cfg : NtfeConfig, cfg.rule_count.toNat ≤ MAX_RULES →
    (∀ rl ∈ cfg.rules, Editable rl) → RoundTrips cfg := by
  intro hclaim
  have hrules : (imageOf [llcRule]).rules = [llcRule] := by decide +kernel
  have hfew : (imageOf [llcRule]).rule_count.toNat ≤ MAX_RULES := by decide +kernel
  have hedit : ∀ rl ∈ (imageOf [llcRule]).rules, Editable rl := by
    rw [hrules, List.forall_mem_singleton]
    constructor <;> decide
  obtain ⟨dlg, hdlg, -, hsame⟩ := hclaim _ hfew hedit
  obtain ⟨dlg', hdlg', hdown⟩ := rulesDownload_rulesUpload hfew hedit
  obtain rfl : dlg = dlg' := Except.ok.inj (hdlg.symm.trans hdlg')
  have hreread := (hdown []).2.symm.trans hsame
  rw [hrules] at hreread
  exact absurd hreread (by decide)

/-! ## Saving and loading -/

theorem editable_setCosts (src : Rule) {dst : NtfeRule}
    (hl3 : dst.ether ≠ ETH_P_IP → dst.proto = 0 ∧ dst.dport = 0)
    (hport : dst.ether = ETH_P_IP → dst.dport ≠ 0 → (l4ToStr.lookup dst.proto).isSome = true) :
    Editable (src.setCosts dst) := by
  have hmeter : ∀ b : BitVec 2, (b.setWidth 8).toNat < 4 := by decide
  exact ⟨hl3, hport, hmeter _, hmeter _, hmeter _⟩

/-- **The tool writes rules that it can show.** -/
theorem Rule.image_editable {src : Rule} (hrec : src.recognized = true) :
    Editable src.image ∧ reread src.image = src.image := by
  have hl4 : ∀ e ∈ strToL4, (l4ToStr.lookup e.2).isSome = true := by decide
  have hl3 : ∀ e ∈ strToL3, 0x100 ≤ e.2.toNat := by decide
  rw [reread_eq_iff]
  unfold Rule.recognized at hrec
  unfold Rule.image Rule.setProto
  cases h4 : strToL4.lookup src.normalized with
  | some p =>
      obtain ⟨l₁, l₂, hmem, -⟩ := List.lookup_eq_some_iff.mp h4
      have hname := hl4 (src.normalized, p) (by rw [hmem]; simp)
      exact ⟨editable_setCosts src (absurd rfl) fun _ _ => hname, absurd rfl⟩
  | none =>
      cases h3 : strToL3.lookup src.normalized with
      | some ether =>
          obtain ⟨l₁, l₂, hmem, -⟩ := List.lookup_eq_some_iff.mp h3
          have hwide := hl3 (src.normalized, ether) (by rw [hmem]; simp)
          exact ⟨editable_setCosts src (fun _ => ⟨rfl, rfl⟩) fun _ h => absurd rfl h,
            fun _ => hwide⟩
      | none =>
          rw [h4, h3] at hrec
          have hend : (customProto src.normalized 0 0).1 = true := hrec
          dsimp only
          rw [hend, Bool.true_and, highByte_eq_zero]
          by_cases hlow : (customProto src.normalized 0 0).2.toNat < 0x100
          · rw [decide_eq_true hlow, if_pos rfl]
            exact ⟨editable_setCosts src (absurd rfl) fun _ h => absurd rfl h, absurd rfl⟩
          · rw [decide_eq_false hlow, if_neg Bool.false_ne_true]
            exact ⟨editable_setCosts src (fun _ => ⟨rfl, rfl⟩) fun _ h => absurd rfl h,
              fun _ => Nat.le_of_not_lt hlow⟩

/-- A file holds an image as its buffer does. -/
theorem Image.loaded {file : File} {seed hashsz : u32} {rls : List NtfeRule}
    (h : Image file.data seed hashsz rls)
    (hlong : (NtfeConfig.length file.data).toNat ≤ file.length) :
    Image (loadBuffer file) seed hashsz rls := by
  refine h.congr fun p hp => if_pos ?_
  have hfits : rls.length ≤ 32 := h.fits
  have hend := h.toNat_length
  unfold SZ_NTFE_CONFIG SZ_NTFE_RULE at hp hend
  unfold MAX_NTFE_CFG_SZ
  omega

/-- **A saved dialog is loaded again**: the entries then make the rules that were saved. -/
theorem saveNtfeConfiguration_load {findRuleMagic : List NtfeRule → Option (u32 × u32)}
    {dlg : Dialog} {answers : Answers} {file file' : File} {written : Option Nat}
    (h : saveNtfeConfiguration findRuleMagic dlg answers file written = (true, file')) :
    ∃ dlg', loadNtfeConfiguration file' = .ok dlg'
      ∧ (rulesDownload dlg' emptyConfig).1 = true
      ∧ NtfeConfig.rules (rulesDownload dlg' emptyConfig).2
        = (readEntries dlg.entries).map Rule.image := by
  obtain ⟨seed, hashsz, himg, hlong, -⟩ := saveNtfeConfiguration_image h
  have hload := himg.loaded hlong
  have hedit : ∀ rl ∈ (readEntries dlg.entries).map Rule.image,
      Editable rl ∧ reread rl = rl := by
    intro rl hrl
    obtain ⟨src, hsrc, rfl⟩ := List.mem_map.mp hrl
    exact Rule.image_editable (List.mem_takeWhile_imp hsrc)
  have hfew : (loadBuffer file').rule_count.toNat ≤ MAX_RULES := by
    rw [hload.toNat_rule_count]
    exact hload.fits
  obtain ⟨dlg', hdlg', hdown⟩ := rulesDownload_rulesUpload hfew
    (by rw [hload.rules]; exact fun rl hrl => (hedit rl hrl).1)
  obtain ⟨hok, hrules⟩ := hdown []
  refine ⟨dlg', hdlg', hok, hrules.trans ?_⟩
  rw [hload.rules]
  exact (List.map_congr_left fun rl hrl => (hedit rl hrl).2).trans (List.map_id _)

end Ntfw.Tool
