import Ntfw.Engine.Calls
import Ntfw.Engine.Indices

set_option autoImplicit false

/-! # The rule table is the rule list

A rule is placed under the hash of its fields and looked up under the hash of a frame's
signature. Both hash the same word, so a rule is found under its own signature; and as a load
that succeeds has put every rule in a slot of its own, no two rules have one signature. -/

namespace Ntfw

/-! ## Signatures and slots -/

/-- The rule encodes to the signature. -/
def NtfeRule.Encodes (rl : NtfeRule) (fs : FlowSig) : Prop :=
  ruleSig rl.ether rl.dport rl.proto = fs

/-- The entry has the rule's scales and its meter indices, cut to three bits. -/
structure Carries (e : Rule) (rl : NtfeRule) : Prop where
  byte_scale : e.in_byte_scale = rl.byte_scale
  packet_scale : e.in_packet_scale = rl.packet_scale
  syn_scale : e.in_syn_scale = rl.syn_scale
  byte_tb : e.in_byte_tb.toNat = rl.byte_tb.toNat % 8
  packet_tb : e.in_packet_tb.toNat = rl.packet_tb.toNat % 8
  syn_tb : e.in_syn_tb.toNat = rl.syn_tb.toNat % 8

theorem compile_carries (rl : NtfeRule) : Carries rl.compile rl :=
  ⟨rfl, rfl, rfl, BitVec.toNat_setWidth .., BitVec.toNat_setWidth .., BitVec.toNat_setWidth ..⟩

/-- The slot depends on the signature only. -/
theorem NtfeRule.Encodes.index_eq {a b : NtfeRule} {fs : FlowSig} (ha : a.Encodes fs)
    (hb : b.Encodes fs) (seed : u32) (hashsz : u8) : a.index seed hashsz = b.index seed hashsz := by
  unfold NtfeRule.index ntfeRuleHashfn
  rw [ha, hb]

/-- A signature with the mark of a compiled rule is not zero. -/
theorem ne_zero_of_marked {fs : FlowSig} (h : fs.ether.getLsbD 7 = true) : fs ≠ 0 := by
  rintro rfl
  exact absurd h (by decide)

/-! ## After a load -/

/-- A load that succeeds has found the rules' slots different. -/
theorem ntfeConfigure_slotsDistinct {env : Env} {gs gs' : Gs} {cfg : NtfeConfig} {cfg_len : u32}
    (h : ntfeConfigure env gs cfg cfg_len = .ok (true, gs')) : cfg.SlotsDistinct := by
  rcases ntfeConfigure_rules h with ⟨-, hok, -⟩ | ⟨gs0, loaded, gs1, -, hload, hok, -⟩
  · cases hok
  · obtain rfl := hok rfl
    exact ((loadRules_ok hload).2.1.mp rfl).distinct

/-- Rules in different slots have different signatures. -/
theorem NtfeConfig.SlotsDistinct.unique {cfg : NtfeConfig} (h : cfg.SlotsDistinct) {fs : FlowSig}
    {i j : Fin cfg.rules.length} (hi : (cfg.rules.get i).Encodes fs)
    (hj : (cfg.rules.get j).Encodes fs) : i = j := by
  have hslot : cfg.slot (cfg.rules.get i) = cfg.slot (cfg.rules.get j) := hi.index_eq hj _ _
  have hne := List.pairwise_iff_get.mp h
  rcases lt_trichotomy i j with hlt | heq | hgt
  · exact absurd hslot (hne i j hlt)
  · exact heq
  · exact absurd hslot.symm (hne j i hgt)

/-- In a table of at most 128 slots every lookup answers. -/
theorem Applies.ruleLookup_returns {gs : Gs} {cfg : NtfeConfig} (h : Applies gs cfg)
    (hsz : cfg.rule_hashsz.toNat ≤ 7) (fs : FlowSig) :
    ∃ e, ruleLookup gs.toGsRom fs = .ok e := by
  apply ruleLookup_returns_iff.mpr
  apply ruleIndex_lt_of_le
  rw [h.rule_hashsz, hashsz_mod]
  omega

/-- A signature no rule encodes to is not found. -/
theorem Applies.ruleLookup_miss {gs : Gs} {cfg : NtfeConfig} (h : Applies gs cfg)
    (hsz : cfg.rule_hashsz.toNat ≤ 7) {fs : FlowSig} (h0 : fs ≠ 0)
    (hno : ∀ rl ∈ cfg.rules, ¬ rl.Encodes fs) : ruleLookup gs.toGsRom fs = .ok none := by
  obtain ⟨e, he⟩ := h.ruleLookup_returns hsz fs
  cases e with
  | none => exact he
  | some e =>
      obtain ⟨rl, hrl, henc⟩ := (h.compiled.finds_iff h0).mp ⟨e, he⟩
      exact absurd henc (hno rl hrl)

/-- A rule is found under its signature, in its compiled form. -/
theorem Applies.ruleLookup_hit {gs : Gs} {cfg : NtfeConfig} (h : Applies gs cfg) {rl : NtfeRule}
    (hrl : rl ∈ cfg.rules) {fs : FlowSig} (henc : rl.Encodes fs) :
    ruleLookup gs.toGsRom fs = .ok (some rl.compile) := by
  obtain rfl := henc
  exact h.finds_rule hrl

/-- **The compiled rule table is exactly the configured rule list.** After a configuration that
succeeds, a lookup finds a signature exactly when a rule of the image encodes to it; that rule
is the only one, and the entry found carries its costs and meters. Every other signature, one
of an earlier configuration's rule for example, is not found. -/
theorem ruleTable_exact {env : Env} {gs gs' : Gs} {cfg : NtfeConfig} {cfg_len : u32}
    (hsz : 1 ≤ cfg.rule_hashsz.toNat ∧ cfg.rule_hashsz.toNat ≤ 7)
    (h : ntfeConfigure env gs cfg cfg_len = .ok (true, gs')) {fs : FlowSig}
    (hmark : fs.ether.getLsbD 7 = true) :
    ((∃ e, ruleLookup gs'.toGsRom fs = .ok (some e)) ↔ ∃ rl ∈ cfg.rules, rl.Encodes fs)
    ∧ (∀ i j : Fin cfg.rules.length,
        (cfg.rules.get i).Encodes fs → (cfg.rules.get j).Encodes fs → i = j)
    ∧ (∀ rl ∈ cfg.rules, rl.Encodes fs →
        ∃ e, ruleLookup gs'.toGsRom fs = .ok (some e) ∧ e.fsig = fs ∧ Carries e rl)
    ∧ ((∀ rl ∈ cfg.rules, ¬ rl.Encodes fs) → ruleLookup gs'.toGsRom fs = .ok none) := by
  have happ : Applies gs' cfg := ntfeConfigure_applies h
  have h0 : fs ≠ 0 := ne_zero_of_marked hmark
  refine ⟨happ.compiled.finds_iff h0, fun i j => ?_, fun rl hrl henc => ?_, ?_⟩
  · exact (ntfeConfigure_slotsDistinct h).unique
  · exact ⟨rl.compile, happ.ruleLookup_hit hrl henc, henc, compile_carries rl⟩
  · exact happ.ruleLookup_miss hsz.2 h0

/-- The table of an image with one rule, for TCP port 80. -/
theorem ruleTable_exact_http :
    ∃ gs', ntfeConfigure quietEnv Gs.zero httpImage 126 = .ok (true, gs')
      ∧ (ruleSig ETH_P_IP 80 IP_P_TCP).ether.getLsbD 7 = true
      ∧ ((∃ e, ruleLookup gs'.toGsRom (ruleSig ETH_P_IP 80 IP_P_TCP) = .ok (some e))
          ↔ ∃ rl ∈ httpImage.rules, rl.Encodes (ruleSig ETH_P_IP 80 IP_P_TCP))
      ∧ (∀ i j : Fin httpImage.rules.length,
          (httpImage.rules.get i).Encodes (ruleSig ETH_P_IP 80 IP_P_TCP) →
          (httpImage.rules.get j).Encodes (ruleSig ETH_P_IP 80 IP_P_TCP) → i = j)
      ∧ (∀ rl ∈ httpImage.rules, rl.Encodes (ruleSig ETH_P_IP 80 IP_P_TCP) →
          ∃ e, ruleLookup gs'.toGsRom (ruleSig ETH_P_IP 80 IP_P_TCP) = .ok (some e)
            ∧ e.fsig = ruleSig ETH_P_IP 80 IP_P_TCP ∧ Carries e rl)
      ∧ ((∀ rl ∈ httpImage.rules, ¬ rl.Encodes (ruleSig ETH_P_IP 80 IP_P_TCP)) →
          ruleLookup gs'.toGsRom (ruleSig ETH_P_IP 80 IP_P_TCP) = .ok none) := by
  obtain ⟨gs', hconf, -, -, -⟩ := httpImage_applied
  exact ⟨gs', hconf, by decide, ruleTable_exact (by decide +kernel) hconf (by decide)⟩

end Ntfw
