import Ntfw.Engine.DefaultDeny
import Ntfw.Engine.Indices

set_option autoImplicit false

/-! # The two directions

`ntfe_rx` and `ntfe_tx` build the signature of a frame by hand, each in its own way. The
transmit path leaves out the high bit of the encoded ethertype, which every compiled rule
has, so that its lookups find no rule. All they can find is an empty slot: the signature of a
frame of protocol 0 is then zero. Under a size of 31 a lookup can leave the table, and is then
not counted as an answer. -/

namespace Ntfw

/-- Both directions look the frame up in the table, and find a rule both or neither. -/
def ClassifiedAlike (gs : GsRom) (frame : NetFrame) : Prop :=
  ∃ t r, ruleLookup gs (txFlowsig frame &&& portMask frame.ipProto) = .ok t
    ∧ ruleLookup gs (rxFlowsig frame &&& portMask frame.ipProto) = .ok r
    ∧ (t.isSome = true ↔ r.isSome = true)

/-- The slots of both signatures of a frame are in the table. -/
def SlotsInTable (cfg : NtfeConfig) (proto : u8) (dport : be16) : Prop :=
  cfg.sigSlot (txSig proto dport) < MAX_RULES ∧ cfg.sigSlot (ipv4Sig proto dport) < MAX_RULES

/-- No rule of the image goes to the slot of the zero signature, and that slot exists. -/
def ZeroSlotEmpty (cfg : NtfeConfig) : Prop :=
  cfg.sigSlot 0 < MAX_RULES ∧ ∀ rl ∈ cfg.rules, cfg.slot rl ≠ cfg.sigSlot 0

/-- What the transmit path finds, in any table of compiled rules. -/
theorem Marked.txFinds_iff {gs : GsRom} (h : Marked gs) (proto : u8) (dport : be16) :
    Finds gs (txSig proto dport) ↔ proto = 0 ∧ SlotFree gs (hashFlowsig gs 0) := by
  rw [txSig, h.finds_unmarked]
  refine and_congr_left fun _ => ⟨fun h => h.1, ?_⟩
  rintro rfl
  exact ⟨rfl, if_neg (by decide)⟩

/-- What the transmit path finds under an applied image. -/
theorem Applies.txFinds_iff {gs : Gs} {cfg : NtfeConfig} (h : Applies gs cfg) (proto : u8)
    (dport : be16) : Finds gs.toGsRom (txSig proto dport) ↔ proto = 0 ∧ ZeroSlotEmpty cfg := by
  have hslot : SlotFree gs.toGsRom (hashFlowsig gs.toGsRom 0) ↔ ZeroSlotEmpty cfg := by
    rw [h.compiled.slotFree_iff, h.hashFlowsig_eq, h.rule_seed, h.rule_hashsz]
    exact Iff.rfl
  calc Finds gs.toGsRom (txSig proto dport)
      ↔ proto = 0 ∧ SlotFree gs.toGsRom (hashFlowsig gs.toGsRom 0) :=
        h.compiled.marked.txFinds_iff proto dport
    _ ↔ proto = 0 ∧ ZeroSlotEmpty cfg := and_congr_right fun _ => hslot

/-- Under an applied image both lookups return exactly if both slots are in the table, and
then they have found what `Finds` says. -/
theorem Applies.classifiedAlike_iff {gs : Gs} {cfg : NtfeConfig} (h : Applies gs cfg)
    {frame : NetFrame} (hip : frame.ethProto = htons ETH_P_IP) :
    ClassifiedAlike gs.toGsRom frame
      ↔ SlotsInTable cfg frame.ipProto frame.tcpDport
        ∧ (Finds gs.toGsRom (txSig frame.ipProto frame.tcpDport)
          ↔ Finds gs.toGsRom (ipv4Sig frame.ipProto frame.tcpDport)) := by
  rw [ClassifiedAlike, txFlowsig_masked hip, rxFlowsig_masked hip, ← txSig, ← ipv4Sig,
    SlotsInTable, ← h.hashFlowsig_eq, ← h.hashFlowsig_eq, ← ruleLookup_returns_iff,
    ← ruleLookup_returns_iff]
  constructor
  · rintro ⟨t, r, ht, hr, hiff⟩
    rw [isSome_iff_finds ht, isSome_iff_finds hr] at hiff
    exact ⟨⟨⟨t, ht⟩, r, hr⟩, hiff⟩
  · rintro ⟨⟨⟨t, ht⟩, r, hr⟩, hiff⟩
    rw [← isSome_iff_finds ht, ← isSome_iff_finds hr] at hiff
    exact ⟨t, r, ht, hr, hiff⟩

/-- **The two directions classify a frame alike** exactly when both of its slots are in the
table and the image has a rule for it if and only if it is one of the few that the transmit path
finds something for: a frame of protocol 0, under an image that leaves the slot of the zero
signature empty. -/
theorem directions_agree_iff {env : Env} {gs₀ gs : Gs} {cfg : NtfeConfig} {cfg_len : u32}
    (hconf : ntfeConfigure env gs₀ cfg cfg_len = .ok (true, gs)) {frame : NetFrame}
    (hip : TxIpv4 frame) :
    ClassifiedAlike gs.toGsRom frame
      ↔ SlotsInTable cfg frame.ipProto frame.tcpDport
        ∧ (HasRule cfg frame.ipProto frame.tcpDport ↔ frame.ipProto = 0 ∧ ZeroSlotEmpty cfg) := by
  have happ := ntfeConfigure_applies hconf
  rw [happ.classifiedAlike_iff hip.ip, happ.txFinds_iff, happ.rxFinds_iff]
  exact and_congr_right fun _ => Iff.comm

/-- A size of up to 7 keeps every slot in the table; the validation lets 31 pass besides. -/
theorem slotsInTable_of_hashsz {cfg : NtfeConfig} (h : cfg.rule_hashsz.toNat % 32 ≤ 7)
    (proto : u8) (dport : be16) : SlotsInTable cfg proto dport :=
  ⟨ruleIndex_lt_of_le (by rwa [hashsz_mod]) _, ruleIndex_lt_of_le (by rwa [hashsz_mod]) _⟩

theorem httpFrame_tx : TxIpv4 httpFrame := by
  refine ⟨?_, ?_⟩ <;> decide

/-- The condition for that frame under the sample image. -/
theorem directions_agree_iff_http :
    ∃ gs, ntfeConfigure quietEnv Gs.zero httpImage 126 = .ok (true, gs)
      ∧ (ClassifiedAlike gs.toGsRom httpFrame
        ↔ SlotsInTable httpImage httpFrame.ipProto httpFrame.tcpDport
          ∧ (HasRule httpImage httpFrame.ipProto httpFrame.tcpDport
            ↔ httpFrame.ipProto = 0 ∧ ZeroSlotEmpty httpImage)) := by
  obtain ⟨gs, hconf, -, -, -⟩ := httpImage_applied
  exact ⟨gs, hconf, directions_agree_iff hconf httpFrame_tx⟩

/-- The two directions do not classify every frame alike, not even where both lookups stay in
the table. -/
theorem directions_disagree :
    ¬ ∀ (env : Env) (gs₀ gs : Gs) (cfg : NtfeConfig) (cfg_len : u32) (frame : NetFrame),
      ntfeConfigure env gs₀ cfg cfg_len = .ok (true, gs) → TxIpv4 frame →
      (hasPorts frame.ipProto = true → frame.tcpDport ≠ 0) →
      SlotsInTable cfg frame.ipProto frame.tcpDport → ClassifiedAlike gs.toGsRom frame := by
  intro hall
  obtain ⟨gs, hconf, happ, -, -⟩ := httpImage_applied
  have hin : SlotsInTable httpImage httpFrame.ipProto httpFrame.tcpDport :=
    slotsInTable_of_hashsz (by decide +kernel) _ _
  have halike := hall _ _ _ _ _ httpFrame hconf httpFrame_tx (fun _ => by decide +kernel) hin
  have hagree := ((happ.classifiedAlike_iff httpFrame_tx.ip).mp halike).2
  have htx := (happ.txFinds_iff _ _).mp (hagree.mpr ((happ.rxFinds_iff _ _).mpr httpFrame_hasRule))
  exact absurd htx.1 (by decide +kernel)

end Ntfw
