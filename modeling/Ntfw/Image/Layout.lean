import Ntfw.Tool.Ntfw
import Ntfw.Tool.Phash
import Ntfw.Engine.Indices

set_option autoImplicit false

/-! # The image the tool builds

`RulesDownload` stores rules behind each other and counts them in the header. `Image` says
what the engine will read there, and the lemmas say which stores keep or extend it. -/

namespace Ntfw.Tool

/-- **An image with the rules `rls`**, and without meters and hosts. It is short enough for its
length to be what the header says. -/
structure Image (cfg : NtfeConfig) (seed hashsz : u32) (rls : List NtfeRule) : Prop where
  reserved : cfg.reserved = 0
  version : cfg.version = NTFE_CFG_VERSION
  length : cfg.length = BitVec.ofNat 16 (SZ_NTFE_CONFIG + rls.length * SZ_NTFE_RULE)
  rule_seed : cfg.rule_seed = seed
  rule_hashsz : cfg.rule_hashsz = hashsz
  rule_count : cfg.rule_count = BitVec.ofNat 32 rls.length
  meter_count : cfg.meter_count = 0
  host_count : cfg.host_count = 0
  ruleAt : ∀ i (h : i < rls.length), cfg.ruleAt (SZ_NTFE_CONFIG + i * SZ_NTFE_RULE) = rls[i]
  fits : rls.length ≤ MAX_RULES

/-! ## Rules in memory -/

theorem ruleAt_congr {cfg cfg' : NtfeConfig} {o : Nat} (h : ∀ i < 14, cfg (o + i) = cfg' (o + i)) :
    cfg.ruleAt o = cfg'.ruleAt o := by
  have h16 : ∀ k, k + 2 ≤ 14 → Mem.le16 cfg (o + k) = Mem.le16 cfg' (o + k) := by
    intro k hk
    refine Mem.le16_congr fun i hi => ?_
    rw [Nat.add_assoc]
    exact h (k + i) (by omega)
  unfold NtfeConfig.ruleAt
  rw [show Mem.le16 cfg o = Mem.le16 cfg' o from h16 0 (by decide), h16 2 (by decide),
    h16 4 (by decide), h16 6 (by decide), h16 8 (by decide), h 10 (by decide), h 11 (by decide),
    h 12 (by decide), h 13 (by decide)]

theorem ruleAt_put_out (cfg : NtfeConfig) {o p : Nat} {bs : List byte}
    (h : p + 14 ≤ o ∨ o + bs.length ≤ p) :
    NtfeConfig.ruleAt (cfg.put o bs) p = cfg.ruleAt p :=
  ruleAt_congr fun i hi => cfg.put_out (by omega)

theorem length_ruleBytes (rl : NtfeRule) : (ruleBytes rl).length = 14 := rfl

/-- A rule is read back as it was stored. -/
theorem ruleAt_put (cfg : NtfeConfig) (o : Nat) (rl : NtfeRule) :
    NtfeConfig.ruleAt (cfg.put o (ruleBytes rl)) o = rl := by
  have h16 : ∀ k, k + 1 < 14 → Mem.le16 (cfg.put o (ruleBytes rl)) (o + k)
      = (ruleBytes rl).getD (k + 1) 0 ++ (ruleBytes rl).getD k 0 := fun k hk =>
    Mem.le16_put_at cfg (by rw [length_ruleBytes]; exact hk)
  have h8 : ∀ k, k < 14 → cfg.put o (ruleBytes rl) (o + k) = (ruleBytes rl).getD k 0 :=
    fun k hk => Mem.put_at cfg (by rw [length_ruleBytes]; exact hk)
  have h0 : Mem.le16 (cfg.put o (ruleBytes rl)) o = rl.ether :=
    (h16 0 (by decide)).trans (Mem.bytes16_append _)
  have h2 := (h16 2 (by decide)).trans (Mem.bytes16_append rl.dport)
  have h4 := (h16 4 (by decide)).trans (Mem.bytes16_append rl.byte_scale)
  have h6 := (h16 6 (by decide)).trans (Mem.bytes16_append rl.packet_scale)
  have h8' := (h16 8 (by decide)).trans (Mem.bytes16_append rl.syn_scale)
  unfold NtfeConfig.ruleAt
  rw [h0, h2, h4, h6, h8', h8 10 (by decide), h8 11 (by decide), h8 12 (by decide),
    h8 13 (by decide)]
  rfl

/-! ## Stores that keep an image -/

/-- An image is what it is by its first bytes. -/
theorem Image.congr {cfg cfg' : NtfeConfig} {seed hashsz : u32} {rls : List NtfeRule}
    (h : Image cfg seed hashsz rls)
    (heq : ∀ p < SZ_NTFE_CONFIG + rls.length * SZ_NTFE_RULE, cfg' p = cfg p) :
    Image cfg' seed hashsz rls := by
  unfold SZ_NTFE_CONFIG SZ_NTFE_RULE at heq
  have h16 : ∀ p, p + 2 ≤ 100 → Mem.le16 cfg' p = Mem.le16 cfg p := fun p hp =>
    Mem.le16_congr fun i hi => heq (p + i) (by omega)
  have h32 : ∀ p, p + 4 ≤ 100 → Mem.le32 cfg' p = Mem.le32 cfg p := fun p hp =>
    Mem.le32_congr fun i hi => heq (p + i) (by omega)
  refine ⟨(h32 0 (by decide)).trans h.reserved, (h16 4 (by decide)).trans h.version,
    (h16 6 (by decide)).trans h.length, (h32 80 (by decide)).trans h.rule_seed,
    (h32 84 (by decide)).trans h.rule_hashsz, (h32 88 (by decide)).trans h.rule_count,
    (h32 92 (by decide)).trans h.meter_count, (h32 96 (by decide)).trans h.host_count, ?_, h.fits⟩
  intro i hi
  rw [← h.ruleAt i hi]
  unfold SZ_NTFE_CONFIG SZ_NTFE_RULE
  exact ruleAt_congr fun j hj => heq _ (by omega)

/-- A store behind the rules. -/
theorem Image.put_behind {cfg : NtfeConfig} {seed hashsz : u32} {rls : List NtfeRule}
    (h : Image cfg seed hashsz rls) {o : Nat}
    (ho : SZ_NTFE_CONFIG + rls.length * SZ_NTFE_RULE ≤ o) (bs : List byte) :
    Image (cfg.put o bs) seed hashsz rls := h.congr fun p hp => cfg.put_out (by omega)

/-- The fields that the header stores of `appendRule` do not write. -/
theorem count_length_frame (cfg : NtfeConfig) (n : u32) (l : u16) (p : Nat)
    (h : p + 4 ≤ 6 ∨ (8 ≤ p ∧ p + 4 ≤ 88) ∨ 92 ≤ p) :
    Mem.le32 (setLength (setRuleCount cfg n) l) p = Mem.le32 cfg p := by
  unfold setLength setRuleCount
  rw [Mem.le32_put_out _ (by rw [Mem.length_bytes16]; omega),
    Mem.le32_put_out _ (by rw [Mem.length_bytes32]; omega)]

/-- **One more rule.** -/
theorem Image.append {cfg : NtfeConfig} {seed hashsz : u32} {rls : List NtfeRule}
    (h : Image cfg seed hashsz rls)
    (hlen : rls.length < MAX_RULES) (rl : NtfeRule) :
    Image (appendRule cfg (SZ_NTFE_CONFIG + rls.length * SZ_NTFE_RULE) rl) seed hashsz
      (rls ++ [rl]) := by
  obtain ⟨dst, hdst⟩ : ∃ dst, dst = SZ_NTFE_CONFIG + rls.length * SZ_NTFE_RULE := ⟨_, rfl⟩
  obtain ⟨cfg1, hcfg1⟩ : ∃ cfg1 : NtfeConfig, cfg1 = cfg.put dst (ruleBytes rl) := ⟨_, rfl⟩
  -- The rule goes behind the others; the two header stores that count it come last.
  have h1 : Image cfg1 seed hashsz rls := hcfg1 ▸ h.put_behind (Nat.le_of_eq hdst.symm) _
  have hrl : cfg1.ruleAt dst = rl := hcfg1 ▸ ruleAt_put cfg dst rl
  have hlong : (rls ++ [rl]).length = rls.length + 1 := by simp
  have happ : appendRule cfg dst rl = setLength (setRuleCount cfg1 (cfg1.rule_count + 1))
      ((setRuleCount cfg1 (cfg1.rule_count + 1)).length + BitVec.ofNat 16 SZ_NTFE_RULE) := by
    rw [hcfg1]
    rfl
  rw [← hdst, happ]
  refine ⟨(count_length_frame _ _ _ 0 (by omega)).trans h1.reserved, ?_, ?_,
    (count_length_frame _ _ _ 80 (by omega)).trans h1.rule_seed,
    (count_length_frame _ _ _ 84 (by omega)).trans h1.rule_hashsz, ?_,
    (count_length_frame _ _ _ 92 (by omega)).trans h1.meter_count,
    (count_length_frame _ _ _ 96 (by omega)).trans h1.host_count, ?_, ?_⟩
  · show Mem.le16 (setLength (setRuleCount cfg1 _) _) 4 = _
    unfold setLength setRuleCount
    rw [Mem.le16_put_out _ (by omega), Mem.le16_put_out _ (by omega)]
    exact h1.version
  · have hold : (setRuleCount cfg1 (cfg1.rule_count + 1)).length = cfg1.length :=
      Mem.le16_put_out _ (by omega)
    calc (setLength (setRuleCount cfg1 (cfg1.rule_count + 1))
          ((setRuleCount cfg1 (cfg1.rule_count + 1)).length + BitVec.ofNat 16 SZ_NTFE_RULE)).length
        = cfg1.length + BitVec.ofNat 16 SZ_NTFE_RULE := by
          rw [hold]
          exact Mem.le16_put _ 6 _
      _ = BitVec.ofNat 16 (SZ_NTFE_CONFIG + (rls ++ [rl]).length * SZ_NTFE_RULE) := by
          rw [h1.length, ← BitVec.ofNat_add, hlong, Nat.succ_mul, Nat.add_assoc]
  · have hcount : (setRuleCount cfg1 (cfg1.rule_count + 1)).rule_count = cfg1.rule_count + 1 :=
      Mem.le32_put _ 88 _
    calc (setLength (setRuleCount cfg1 (cfg1.rule_count + 1)) _).rule_count
        = (setRuleCount cfg1 (cfg1.rule_count + 1)).rule_count :=
          Mem.le32_put_out _ (by rw [Mem.length_bytes16]; omega)
      _ = BitVec.ofNat 32 (rls ++ [rl]).length := by
          rw [hcount, h1.rule_count, hlong, BitVec.ofNat_add]
          rfl
  · intro i hi
    -- The header stores are in front of every rule.
    have hkeep : ∀ o, SZ_NTFE_CONFIG ≤ o → (setLength (setRuleCount cfg1 (cfg1.rule_count + 1))
        ((setRuleCount cfg1 (cfg1.rule_count + 1)).length
          + BitVec.ofNat 16 SZ_NTFE_RULE)).ruleAt o = cfg1.ruleAt o := by
      intro o ho
      unfold SZ_NTFE_CONFIG at ho
      unfold setLength setRuleCount
      rw [ruleAt_put_out _ (by rw [Mem.length_bytes16]; omega),
        ruleAt_put_out _ (by rw [Mem.length_bytes32]; omega)]
    rw [hkeep _ (Nat.le_add_right _ _)]
    rw [hlong] at hi
    rcases Nat.lt_succ_iff_lt_or_eq.mp hi with hlt | rfl
    · rw [List.getElem_append_left hlt]
      exact h1.ruleAt i hlt
    · rw [List.getElem_append_right (Nat.le_refl _), ← hdst, hrl]
      simp
  · rw [hlong]
    exact hlen

/-- The seed and the size of the table are stored last. -/
theorem Image.hashed {cfg : NtfeConfig} {seed hashsz : u32} {rls : List NtfeRule}
    (h : Image cfg seed hashsz rls) (seed' hashsz' : u32) :
    Image (setRuleHashsz (setRuleSeed cfg seed') hashsz') seed' hashsz' rls := by
  have h16 : ∀ p, p + 2 ≤ 80 →
      Mem.le16 (setRuleHashsz (setRuleSeed cfg seed') hashsz') p = Mem.le16 cfg p := by
    intro p hp
    unfold setRuleHashsz setRuleSeed
    rw [Mem.le16_put_out _ (by omega), Mem.le16_put_out _ (by omega)]
  have h32 : ∀ p, p + 4 ≤ 80 ∨ 88 ≤ p →
      Mem.le32 (setRuleHashsz (setRuleSeed cfg seed') hashsz') p = Mem.le32 cfg p := by
    intro p hp
    unfold setRuleHashsz setRuleSeed
    rw [Mem.le32_put_out _ (by rw [Mem.length_bytes32]; omega),
      Mem.le32_put_out _ (by rw [Mem.length_bytes32]; omega)]
  refine ⟨(h32 0 (by omega)).trans h.reserved, (h16 4 (by omega)).trans h.version,
    (h16 6 (by omega)).trans h.length, ?_, Mem.le32_put _ 84 _,
    (h32 88 (by omega)).trans h.rule_count, (h32 92 (by omega)).trans h.meter_count,
    (h32 96 (by omega)).trans h.host_count, ?_, h.fits⟩
  · exact (Mem.le32_put_out _ (by omega)).trans (Mem.le32_put _ 80 _)
  · intro i hi
    rw [← h.ruleAt i hi]
    unfold setRuleHashsz setRuleSeed SZ_NTFE_CONFIG
    rw [ruleAt_put_out _ (by rw [Mem.length_bytes32]; omega),
      ruleAt_put_out _ (by rw [Mem.length_bytes32]; omega)]

/-! ## What the engine reads -/

theorem Image.toNat_rule_count {cfg : NtfeConfig} {seed hashsz : u32} {rls : List NtfeRule}
    (h : Image cfg seed hashsz rls) : cfg.rule_count.toNat = rls.length := by
  have hfits : rls.length ≤ 32 := h.fits
  rw [h.rule_count, BitVec.toNat_ofNat]
  omega

theorem Image.toNat_length {cfg : NtfeConfig} {seed hashsz : u32} {rls : List NtfeRule}
    (h : Image cfg seed hashsz rls) :
    cfg.length.toNat = SZ_NTFE_CONFIG + rls.length * SZ_NTFE_RULE := by
  have hfits : rls.length ≤ 32 := h.fits
  rw [h.length, BitVec.toNat_ofNat]
  unfold SZ_NTFE_CONFIG SZ_NTFE_RULE
  omega

theorem Image.rules {cfg : NtfeConfig} {seed hashsz : u32} {rls : List NtfeRule}
    (h : Image cfg seed hashsz rls) : cfg.rules = rls := by
  unfold NtfeConfig.rules
  rw [h.toNat_rule_count]
  apply List.ext_getElem
  · simp
  · intro i hi hi'
    rw [List.getElem_map, List.getElem_range]
    exact h.ruleAt i hi'

theorem Image.hosts {cfg : NtfeConfig} {seed hashsz : u32} {rls : List NtfeRule}
    (h : Image cfg seed hashsz rls) : cfg.hosts = [] := by
  unfold NtfeConfig.hosts
  rw [h.host_count]
  rfl

/-- The header passes as soon as the size of the table does. -/
theorem Image.validateHeader_iff {cfg : NtfeConfig} {seed hashsz : u32} {rls : List NtfeRule}
    (h : Image cfg seed hashsz rls) {cfg_len : u32} (hlen : cfg.length.toNat ≤ cfg_len.toNat) :
    validateHeader cfg cfg_len = true
      ↔ hashsz ≠ 0 ∧ ¬ (Ntfw.MAX_RULES : Int) < (shl32 1 hashsz.toNat).toInt := by
  have hfits : rls.length ≤ 32 := h.fits
  have hlong := h.toNat_length
  have hcount := h.toNat_rule_count
  have hmin : ¬ cfg_len.toNat < SZ_NTFE_CONFIG := by omega
  have hfile : ¬ cfg_len < cfg.length.setWidth 32 := by
    rw [BitVec.lt_def, BitVec.toNat_setWidth]
    omega
  have hsections : ¬ cfg.length.toNat < SZ_NTFE_CONFIG + cfg.rule_count.toNat * SZ_NTFE_RULE
      + cfg.meter_count.toNat * SZ_NTFE_METER + cfg.host_count.toNat * SZ_NTFE_HOST := by
    rw [h.meter_count, h.host_count, hcount, hlong]
    simp
  have hrules : ¬ Ntfw.MAX_RULES < cfg.rule_count.toNat := by
    rw [hcount]
    show ¬ 128 < rls.length
    omega
  unfold validateHeader
  rw [decide_eq_false hmin, decide_eq_false hfile, decide_eq_false hsections,
    decide_eq_false hrules, h.reserved, h.version, h.rule_hashsz]
  simp [and_comm]

end Ntfw.Tool
