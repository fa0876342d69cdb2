import Ntfw.Engine.Calls

set_option autoImplicit false

/-! # The encoded ethertype

A signature has one byte for the ethertype. The encoding shifts the big-endian word by seven,
keeps eight bits and forces the highest one, so of the sixteen bits of an ethertype seven are
left: those of `ETHER_FS_BITS`. For traffic other than IPv4 that byte is all that a rule is
matched by. -/

namespace Ntfw

/-- The bits of an ethertype that its encoding depends on. -/
def ETHER_FS_BITS : u16 := 0x803F

/-! ## What the encoding keeps -/

theorem getLsbD_htons (v : u16) {i : Nat} (hi : i < 16) :
    (htons v).getLsbD i = v.getLsbD (if i < 8 then 8 + i else i - 8) := by
  simp only [htons, bswap16, BitVec.getLsbD_append, BitVec.getLsbD_extractLsb']
  by_cases h : i < 8
  · simp [h]
  · have h2 : i - 8 < 8 := by omega
    simp [h, h2]

theorem getLsbD_etherLe16ToFs (e : le16) {i : Nat} (hi : i < 8) :
    (etherLe16ToFs e).getLsbD i
      = if i = 7 then true else e.getLsbD (if i = 0 then 15 else i - 1) := by
  have h80 : (0x80 : u16).getLsbD i = decide (i = 7) := by
    interval_cases i <;> decide
  rw [etherLe16ToFs, BitVec.getLsbD_setWidth, BitVec.getLsbD_or, BitVec.getLsbD_ushiftRight,
    getLsbD_htons e (by omega), h80]
  by_cases h7 : i = 7
  · simp [h7]
  · by_cases h0 : i = 0
    · simp [h0]
    · have h8 : ¬ 7 + i < 8 := by omega
      have hidx : 7 + i - 8 = i - 1 := by omega
      simp [h7, h0, h8, hi, hidx]

theorem getLsbD_ETHER_FS_BITS {i : Nat} (hi : i < 16) :
    ETHER_FS_BITS.getLsbD i = decide (i < 6 ∨ i = 15) := by
  interval_cases i <;> decide

/-- **Two ethertypes have one encoding** exactly when they agree on `ETHER_FS_BITS`. -/
theorem etherLe16ToFs_eq_iff (a b : le16) :
    etherLe16ToFs a = etherLe16ToFs b ↔ a &&& ETHER_FS_BITS = b &&& ETHER_FS_BITS := by
  constructor
  · intro h
    apply BitVec.eq_of_getLsbD_eq
    intro i hi
    rw [BitVec.getLsbD_and, BitVec.getLsbD_and, getLsbD_ETHER_FS_BITS hi]
    by_cases hkept : i < 6 ∨ i = 15
    · -- Bit 15 travels at the bottom of the encoding, the low bits above it.
      have hbit : (etherLe16ToFs a).getLsbD (if i = 15 then 0 else i + 1)
          = (etherLe16ToFs b).getLsbD (if i = 15 then 0 else i + 1) := by rw [h]
      rcases hkept with hlow | rfl
      · have h0 : i + 1 ≠ 0 := by omega
        have h7 : i + 1 ≠ 7 := by omega
        rw [if_neg (by omega), getLsbD_etherLe16ToFs a (by omega),
          getLsbD_etherLe16ToFs b (by omega)] at hbit
        simp only [if_neg h0, if_neg h7, Nat.add_sub_cancel] at hbit
        rw [hbit]
      · rw [if_pos rfl, getLsbD_etherLe16ToFs a (by omega),
          getLsbD_etherLe16ToFs b (by omega)] at hbit
        simpa using hbit
    · simp [hkept]
  · intro h
    apply BitVec.eq_of_getLsbD_eq
    intro i hi
    rw [getLsbD_etherLe16ToFs a hi, getLsbD_etherLe16ToFs b hi]
    -- Bit 7 of the encoding is the mark; every other one comes from a bit that is kept.
    by_cases h7 : i = 7
    · rw [if_pos h7, if_pos h7]
    · rw [if_neg h7, if_neg h7]
      have hj : (if i = 0 then 15 else i - 1) < 16 := by split <;> omega
      have hkept : ETHER_FS_BITS.getLsbD (if i = 0 then 15 else i - 1) = true := by
        rw [getLsbD_ETHER_FS_BITS hj, decide_eq_true_eq]
        split <;> omega
      have hbit := congrArg (fun x : u16 => x.getLsbD (if i = 0 then 15 else i - 1)) h
      simpa only [BitVec.getLsbD_and, hkept, Bool.and_true] using hbit

/-! ## Traffic other than IPv4 -/

/-- The ethertype of a frame, in host order. -/
def frameEther (frame : NetFrame) : le16 := ntohs frame.ethProto

theorem etherBe16ToFs_eq (frame : NetFrame) :
    etherBe16ToFs frame.ethProto = etherLe16ToFs (frameEther frame) := by
  rw [etherLe16ToFs, frameEther, htons_ntohs]
  rfl

theorem rxFlowsig_and_ff (frame : NetFrame) :
    rxFlowsig frame &&& 0xFF = FlowSig.mk (etherLe16ToFs (frameEther frame)) 0 0 := by
  have hmask : (0xFF : u32) = (0 : u16) ++ ((0 : u8) ++ BitVec.allOnes 8) := by decide
  rw [hmask, rxFlowsig, FlowSig.mk, BitVec.and_append, BitVec.and_append, BitVec.and_allOnes,
    BitVec.ofNat_eq_ofNat, BitVec.and_zero, BitVec.ofNat_eq_ofNat, BitVec.and_zero,
    etherBe16ToFs_eq]
  rfl

/-- The image has a layer-3 rule for exactly this ethertype. -/
def HasEtherRule (cfg : NtfeConfig) (ether : le16) : Prop :=
  ∃ rl ∈ cfg.rules, rl.ether = ether ∧ rl.proto = 0 ∧ rl.dport = 0

/-- The image has a layer-3 rule for an ethertype with the same encoding. -/
def HasAliasRule (cfg : NtfeConfig) (ether : le16) : Prop :=
  ∃ rl ∈ cfg.rules, rl.ether &&& ETHER_FS_BITS = ether &&& ETHER_FS_BITS
    ∧ rl.proto = 0 ∧ rl.dport = 0

/-- The slot that frames of an ethertype other than IPv4 are looked up in. -/
def etherSlot (cfg : NtfeConfig) (ether : le16) : Nat :=
  cfg.sigSlot (FlowSig.mk (etherLe16ToFs ether) 0 0)

/-- **What the receive path makes of a frame that is not IPv4**, under an applied image: it
accepts the frame exactly if there is a rule for some ethertype with its encoding. -/
theorem ntfeRx_of_not_ipv4 {verify : Verify} {env : Env} {gs : Gs} {cfg : NtfeConfig}
    {frame : NetFrame} {len : u16} (happ : Applies gs cfg)
    (hip : frame.ethProto ≠ htons ETH_P_IP) :
    (∃ gs', ntfeRx verify env gs frame len = .ok (true, gs'))
      ↔ HasAliasRule cfg (frameEther frame) := by
  have hfinds : Finds gs.toGsRom (rxFlowsig frame &&& 0xFF)
      ↔ HasAliasRule cfg (frameEther frame) := by
    have hne : FlowSig.mk (etherLe16ToFs (frameEther frame)) 0 0 ≠ 0 :=
      mk_ne_zero (etherBe16ToFs_ne_zero _) 0 0
    have hport : ∀ p : le16, htons p = 0 ↔ p = 0 :=
      fun p => ⟨fun h => htons_inj (h.trans (by decide)), fun h => by rw [h]; decide⟩
    rw [rxFlowsig_and_ff, happ.compiled.finds_iff hne]
    simp only [NtfeRule.compile, ruleSig, FlowSig.mk_inj, etherLe16ToFs_eq_iff, hport,
      HasAliasRule]
  rw [← hfinds, ntfeRx, ntfeRxExit_of_not_ipv4 hip]
  constructor
  · rintro ⟨gs', h⟩
    obtain ⟨⟨exit, gs1⟩, hexit, hret⟩ := Except.bind_eq_ok.mp h
    obtain ⟨rl, hlook, hexit⟩ := Except.bind_eq_ok.mp hexit
    cases rl with
    | none =>
        -- Without a rule the frame is dropped.
        cases hexit
        cases hret
    | some rl => exact ⟨rl, hlook⟩
  · rintro ⟨rl, hlook⟩
    rw [hlook]
    exact ⟨gs, rfl⟩

/-- It returns at all exactly if the slot it looks into is in the table. -/
theorem ntfeRx_returns_of_not_ipv4 {verify : Verify} {env : Env} {gs : Gs} {cfg : NtfeConfig}
    {frame : NetFrame} {len : u16} (happ : Applies gs cfg)
    (hip : frame.ethProto ≠ htons ETH_P_IP) :
    (∃ ok gs', ntfeRx verify env gs frame len = .ok (ok, gs'))
      ↔ etherSlot cfg (frameEther frame) < MAX_RULES := by
  rw [etherSlot, ← happ.hashFlowsig_eq, ← rxFlowsig_and_ff, ← ruleLookup_returns_iff, ntfeRx,
    ntfeRxExit_of_not_ipv4 hip]
  constructor
  · rintro ⟨ok, gs', h⟩
    obtain ⟨exit, hexit, -⟩ := Except.bind_eq_ok.mp h
    obtain ⟨rl, hlook, -⟩ := Except.bind_eq_ok.mp hexit
    exact ⟨rl, hlook⟩
  · rintro ⟨rl, hlook⟩
    rw [hlook]
    cases rl with
    | none => exact ⟨false, _, rfl⟩
    | some rl => exact ⟨true, gs, rfl⟩

/-- `ntfe_rx` returns, and takes the frame if and only if the image has a rule for its own
ethertype. -/
def MatchedExactly (verify : Verify) (env : Env) (gs : Gs) (cfg : NtfeConfig) (frame : NetFrame)
    (len : u16) : Prop :=
  ∃ ok gs', ntfeRx verify env gs frame len = .ok (ok, gs')
    ∧ (ok = true ↔ HasEtherRule cfg (frameEther frame))

/-- **Layer-3 rules match encodings, not ethertypes.** From a successful configuration to the
next, `ntfe_rx` takes exactly the frames of configured ethertypes if and only if the slot of the
frame is in the table and the image, when it has a rule for an ethertype with the frame's
encoding, has one for the frame's own ethertype. -/
theorem rx_ether_exact_iff {verify : Verify} {env₀ : Env} {gs₀ gs₁ gs : Gs} {cfg : NtfeConfig}
    {cfg_len : u32} {calls : List Call} (env : Env) (frame : NetFrame) (len : u16)
    (hconf : ntfeConfigure env₀ gs₀ cfg cfg_len = .ok (true, gs₁)) (hcalls : NoConfigure calls)
    (hrun : Transition.run (engineStep verify) gs₁ calls = .ok gs)
    (hip : frame.ethProto ≠ htons ETH_P_IP) :
    MatchedExactly verify env gs cfg frame len
      ↔ etherSlot cfg (frameEther frame) < MAX_RULES
        ∧ (HasAliasRule cfg (frameEther frame) → HasEtherRule cfg (frameEther frame)) := by
  have happ : Applies gs cfg := run_applies hconf hcalls hrun
  have halias : HasEtherRule cfg (frameEther frame) → HasAliasRule cfg (frameEther frame) := by
    rintro ⟨rl, hrl, he, hp, hd⟩
    exact ⟨rl, hrl, by rw [he], hp, hd⟩
  have hreturns : (∃ ok gs', ntfeRx verify env gs frame len = .ok (ok, gs'))
      ↔ etherSlot cfg (frameEther frame) < MAX_RULES := ntfeRx_returns_of_not_ipv4 happ hip
  have haccepts : (∃ gs', ntfeRx verify env gs frame len = .ok (true, gs'))
      ↔ HasAliasRule cfg (frameEther frame) := ntfeRx_of_not_ipv4 happ hip
  rw [← hreturns, ← haccepts]
  rw [← haccepts] at halias
  constructor
  · rintro ⟨ok, gs', hrx, hiff⟩
    refine ⟨⟨ok, gs', hrx⟩, ?_⟩
    rintro ⟨gs'', hacc⟩
    rw [hrx] at hacc
    cases hacc
    exact hiff.mp rfl
  · rintro ⟨⟨ok, gs', hrx⟩, hexact⟩
    refine ⟨ok, gs', hrx, ?_, fun hrule => ?_⟩
    · rintro rfl
      exact hexact ⟨gs', hrx⟩
    · obtain ⟨gs'', hacc⟩ := halias hrule
      rw [hrx] at hacc
      cases hacc
      rfl

/-! ## PTP and IPX -/

/-- An image whose one rule is for the ethertype of PTP. -/
def ptpImage : NtfeConfig :=
  Mem.ofBytes ([0, 0, 0, 0, 1, 0, 126, 0] ++ List.replicate 76 0
    ++ [7, 0, 0, 0, 1, 0, 0, 0] ++ List.replicate 8 0 ++ [0xF7, 0x88] ++ List.replicate 24 0)

/-- A frame of an ethertype. -/
def etherFrame (ether : le16) : NetFrame :=
  let bytes : List byte := [(ether >>> 8).setWidth 8, ether.setWidth 8]
  Mem.ofBytes (List.replicate 12 0 ++ bytes)

theorem ptpImage_applied : ∃ gs, ntfeConfigure quietEnv Gs.zero ptpImage 126 = .ok (true, gs) := by
  have hval : ntfeValidateConfiguration Gs.zero ptpImage 126 = .ok true := by
    refine (ntfeValidateConfiguration_eq_true _ _ _).mpr ⟨?_, ?_, ?_⟩ <;> decide
  obtain ⟨gs, hconf, -⟩ := ntfeConfigure_without_hosts quietEnv hval (by decide)
    (by decide)
  exact ⟨gs, hconf⟩

theorem ptpImage_rules : ptpImage.rules = [⟨0x88F7, 0, 0, 0, 0, 0, 0, 0, 0⟩] := by
  decide

/-- Frames of PTP itself are matched as configured. -/
theorem rx_ether_exact_ptp : ∃ gs, Applies gs ptpImage
    ∧ MatchedExactly (fun _ _ _ => false) quietEnv gs ptpImage (etherFrame 0x88F7) 64 := by
  obtain ⟨gs, hconf⟩ := ptpImage_applied
  refine ⟨gs, ntfeConfigure_applies hconf,
    (rx_ether_exact_iff quietEnv (etherFrame 0x88F7) 64 hconf noConfigure_nil rfl
      (by decide +kernel)).mpr ⟨by decide +kernel, fun _ => ?_⟩⟩
  rw [HasEtherRule, ptpImage_rules]
  exact ⟨_, List.mem_singleton_self _, by decide +kernel, rfl, rfl⟩

/-- With a rule for PTP alone, the frames of IPX get through. -/
theorem rx_ether_accepts_ipx : ¬ ∀ (verify : Verify) (env : Env) (gs gs' : Gs) (cfg : NtfeConfig)
    (cfg_len : u32) (frame : NetFrame) (len : u16) (ok : Bool),
    ntfeConfigure env Gs.zero cfg cfg_len = .ok (true, gs) →
    frame.ethProto ≠ htons ETH_P_IP → ntfeRx verify env gs frame len = .ok (ok, gs') →
    (ok = true ↔ HasEtherRule cfg (frameEther frame)) := by
  intro hall
  obtain ⟨gs, hconf⟩ := ptpImage_applied
  have hip : (etherFrame 0x8137).ethProto ≠ htons ETH_P_IP := by decide +kernel
  obtain ⟨gs', hacc⟩ : ∃ gs', ntfeRx (fun _ _ _ => false) quietEnv gs (etherFrame 0x8137) 64
      = .ok (true, gs') := by
    refine (ntfeRx_of_not_ipv4 (ntfeConfigure_applies hconf) hip).mpr ?_
    rw [HasAliasRule, ptpImage_rules]
    exact ⟨_, List.mem_singleton_self _, by decide +kernel, rfl, rfl⟩
  have hiff := hall (fun _ _ _ => false) quietEnv gs gs' ptpImage 126 (etherFrame 0x8137) 64 true
    hconf hip hacc
  obtain ⟨rl, hrl, he, -, -⟩ := hiff.mp rfl
  rw [ptpImage_rules, List.mem_singleton] at hrl
  subst hrl
  exact absurd he (by decide +kernel)

end Ntfw
