import Ntfw.Ntfe.Engine

set_option autoImplicit false

/-! # Flow signatures

A signature is three fields in a word, and a mask keeps or drops the port. The encoded
ethertype of a rule, and of a received frame, has its high bit set, which is what tells a
compiled rule from an empty slot; the signatures of the transmit path and of the NTFP hook
are built without that bit. -/

namespace Ntfw

/-! ## The three fields -/

theorem FlowSig.mk_inj {e e' p p' : u8} {d d' : be16} :
    FlowSig.mk e p d = FlowSig.mk e' p' d' ↔ e = e' ∧ p = p' ∧ d = d' := by
  refine ⟨fun h => ?_, ?_⟩
  · have hd : d = d' := by
      have := congrArg (BitVec.extractLsb' 16 16) h
      simpa only [FlowSig.mk, BitVec.extractLsb'_append_eq_left] using this
    have hl : p ++ e = p' ++ e' := by
      have := congrArg (BitVec.extractLsb' 0 16) h
      simpa only [FlowSig.mk, BitVec.extractLsb'_append_eq_right] using this
    have hp : p = p' := by
      have := congrArg (BitVec.extractLsb' 8 8) hl
      simpa only [BitVec.extractLsb'_append_eq_left] using this
    have he : e = e' := by
      have := congrArg (BitVec.extractLsb' 0 8) hl
      simpa only [BitVec.extractLsb'_append_eq_right] using this
    exact ⟨he, hp, hd⟩
  · rintro ⟨rfl, rfl, rfl⟩
    rfl

theorem FlowSig.mk_zero : FlowSig.mk 0 0 0 = 0 := by decide

/-! ## Masks -/

/-- The port a rule of the protocol can name. -/
def rulePort (proto : u8) (dport : be16) : be16 := if hasPorts proto then dport else 0

/-- The mask keeps the port exactly for the protocols that have ports. -/
theorem mk_and_portMask (e p : u8) (d : be16) :
    FlowSig.mk e p d &&& portMask p = FlowSig.mk e p (rulePort p d) := by
  have hmask : portMask p
      = (if hasPorts p then BitVec.allOnes 16 else 0)
        ++ (BitVec.allOnes 8 ++ BitVec.allOnes 8) := by
    unfold portMask
    split <;> decide
  rw [hmask, FlowSig.mk, BitVec.and_append, BitVec.and_append, BitVec.and_allOnes,
    BitVec.and_allOnes, FlowSig.mk, rulePort]
  split
  · rw [BitVec.and_allOnes]
  · rw [BitVec.ofNat_eq_ofNat, BitVec.and_zero]

/-! ## The mark of a compiled rule -/

theorem etherBe16ToFs_ne_zero (e : be16) : etherBe16ToFs e ≠ 0 := by
  intro h
  have h7 := congrArg (fun x : u8 => x.getLsbD 7) h
  simp [etherBe16ToFs] at h7

theorem mk_ne_zero {e : u8} (he : e ≠ 0) (p : u8) (d : be16) : FlowSig.mk e p d ≠ 0 := by
  intro h
  rw [← FlowSig.mk_zero] at h
  exact he (FlowSig.mk_inj.mp h).1

/-- A compiled rule is not an empty slot. -/
theorem ruleSig_ne_zero (ethertype port : le16) (proto : u8) : ruleSig ethertype port proto ≠ 0 :=
  mk_ne_zero (etherBe16ToFs_ne_zero (htons ethertype)) proto (htons port)

theorem compile_fsig_ne_zero (rl : NtfeRule) : rl.compile.fsig ≠ 0 :=
  ruleSig_ne_zero rl.ether rl.dport rl.proto

/-- A signature without the mark is no rule's. -/
theorem ruleSig_ne_unmarked (rl : NtfeRule) (p : u8) (d : be16) :
    rl.compile.fsig ≠ FlowSig.mk 0 p d := by
  intro h
  exact etherBe16ToFs_ne_zero (htons rl.ether) (FlowSig.mk_inj.mp h).1

/-! ## The signatures of a frame -/

/-- What `ntfe_rx` looks up for an IPv4 frame. -/
theorem rxFlowsig_masked {frame : NetFrame} (hip : frame.ethProto = htons ETH_P_IP) :
    rxFlowsig frame &&& portMask frame.ipProto
      = FlowSig.mk (etherBe16ToFs (htons ETH_P_IP)) frame.ipProto
          (rulePort frame.ipProto frame.tcpDport) := by
  rw [rxFlowsig, hip, mk_and_portMask]

/-- What `ntfe_tx` looks up for an IPv4 frame: the mark is missing. -/
theorem txFlowsig_masked {frame : NetFrame} (hip : frame.ethProto = htons ETH_P_IP) :
    txFlowsig frame &&& portMask frame.ipProto
      = FlowSig.mk 0 frame.ipProto (rulePort frame.ipProto frame.tcpDport) := by
  have h0 : ((htons ETH_P_IP >>> 7).setWidth 8 : u8) = 0 := by decide
  rw [txFlowsig, hip, h0, mk_and_portMask]

theorem ntfpHookSig_eq : ntfpHookSig = FlowSig.mk 0 IP_P_UDP (htons NTFP_PORT) := by decide

/-- The word the NTFP hook compares with is no received frame's signature. -/
theorem rxFlowsig_ne_hook (frame : NetFrame) : rxFlowsig frame ≠ ntfpHookSig := by
  rw [ntfpHookSig_eq]
  intro h
  exact etherBe16ToFs_ne_zero frame.ethProto (FlowSig.mk_inj.mp h).1

end Ntfw
