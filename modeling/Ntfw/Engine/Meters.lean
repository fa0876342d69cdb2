import Ntfw.Engine.Policing
import Ntfw.Engine.DefaultDeny

set_option autoImplicit false

/-! # The meter indices of a rule

A rule of the image names its meters by bytes, the compiled rule keeps their low three bits,
and the two arrays they index have `MAX_METERS` elements, which is four. Nothing on the way
compares them: what keeps an access in bounds is the image, or a cost of zero. -/

namespace Ntfw

/-! ## One charge -/

/-- A charge of a meter stays in its arrays if it costs nothing or the meter exists. -/
theorem chargeMeter_ok_iff (gs : GsRom) (host : HostState) (tb : BitVec 3) (tmsec cost : u32) :
    chargeMeter gs host tb tmsec cost ≠ .error .outOfBounds
      ↔ cost = 0 ∨ tb.toNat < MAX_METERS := by
  unfold chargeMeter
  by_cases hc : cost = 0
  · rw [if_pos hc]
    simp [hc]
  · rw [if_neg hc]
    by_cases ht : tb.toNat < MAX_METERS
    · rw [dif_pos ht]
      simp [ht]
    · rw [dif_neg ht]
      exact iff_of_false (by simp) fun h => h.elim hc ht

/-- A charge fails for no other reason. -/
theorem chargeMeter_cases (gs : GsRom) (host : HostState) (tb : BitVec 3) (tmsec cost : u32) :
    (∃ r, chargeMeter gs host tb tmsec cost = .ok r)
      ∨ chargeMeter gs host tb tmsec cost = .error .outOfBounds := by
  unfold chargeMeter
  by_cases hc : cost = 0
  · rw [if_pos hc]
    exact Or.inl ⟨_, rfl⟩
  · rw [if_neg hc]
    by_cases ht : tb.toNat < MAX_METERS
    · rw [dif_pos ht]
      exact Or.inl ⟨_, rfl⟩
    · rw [dif_neg ht]
      exact Or.inr rfl

theorem satmul32_eq_zero (a b : u32) : satmul32 a b = 0 ↔ a = 0 ∨ b = 0 := by
  rw [← BitVec.toNat_inj, ← BitVec.toNat_inj, ← BitVec.toNat_inj, satmul32_toNat]
  show min (a.toNat * b.toNat) (2 ^ 32 - 1) = 0 ↔ a.toNat = 0 ∨ b.toNat = 0
  rw [← Nat.mul_eq_zero]
  omega

theorem setWidth32_eq_zero (x : u16) : (x.setWidth 32 : u32) = 0 ↔ x = 0 := by
  rw [← BitVec.toNat_inj, ← BitVec.toNat_inj, BitVec.toNat_setWidth]
  show x.toNat % 2 ^ 32 = 0 ↔ x.toNat = 0
  have := x.isLt
  omega

/-- `host_charge_packet` stays in its arrays, for any host and time. -/
def MetersInBounds (gs : GsRom) (rl : Rule) (in_bytes : u16) : Prop :=
  ∀ host tmsec, hostChargePacket gs host rl tmsec in_bytes ≠ .error .outOfBounds

/-- **`host_charge_packet`** stays in its arrays exactly when each of its two charges costs
nothing or names an existing meter. -/
theorem metersInBounds_iff (gs : GsRom) (rl : Rule) (in_bytes : u16) :
    MetersInBounds gs rl in_bytes
      ↔ (in_bytes = 0 ∨ rl.in_byte_scale = 0 ∨ rl.in_byte_tb.toNat < MAX_METERS)
        ∧ (rl.in_packet_scale = 0 ∨ rl.in_packet_tb.toNat < MAX_METERS) := by
  have hbyte : satmul32 (in_bytes.setWidth 32) (rl.in_byte_scale.setWidth 32) = 0
      ↔ in_bytes = 0 ∨ rl.in_byte_scale = 0 := by
    rw [satmul32_eq_zero, setWidth32_eq_zero, setWidth32_eq_zero]
  have hone : ∀ host tmsec, hostChargePacket gs host rl tmsec in_bytes ≠ .error .outOfBounds
      ↔ (in_bytes = 0 ∨ rl.in_byte_scale = 0 ∨ rl.in_byte_tb.toNat < MAX_METERS)
        ∧ (rl.in_packet_scale = 0 ∨ rl.in_packet_tb.toNat < MAX_METERS) := by
    intro host tmsec
    rw [← or_assoc, ← hbyte, ← setWidth32_eq_zero rl.in_packet_scale]
    simp only [hostChargePacket]
    rcases chargeMeter_cases gs host rl.in_byte_tb tmsec
      (satmul32 (in_bytes.setWidth 32) (rl.in_byte_scale.setWidth 32)) with ⟨⟨host1, ok1⟩, h1⟩ | h1
    · have hfirst := (chargeMeter_ok_iff gs host rl.in_byte_tb tmsec
        (satmul32 (in_bytes.setWidth 32) (rl.in_byte_scale.setWidth 32))).mp (by rw [h1]; simp)
      -- The second charge is made on what the first has left of the host.
      rw [and_iff_right hfirst, ← chargeMeter_ok_iff gs host1 rl.in_packet_tb tmsec, h1]
      rcases chargeMeter_cases gs host1 rl.in_packet_tb tmsec (rl.in_packet_scale.setWidth 32)
        with ⟨⟨host2, ok2⟩, h2⟩ | h2
      · simp [bind, Except.bind, h2]
      · simp [bind, Except.bind, h2]
    · have hfirst := (chargeMeter_ok_iff gs host rl.in_byte_tb tmsec
        (satmul32 (in_bytes.setWidth 32) (rl.in_byte_scale.setWidth 32))).not.mp
          (by rw [h1]; simp)
      rw [h1]
      exact iff_of_false (by simp [bind, Except.bind]) fun h => hfirst h.1
  constructor
  · intro h
    exact (hone HostState.zero 0).mp (h HostState.zero 0)
  · intro h host tmsec
    exact (hone host tmsec).mpr h

/-! ## From the image to the charge -/

/-- **Accepted images do not keep the meters in bounds.** Of an applied image, a rule and an
IPv4 frame that matches it: the lookup of the frame finds the rule, and charging the frame
stays in the arrays exactly when the low three bits of each meter byte that is charged for
name an existing meter. -/
theorem applied_metersInBounds_iff {verify : Verify} {env₀ : Env} {gs₀ gs₁ gs : Gs}
    {cfg : NtfeConfig} {cfg_len : u32} {calls : List Call} (rl : NtfeRule) (frame : NetFrame)
    (len : u16) (hconf : ntfeConfigure env₀ gs₀ cfg cfg_len = .ok (true, gs₁))
    (hcalls : NoConfigure calls) (hrun : Transition.run (engineStep verify) gs₁ calls = .ok gs)
    (hrl : rl ∈ cfg.rules) (hmatch : rl.compile.fsig = ipv4Sig frame.ipProto frame.tcpDport) :
    ∃ r, ruleLookup gs.toGsRom (ipv4Sig frame.ipProto frame.tcpDport) = .ok (some r)
      ∧ (MetersInBounds gs.toGsRom r (len - BitVec.ofNat 16 SZ_ETH_HDR)
        ↔ (len = BitVec.ofNat 16 SZ_ETH_HDR ∨ rl.byte_scale = 0
            ∨ rl.byte_tb.toNat % 8 < MAX_METERS)
          ∧ (rl.packet_scale = 0 ∨ rl.packet_tb.toNat % 8 < MAX_METERS)) := by
  have happ : Applies gs cfg := run_applies hconf hcalls hrun
  refine ⟨rl.compile, hmatch ▸ happ.finds_rule hrl, ?_⟩
  have hlen : len - BitVec.ofNat 16 SZ_ETH_HDR = 0 ↔ len = BitVec.ofNat 16 SZ_ETH_HDR := by
    rw [BitVec.sub_eq_iff_eq_add]
    simp
  rw [metersInBounds_iff, hlen]
  simp only [NtfeRule.compile, BitVec.toNat_setWidth, Nat.reducePow]

/-! ## A fifth meter -/

/-- An image whose rule for TCP port 80 charges one token a byte to the given meter. -/
def meteredImage (meter : byte) : NtfeConfig :=
  Mem.ofBytes ([0, 0, 0, 0, 1, 0, 126, 0] ++ List.replicate 76 0
    ++ [7, 0, 0, 0, 1, 0, 0, 0] ++ List.replicate 8 0
    ++ [0x00, 0x08, 80, 0, 1, 0, 0, 0, 0, 0, IP_P_TCP, meter] ++ List.replicate 14 0)

theorem meteredImage_applied {meter : byte} (h : meter = 3 ∨ meter = 4) :
    ∃ gs, ntfeConfigure quietEnv Gs.zero (meteredImage meter) 126 = .ok (true, gs) := by
  have hval : ntfeValidateConfiguration Gs.zero (meteredImage meter) 126 = .ok true := by
    refine (ntfeValidateConfiguration_eq_true _ _ _).mpr ⟨?_, ?_, ?_⟩
    · rcases h with rfl | rfl <;> decide
    · rcases h with rfl | rfl <;> decide
    · rcases h with rfl | rfl <;> decide
  obtain ⟨gs, hconf, -⟩ := ntfeConfigure_without_hosts quietEnv hval
    (by rcases h with rfl | rfl <;> decide) (by rcases h with rfl | rfl <;> decide)
  exact ⟨gs, hconf⟩

/-- The rule of that image. -/
def meteredRule (meter : byte) : NtfeRule := ⟨0x0800, 80, 1, 0, 0, IP_P_TCP, meter, 0, 0⟩

/-- Charging the last meter there is. -/
theorem applied_metersInBounds_at_3 :
    ∃ gs r, ruleLookup gs (ipv4Sig httpFrame.ipProto httpFrame.tcpDport) = .ok (some r)
      ∧ MetersInBounds gs r (64 - BitVec.ofNat 16 SZ_ETH_HDR) := by
  obtain ⟨gs, hconf⟩ := meteredImage_applied (Or.inl rfl)
  have hrun : Transition.run (engineStep fun _ _ _ => false) gs [] = .ok gs := rfl
  obtain ⟨r, hlook, hiff⟩ := applied_metersInBounds_iff (meteredRule 3) httpFrame 64 hconf
    noConfigure_nil hrun (by decide +kernel) (by decide +kernel)
  exact ⟨gs.toGsRom, r, hlook, hiff.mpr (by decide)⟩

/-- The validation accepts an image that charges meter 4 and the engine applies it; a frame to
TCP port 80 then charges the memory behind the four buckets. -/
theorem applied_metersInBounds_fails_at_4 :
    ntfeValidateConfiguration Gs.zero (meteredImage 4) 126 = .ok true
    ∧ ∃ gs, ntfeConfigure quietEnv Gs.zero (meteredImage 4) 126 = .ok (true, gs)
      ∧ ∃ r, ruleLookup gs.toGsRom (ipv4Sig httpFrame.ipProto httpFrame.tcpDport) = .ok (some r)
        ∧ hostChargePacket gs.toGsRom HostState.zero r 0 (64 - BitVec.ofNat 16 SZ_ETH_HDR)
            = .error .outOfBounds := by
  have hval : ntfeValidateConfiguration Gs.zero (meteredImage 4) 126 = .ok true := by
    refine (ntfeValidateConfiguration_eq_true _ _ _).mpr ⟨?_, ?_, ?_⟩ <;> decide +kernel
  obtain ⟨gs, hconf⟩ := meteredImage_applied (Or.inr rfl)
  have hrl : meteredRule 4 ∈ (meteredImage 4).rules := by decide +kernel
  have hmatch : (meteredRule 4).compile.fsig = ipv4Sig httpFrame.ipProto httpFrame.tcpDport := by
    decide +kernel
  refine ⟨hval, gs, hconf, _, hmatch ▸ (ntfeConfigure_applies hconf).finds_rule hrl, ?_⟩
  rfl

end Ntfw
