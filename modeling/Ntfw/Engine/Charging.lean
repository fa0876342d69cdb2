import Ntfw.Engine.Meters

set_option autoImplicit false

/-! # The charges of a packet

`host_charge_packet` charges two meters, one after the other and each only if it costs anything.
The second charge comes at the time of the first, so on one meter the two make a single charge of
both costs, unless there is nothing to charge at all. -/

namespace Ntfw

instance : NeZero MAX_METERS := ⟨by decide⟩

/-! ## Two charges of one bucket -/

/-- At one time, two costs come to their saturated sum. -/
theorem satsub32_satadd32 (a b c : u32) :
    satsub32 (satsub32 a b) c = satsub32 a (satadd32 b c) := by
  apply BitVec.eq_of_toNat_eq
  rw [satsub32_toNat, satsub32_toNat, satsub32_toNat, satadd32_toNat]
  exact (Saturating.sub_clamp_add a.isLt b.toNat c.toNat).symm

/-- A bucket that was just charged has nothing to refill. -/
theorem refilled_again (tb : TBucket) (tbd : TBucketDesc) (tmsec cost : u32) :
    refilled (tokenBucketCharge tb tbd tmsec cost).1 tbd tmsec
      = satsub32 (refilled tb tbd tmsec) cost := by
  apply BitVec.eq_of_toNat_eq
  rw [refilled_toNat, tokenBucketCharge_eq, if_pos rfl]

/-- **Two charges in a row are one of the saturated sum**: it leaves the same bucket, and it
conforms exactly if both do. -/
theorem tokenBucketCharge_twice (tb : TBucket) (tbd : TBucketDesc) (tmsec c₁ c₂ : u32) :
    (tokenBucketCharge (tokenBucketCharge tb tbd tmsec c₁).1 tbd tmsec c₂).1
        = (tokenBucketCharge tb tbd tmsec (satadd32 c₁ c₂)).1
      ∧ ((tokenBucketCharge tb tbd tmsec (satadd32 c₁ c₂)).2 = true
        ↔ (tokenBucketCharge tb tbd tmsec c₁).2 = true
          ∧ (tokenBucketCharge (tokenBucketCharge tb tbd tmsec c₁).1 tbd tmsec c₂).2 = true) := by
  have hsecond := tokenBucketCharge_eq (tokenBucketCharge tb tbd tmsec c₁).1 tbd tmsec c₂
  rw [refilled_again, satsub32_satadd32] at hsecond
  rw [hsecond, tokenBucketCharge_eq tb tbd tmsec (satadd32 c₁ c₂),
    tokenBucketCharge_eq tb tbd tmsec c₁]
  refine ⟨rfl, ?_⟩
  rw [decide_eq_true_eq, decide_eq_true_eq, ← satsub32_satadd32]
  -- The second charge leaves no more than the first, so the first conforms with it.
  refine (and_iff_right_of_imp fun h => ?_).symm
  have hlt : tbd.level.toNat < (satsub32 (satsub32 (refilled tb tbd tmsec) c₁) c₂).toNat := h
  rw [satsub32_toNat] at hlt
  show tbd.level.toNat < (satsub32 (refilled tb tbd tmsec) c₁).toNat
  omega

/-! ## The two meters of a rule -/

/-- The cost of the bytes of a packet. -/
def byteCost (rl : Rule) (in_bytes : u16) : u32 :=
  satmul32 (in_bytes.setWidth 32) (rl.in_byte_scale.setWidth 32)

/-- The cost of the packet itself. -/
def packetCost (rl : Rule) : u32 := rl.in_packet_scale.setWidth 32

/-- What a charge leaves of the host. -/
def meterCharged (gs : GsRom) (host : HostState) (i : Fin MAX_METERS) (tmsec cost : u32) :
    HostState :=
  if cost = 0 then host
  else
    { host with
      tb := Function.update host.tb i
        (tokenBucketCharge (host.tb i) (gs.tbdesc i) tmsec cost).1 }

/-- The meter conforms to the charge. -/
def meterConforms (gs : GsRom) (host : HostState) (i : Fin MAX_METERS) (tmsec cost : u32) : Bool :=
  (tokenBucketCharge (host.tb i) (gs.tbdesc i) tmsec cost).2

theorem chargeMeter_eq (gs : GsRom) (host : HostState) {tb : BitVec 3} {i : Fin MAX_METERS}
    (hi : tb.toNat = i.val) (tmsec cost : u32) :
    chargeMeter gs host tb tmsec cost
      = .ok (meterCharged gs host i tmsec cost,
          decide (cost = 0) || meterConforms gs host i tmsec cost) := by
  unfold chargeMeter meterCharged
  by_cases hc : cost = 0
  · rw [if_pos hc, if_pos hc, decide_eq_true hc, Bool.true_or]
  · have hlt : tb.toNat < MAX_METERS := hi ▸ i.isLt
    have heq : (⟨tb.toNat, hlt⟩ : Fin MAX_METERS) = i := Fin.ext hi
    rw [if_neg hc, if_neg hc, dif_pos hlt, decide_eq_false hc, Bool.false_or]
    simp only [heq]
    rfl

theorem meterCharged_of_ne (gs : GsRom) (host : HostState) {i j : Fin MAX_METERS}
    (tmsec cost : u32) (h : ¬ (j = i ∧ cost ≠ 0)) :
    (meterCharged gs host i tmsec cost).tb j = host.tb j := by
  unfold meterCharged
  by_cases hc : cost = 0
  · rw [if_pos hc]
  · rw [if_neg hc]
    exact Function.update_of_ne (fun hj => h ⟨hj, hc⟩) _ _

theorem meterCharged_self (gs : GsRom) (host : HostState) (i : Fin MAX_METERS) {tmsec cost : u32}
    (h : cost ≠ 0) : (meterCharged gs host i tmsec cost).tb i
      = (tokenBucketCharge (host.tb i) (gs.tbdesc i) tmsec cost).1 := by
  rw [meterCharged, if_neg h]
  exact Function.update_self _ _ _

theorem result_eq_zero (ok₁ ok₂ : Bool) :
    (2 - (if ok₁ then 1 else 0) - (if ok₂ then 1 else 0) : u8) = 0
      ↔ ok₁ = true ∧ ok₂ = true := by
  cases ok₁ <;> cases ok₂ <;> decide

theorem satadd32_zero_left (a : u32) : satadd32 0 a = a := by
  apply BitVec.eq_of_toNat_eq
  rw [satadd32_toNat]
  show Saturating.clamp 32 (0 + a.toNat) = a.toNat
  rw [Nat.zero_add, Saturating.clamp_of_lt a.isLt]

theorem satadd32_zero_right (a : u32) : satadd32 a 0 = a := by
  apply BitVec.eq_of_toNat_eq
  rw [satadd32_toNat]
  show Saturating.clamp 32 (a.toNat + 0) = a.toNat
  rw [Nat.add_zero, Saturating.clamp_of_lt a.isLt]

/-- Both costs on one meter: what the two charges leave of its bucket, and when both conform. -/
theorem charges_of_same (gs : GsRom) (host : HostState) (i : Fin MAX_METERS) (tmsec : u32)
    {c₁ c₂ : u32} (hcost : c₁ ≠ 0 ∨ c₂ ≠ 0) :
    (meterCharged gs (meterCharged gs host i tmsec c₁) i tmsec c₂).tb i
        = (tokenBucketCharge (host.tb i) (gs.tbdesc i) tmsec (satadd32 c₁ c₂)).1
      ∧ ((c₁ ≠ 0 → meterConforms gs host i tmsec c₁ = true)
          ∧ (c₂ ≠ 0 → meterConforms gs (meterCharged gs host i tmsec c₁) i tmsec c₂ = true)
        ↔ meterConforms gs host i tmsec (satadd32 c₁ c₂) = true) := by
  by_cases h₁ : c₁ = 0
  · -- Only the second charge is made.
    have h₂ := hcost.resolve_left (not_not.mpr h₁)
    have hkept : meterCharged gs host i tmsec 0 = host := if_pos rfl
    subst h₁
    rw [satadd32_zero_left, hkept, meterCharged_self gs host i h₂]
    exact ⟨rfl, fun h => h.2 h₂, fun h => ⟨fun hc => absurd rfl hc, fun _ => h⟩⟩
  · by_cases h₂ : c₂ = 0
    · -- Only the first.
      have hkept : meterCharged gs (meterCharged gs host i tmsec c₁) i tmsec 0
          = meterCharged gs host i tmsec c₁ := if_pos rfl
      subst h₂
      rw [satadd32_zero_right, hkept, meterCharged_self gs host i h₁]
      exact ⟨rfl, fun h => h.1 h₁, fun h => ⟨fun _ => h, fun hc => absurd rfl hc⟩⟩
    · obtain ⟨hbucket, hconf⟩ :=
        tokenBucketCharge_twice (host.tb i) (gs.tbdesc i) tmsec c₁ c₂
      unfold meterConforms
      rw [meterCharged_self _ _ _ h₂, meterCharged_self _ _ _ h₁, hconf]
      exact ⟨hbucket, fun h => ⟨h.1 h₁, h.2 h₂⟩, fun h => ⟨fun _ => h.1, fun _ => h.2⟩⟩

section

variable (gs : GsRom) (host : HostState) (rl : Rule) (tmsec : u32) (in_bytes : u16)

/-- The host after both charges, and after the release of its lock. -/
def packetCharged (b p : Fin MAX_METERS) : HostState :=
  let host := meterCharged gs (meterCharged gs host b tmsec (byteCost rl in_bytes)) p tmsec
    (packetCost rl)
  { host with lock := host.lock &&& ~~~1 }

/-- Each meter with a cost conforms, the packet meter as the byte charge leaves it. -/
def PacketConforms (b p : Fin MAX_METERS) : Prop :=
  (byteCost rl in_bytes ≠ 0 → meterConforms gs host b tmsec (byteCost rl in_bytes) = true)
  ∧ (packetCost rl ≠ 0 → meterConforms gs (meterCharged gs host b tmsec (byteCost rl in_bytes))
      p tmsec (packetCost rl) = true)

variable {rl} {b p : Fin MAX_METERS}

/-- `host_charge_packet` charges the two meters, and returns zero exactly if both conform. -/
theorem hostChargePacket_eq (hb : rl.in_byte_tb.toNat = b.val)
    (hp : rl.in_packet_tb.toNat = p.val) :
    ∃ ret, hostChargePacket gs host rl tmsec in_bytes
        = .ok (packetCharged gs host rl tmsec in_bytes b p, ret)
      ∧ (ret = 0 ↔ PacketConforms gs host rl tmsec in_bytes b p) := by
  have hcall : hostChargePacket gs host rl tmsec in_bytes
      = chargeMeter gs host rl.in_byte_tb tmsec (byteCost rl in_bytes) >>= fun r =>
        chargeMeter gs r.1 rl.in_packet_tb tmsec (packetCost rl) >>= fun r' =>
        .ok ({ r'.1 with lock := r'.1.lock &&& ~~~1 },
          2 - (if r.2 then 1 else 0) - (if r'.2 then 1 else 0)) := rfl
  have hverdict : ∀ (c : u32) (ok : Bool), (decide (c = 0) || ok) = true ↔ (c ≠ 0 → ok = true) := by
    intro c ok
    rw [Bool.or_eq_true_iff, decide_eq_true_iff, or_iff_not_imp_left]
  rw [chargeMeter_eq gs host hb] at hcall
  refine ⟨2 - (if decide (byteCost rl in_bytes = 0)
        || meterConforms gs host b tmsec (byteCost rl in_bytes) then 1 else 0)
      - (if decide (packetCost rl = 0) || meterConforms gs
          (meterCharged gs host b tmsec (byteCost rl in_bytes)) p tmsec (packetCost rl)
        then 1 else 0), ?_, ?_⟩
  · rw [hcall]
    show chargeMeter gs _ rl.in_packet_tb tmsec (packetCost rl) >>= _ = _
    rw [chargeMeter_eq gs _ hp]
    rfl
  · rw [result_eq_zero, hverdict, hverdict]
    rfl

/-- **Packet charging composes.** The verdict is zero exactly if each meter with a cost conforms;
no other bucket changes; and on one meter the two charges are one of the saturated sum. Only if
both costs are zero is nothing charged, not even the sum. -/
theorem hostChargePacket_composes (hb : rl.in_byte_tb.toNat = b.val)
    (hp : rl.in_packet_tb.toNat = p.val) :
    ∃ host' ret, hostChargePacket gs host rl tmsec in_bytes = .ok (host', ret)
      ∧ (ret = 0 ↔ PacketConforms gs host rl tmsec in_bytes b p)
      ∧ (∀ i, host'.tb i ≠ host.tb i →
          (i = b ∧ byteCost rl in_bytes ≠ 0) ∨ (i = p ∧ packetCost rl ≠ 0))
      ∧ (b = p → byteCost rl in_bytes ≠ 0 ∨ packetCost rl ≠ 0 →
          host'.tb b = (tokenBucketCharge (host.tb b) (gs.tbdesc b) tmsec
              (satadd32 (byteCost rl in_bytes) (packetCost rl))).1
          ∧ (ret = 0 ↔ (tokenBucketCharge (host.tb b) (gs.tbdesc b) tmsec
              (satadd32 (byteCost rl in_bytes) (packetCost rl))).2 = true))
      ∧ (byteCost rl in_bytes = 0 → packetCost rl = 0 → host'.tb = host.tb ∧ ret = 0) := by
  obtain ⟨ret, hcall, hret⟩ := hostChargePacket_eq gs host tmsec in_bytes hb hp
  refine ⟨_, ret, hcall, hret, ?_, ?_, ?_⟩
  · intro i hi
    by_contra hno
    rw [not_or] at hno
    exact hi ((meterCharged_of_ne gs _ tmsec _ hno.2).trans
      (meterCharged_of_ne gs host tmsec _ hno.1))
  · rintro rfl hcost
    obtain ⟨hbucket, hconf⟩ := charges_of_same gs host b tmsec hcost
    exact ⟨hbucket, hret.trans hconf⟩
  · intro hzero hzero'
    refine ⟨?_, hret.mpr ⟨fun hc => absurd hzero hc, fun hc => absurd hzero' hc⟩⟩
    funext i
    exact (meterCharged_of_ne gs _ tmsec _ fun h => h.2 hzero').trans
      (meterCharged_of_ne gs host tmsec _ fun h => h.2 hzero)

end

/-- A rule that charges both costs to meter 1: two tokens a byte, three a packet. -/
def sameMeterRule : Rule := ⟨0, 2, 3, 0, 1, 1, 0⟩

/-- A packet of 10 bytes under this rule: one charge of 23 tokens. -/
theorem hostChargePacket_composes_same :
    ∃ host' ret, hostChargePacket Gs.zero.toGsRom HostState.zero sameMeterRule 5 10
        = .ok (host', ret)
      ∧ host'.tb 1 = (tokenBucketCharge TBucket.zero TBucketDesc.zero 5 23).1
      ∧ (ret = 0 ↔ (tokenBucketCharge TBucket.zero TBucketDesc.zero 5 23).2 = true) := by
  obtain ⟨host', ret, hcall, -, -, hsame, -⟩ :=
    hostChargePacket_composes Gs.zero.toGsRom HostState.zero 5 10
      (show sameMeterRule.in_byte_tb.toNat = (1 : Fin MAX_METERS).val from rfl)
      (show sameMeterRule.in_packet_tb.toNat = (1 : Fin MAX_METERS).val from rfl)
  have hsum : satadd32 (byteCost sameMeterRule 10) (packetCost sameMeterRule) = 23 := by decide
  obtain ⟨hbucket, hret⟩ := hsame rfl (Or.inl (by decide))
  rw [hsum] at hbucket hret
  exact ⟨host', ret, hcall, hbucket, hret⟩

/-- **A packet that costs nothing conforms also to an empty meter**, which one charge of nothing
does not. -/
theorem freePacket_conforms : ¬ ∀ (gs : GsRom) (host host' : HostState) (rl : Rule)
    (tmsec : u32) (in_bytes : u16) (ret : u8) (b : Fin MAX_METERS),
    rl.in_byte_tb.toNat = b.val → rl.in_packet_tb.toNat = b.val →
    hostChargePacket gs host rl tmsec in_bytes = .ok (host', ret) →
    (ret = 0 ↔ (tokenBucketCharge (host.tb b) (gs.tbdesc b) tmsec
      (satadd32 (byteCost rl in_bytes) (packetCost rl))).2 = true) := by
  intro hall
  have hiff := hall Gs.zero.toGsRom HostState.zero
    ⟨HostState.zero.tb, HostState.zero.lock &&& ~~~1⟩ Rule.zero 0 10 0 0 rfl rfl rfl
  exact absurd (hiff.mp rfl) (by decide)

end Ntfw
