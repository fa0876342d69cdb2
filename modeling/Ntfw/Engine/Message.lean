import Ntfw.Engine.RemoteAuth
import Ntfw.Ntfe.Reads

set_option autoImplicit false

/-! # What the authenticator reads, what is signed, and for whom

The checks of `ntfp_rx_process` take the lengths of the three headers for granted once they
fit into each other. They do not ask for a whole message: its own length and the address
behind it may lie beyond the frame, the length may leave the address out of the signed
range, and the address is never compared with the sender's. -/

namespace Ntfw

open Reader (Inside)

/-! ## Reads -/

section

variable (frame : NetFrame)

theorem value_ipLen : (Reader.le16 (SZ_ETH_HDR + 2)).value frame = frame.ipLen := rfl

theorem value_udpLen : (Reader.le16 (L4_OFS + 4)).value frame = frame.udpLen := rfl

theorem value_magic : ((Reader.le64 0).shift Reads.NTFP_OFS).value frame
    = (NtfpMsg.ofFrame frame).magic := Reader.value_shift _ _ _

theorem value_msgLen : ((Reader.le16 (SZ_NTFP_HDR + 14)).shift Reads.NTFP_OFS).value frame
    = (NtfpMsg.ofFrame frame).len := Reader.value_shift _ _ _

theorem value_timestamp : ((Reader.le64 SZ_NTFP_HDR).shift Reads.NTFP_OFS).value frame
    = (NtfpMsg.ofFrame frame).timestamp := Reader.value_shift _ _ _

theorem value_signature : ((Reader.bytes 8 64).shift Reads.NTFP_OFS).value frame
    = (NtfpMsg.ofFrame frame).signature := (Reader.value_shift _ _ _).trans (Reader.value_bytes ..)

theorem value_payload (n : Nat) : ((Reader.bytes SZ_NTFP_HDR n).shift Reads.NTFP_OFS).value frame
    = (NtfpMsg.ofFrame frame).payload n :=
  (Reader.value_shift _ _ _).trans (Reader.value_bytes ..)

theorem value_authAddr :
    ((Reader.le32 (SZ_NTFP_HDR + 16 + SZ_NTFP_HDR)).shift Reads.NTFP_OFS).value frame
      = (NtfpMsg.ofFrame frame).authAddr := Reader.value_shift _ _ _

end

/-- The traced program returns what the model of `ntfp_rx_process` checks. -/
theorem value_ntfpRxProcess (verify : Verify) (key : NtfePkey) (t : u64) (frame : NetFrame)
    (len : u16) :
    (Reads.ntfpRxProcess verify key t len).value frame = ntfpRxCheck verify key t frame len := by
  -- First the control flow, then the loads: what they return are the fields of the model.
  simp only [Reads.ntfpRxProcess, Reader.value_bind, Reader.value_ite, Reader.value_pure]
  simp only [value_ipLen, value_udpLen, value_magic, value_msgLen, value_timestamp,
    value_signature, value_payload, value_authAddr]
  simp only [ntfpRxCheck, ite_or]

/-- Where the reads end, check by check. -/
theorem inside_ntfpRxProcess (verify : Verify) (key : NtfePkey) (t : u64) (frame : NetFrame)
    (len : u16) (h64 : 64 ≤ len.toNat) :
    (Reads.ntfpRxProcess verify key t len).Within (Inside 0 len.toNat) frame
      ↔ (LenReached key frame len → 130 ≤ len.toNat)
        ∧ (VerifyReached key t frame len →
            114 + (NtfpMsg.ofFrame frame).len.toNat ≤ len.toNat)
        ∧ (VerifyReached key t frame len → Signed verify key frame → 206 ≤ len.toNat) := by
  simp only [Reads.ntfpRxProcess, Reader.within_bind, Reader.within_ite, Reader.within_pure,
    Reader.inside_shift, Reader.inside_le16, Reader.inside_le32, Reader.inside_le64,
    Reader.inside_bytes]
  simp only [value_ipLen, value_udpLen, value_magic, value_msgLen, value_timestamp,
    value_signature, value_payload, value_authAddr]
  have hofs : Reads.NTFP_OFS = 42 := rfl
  have hl4 : L4_OFS = 34 := rfl
  simp only [hofs, hl4, SZ_ETH_HDR, SZ_NTFP_HDR, ne_eq, not_not, not_or, Nat.not_lt, BitVec.not_lt,
    implies_true, true_and, and_true, Nat.zero_le, Bool.not_eq_true', Bool.not_eq_false]
  constructor
  · rintro ⟨-, h⟩
    -- A frame that gets as far as a check has passed the ones before it.
    have hlen := fun hl : LenReached key frame len =>
      ((h hl.magic hl.link.1).2 hl.link.2 hl.network.1).2 hl.network.2 hl.transport
    have hver := fun hv : VerifyReached key t frame len =>
      ((hlen hv.toLenReached).2 hv.application).2
        ⟨BitVec.not_lt.mp hv.left, BitVec.not_lt.mp hv.right⟩
    refine ⟨fun hl => ?_, fun hv => ?_, fun hv hs => ?_⟩
    · have h1 := (hlen hl).1
      omega
    · have h1 := (hlen hv.toLenReached).1
      have h2 := (hver hv).2.1
      omega
    · have h1 := (hver hv).2.2 hs
      omega
  · rintro ⟨hlen, hpayload, haddr⟩
    refine ⟨by omega, fun hm hl1 => ⟨by omega, fun hl2 hn1 => ⟨by omega, fun hn2 ht => ?_⟩⟩⟩
    have hl : LenReached key frame len := ⟨hm, ⟨hl1, hl2⟩, ⟨hn1, hn2⟩, ht⟩
    have h1 := hlen hl
    refine ⟨by omega, fun ha => ⟨by omega, fun hw => ?_⟩⟩
    have hv : VerifyReached key t frame len :=
      ⟨hl, ha, BitVec.not_lt.mpr hw.1, BitVec.not_lt.mpr hw.2⟩
    have h2 := hpayload hv
    refine ⟨by omega, by omega, fun hs => ?_⟩
    have h3 := haddr hv hs
    omega

/-- **When the authenticator reads the received message only.** A frame that gets as far as the
length of the message must have that length in it, one that gets to the signature the payload,
and one that is signed the address. -/
theorem message_reads_inside_iff (verify : Verify) (key : NtfePkey) (t : u64) (frame : NetFrame)
    (len : u16) (h64 : 64 ≤ len.toNat) :
    (Reads.ntfpRxProcess verify key t len).value frame = ntfpRxCheck verify key t frame len
    ∧ ((Reads.ntfpRxProcess verify key t len).Within (Inside 0 len.toNat) frame
      ↔ (LenReached key frame len → 130 ≤ len.toNat)
        ∧ (VerifyReached key t frame len →
            114 + (NtfpMsg.ofFrame frame).len.toNat ≤ len.toNat)
        ∧ (VerifyReached key t frame len → Signed verify key frame → 206 ≤ len.toNat)) :=
  ⟨value_ntfpRxProcess verify key t frame len, inside_ntfpRxProcess verify key t frame len h64⟩

/-- The condition at a whole message. -/
theorem message_reads_inside_iff_timely :
    64 ≤ (214 : u16).toNat
    ∧ (Reads.ntfpRxProcess (fun _ _ _ => true) NtfePkey.zero AUTH_TWND 214).value timelyFrame
      = ntfpRxCheck (fun _ _ _ => true) NtfePkey.zero AUTH_TWND timelyFrame 214
    ∧ ((Reads.ntfpRxProcess (fun _ _ _ => true) NtfePkey.zero AUTH_TWND 214).Within
        (Inside 0 (214 : u16).toNat) timelyFrame
      ↔ (LenReached NtfePkey.zero timelyFrame 214 → 130 ≤ (214 : u16).toNat)
        ∧ (VerifyReached NtfePkey.zero AUTH_TWND timelyFrame 214 →
            114 + (NtfpMsg.ofFrame timelyFrame).len.toNat ≤ (214 : u16).toNat)
        ∧ (VerifyReached NtfePkey.zero AUTH_TWND timelyFrame 214 →
            Signed (fun _ _ _ => true) NtfePkey.zero timelyFrame → 206 ≤ (214 : u16).toNat)) :=
  ⟨by decide, message_reads_inside_iff (fun _ _ _ => true) NtfePkey.zero AUTH_TWND timelyFrame 214
    (by decide)⟩

/-- A datagram in a minimal frame whose IP header claims a length of zero. -/
def shortFrame : NetFrame :=
  let ip : List byte := [0x45, 0, 0, 0, 0, 0, 0, 0, 64, IP_P_UDP, 0, 0, 10, 0, 0, 1, 10, 0, 0, 2]
  let udp : List byte := [0, 53, 0x16, 0x1E, 0, 0, 0, 0]
  Mem.ofBytes (List.replicate 12 0 ++ [0x08, 0x00] ++ ip ++ udp)

/-- **The length of a message is read beyond its frame.** -/
theorem message_read_outside :
    ¬ ∀ (verify : Verify) (key : NtfePkey) (t : u64) (frame : NetFrame) (len : u16),
      64 ≤ len.toNat → frame.ethProto = htons ETH_P_IP → frame.ipIhl = IP_IHL_MIN →
      frame.ipProto = IP_P_UDP →
      (Reads.ntfpRxProcess verify key t len).Within (Inside 0 len.toNat) frame := by
  intro hall
  have hin := hall (fun _ _ _ => false) NtfePkey.zero 0 shortFrame 64 (by decide)
    (by decide +kernel) (by decide +kernel) (by decide +kernel)
  have hreached : LenReached NtfePkey.zero shortFrame 64 := by
    refine ⟨?_, ?_, ?_, ?_⟩ <;> decide +kernel
  have h130 := ((inside_ntfpRxProcess _ _ _ _ _ (by decide)).mp hin).1 hreached
  exact absurd h130 (by decide)

/-! ## The signed range -/

/-- The address and the time of a message lie in the range its signature is checked over. -/
def AddressCovered (msg : NtfpMsg) : Prop :=
  (Reader.le32 (SZ_NTFP_HDR + 16 + SZ_NTFP_HDR)).Within
      (Inside SZ_NTFP_HDR (SZ_NTFP_HDR + msg.len.toNat)) msg
    ∧ (Reader.le64 SZ_NTFP_HDR).Within (Inside SZ_NTFP_HDR (SZ_NTFP_HDR + msg.len.toNat)) msg

theorem addressCovered_iff (msg : NtfpMsg) : AddressCovered msg ↔ 92 ≤ msg.len.toNat := by
  unfold AddressCovered
  rw [Reader.inside_le32, Reader.inside_le64]
  unfold SZ_NTFP_HDR
  omega

/-- The two messages are signed alike: by the same signature, over the same bytes. -/
structure SameSigned (frame frame' : NetFrame) : Prop where
  signature : (NtfpMsg.ofFrame frame').signature = (NtfpMsg.ofFrame frame).signature
  len : (NtfpMsg.ofFrame frame').len = (NtfpMsg.ofFrame frame).len
  payload : (NtfpMsg.ofFrame frame').payload (NtfpMsg.ofFrame frame').len.toNat
    = (NtfpMsg.ofFrame frame).payload (NtfpMsg.ofFrame frame).len.toNat

/-- Signed bytes are the same in messages signed alike. -/
theorem SameSigned.byte_eq {frame frame' : NetFrame} (h : SameSigned frame frame') {i : Nat}
    (hi : i < (NtfpMsg.ofFrame frame).len.toNat) :
    NtfpMsg.ofFrame frame' (SZ_NTFP_HDR + i) = NtfpMsg.ofFrame frame (SZ_NTFP_HDR + i) := by
  have hpayload := h.payload
  rw [h.len] at hpayload
  exact Mem.bytes_inj.mp hpayload i hi

/-- The last byte of the address, as an offset of the frame. -/
def ADDR_TOP_OFS : Nat := Reads.NTFP_OFS + (SZ_NTFP_HDR + 16 + SZ_NTFP_HDR + 3)

/-- The frame with the last byte of the address replaced by another one that is not zero. -/
def retarget (frame : NetFrame) : NetFrame :=
  Function.update frame ADDR_TOP_OFS (if frame ADDR_TOP_OFS = 1 then 2 else 1)

theorem retarget_of_ne (frame : NetFrame) {o : Nat} (h : o ≠ 205) : retarget frame o = frame o :=
  Function.update_of_ne h _ frame

theorem ofFrame_retarget (frame : NetFrame) {i : Nat} (h : i ≠ 163) :
    NtfpMsg.ofFrame (retarget frame) i = NtfpMsg.ofFrame frame i := by
  have hofs : L4_OFS + SZ_UDP_HDR = 42 := rfl
  exact retarget_of_ne frame (by omega)

theorem retarget_top (frame : NetFrame) :
    NtfpMsg.ofFrame (retarget frame) 163 ≠ 0
    ∧ NtfpMsg.ofFrame (retarget frame) 163 ≠ NtfpMsg.ofFrame frame 163 := by
  have htop : NtfpMsg.ofFrame (retarget frame) 163 = if frame ADDR_TOP_OFS = 1 then 2 else 1 :=
    Function.update_self ADDR_TOP_OFS _ frame
  have hold : NtfpMsg.ofFrame frame 163 = frame ADDR_TOP_OFS := rfl
  rw [htop, hold]
  by_cases h1 : frame ADDR_TOP_OFS = 1
  · rw [if_pos h1, h1]
    decide
  · rw [if_neg h1]
    exact ⟨by decide, fun hc => h1 hc.symm⟩

/-- The replacement leaves everything but the address, as long as it is not signed. -/
theorem retarget_sameSigned {frame : NetFrame} (h : (NtfpMsg.ofFrame frame).len.toNat < 92) :
    SameSigned frame (retarget frame)
    ∧ ∀ key t len, VerifyReached key t frame len → VerifyReached key t (retarget frame) len := by
  -- The byte that is replaced lies behind every field but the address, and is not signed.
  have h72 : SZ_NTFP_HDR = 72 := rfl
  have hip : (retarget frame).ipLen = frame.ipLen :=
    Mem.le16_congr fun i hi => retarget_of_ne frame (by rw [SZ_ETH_HDR]; omega)
  have hudp : (retarget frame).udpLen = frame.udpLen :=
    Mem.le16_congr fun i hi => retarget_of_ne frame (by rw [show L4_OFS = 34 from rfl]; omega)
  have hmagic : (NtfpMsg.ofFrame (retarget frame)).magic = (NtfpMsg.ofFrame frame).magic :=
    Mem.le64_congr fun i hi => ofFrame_retarget frame (by omega)
  have htime : (NtfpMsg.ofFrame (retarget frame)).timestamp = (NtfpMsg.ofFrame frame).timestamp :=
    Mem.le64_congr fun i hi => ofFrame_retarget frame (by omega)
  have hlen : (NtfpMsg.ofFrame (retarget frame)).len = (NtfpMsg.ofFrame frame).len :=
    Mem.le16_congr fun i hi => ofFrame_retarget frame (by omega)
  refine ⟨⟨?_, hlen, ?_⟩, fun key t len hv => ?_⟩
  · exact Mem.bytes_inj.mpr fun i hi => ofFrame_retarget frame (by omega)
  · rw [hlen]
    exact Mem.bytes_inj.mpr fun i hi => ofFrame_retarget frame (by omega)
  · have hnet : networkLen (retarget frame) = networkLen frame := by rw [networkLen, hip, networkLen]
    have htrans : transportLen (retarget frame) = transportLen frame := by
      rw [transportLen, hnet, transportLen]
    refine ⟨⟨?_, ?_, ?_, ?_⟩, ?_, ?_, ?_⟩
    · rw [hmagic]
      exact hv.magic
    · rw [hip]
      exact hv.link
    · rw [hnet, hudp]
      exact hv.network
    · rw [htrans]
      exact hv.transport
    · rw [hlen, htrans]
      exact hv.application
    · rw [htime]
      exact hv.left
    · rw [htime]
      exact hv.right

/-- The replaced address is another one, and not zero. -/
theorem retarget_authAddr (frame : NetFrame) :
    (NtfpMsg.ofFrame (retarget frame)).authAddr ≠ (NtfpMsg.ofFrame frame).authAddr
    ∧ (NtfpMsg.ofFrame (retarget frame)).authAddr ≠ 0 := by
  obtain ⟨htop0, htop⟩ := retarget_top frame
  refine ⟨fun hc => ?_, fun hc => ?_⟩
  · exact htop (Mem.byte_of_le32 hc (i := 3) (by decide))
  · have hzero : (NtfpMsg.ofFrame (retarget frame)).authAddr
        = Mem.le32 (fun _ => 0) (SZ_NTFP_HDR + 16 + SZ_NTFP_HDR) := hc
    exact htop0 (Mem.byte_of_le32 hzero (i := 3) (by decide))

/-- Messages signed alike authorise the same address at the same time. -/
def ReplaySafe (verify : Verify) (key : NtfePkey) (frame : NetFrame) (a : be32) : Prop :=
  ∀ (t : u64) (frame' : NetFrame) (len : u16) (a' : be32),
    ntfpRxCheck verify key t frame' len = some a' → SameSigned frame frame' →
    a' = a ∧ (NtfpMsg.ofFrame frame').timestamp = (NtfpMsg.ofFrame frame).timestamp

/-- **When the signature covers what is authorised**: for a message that is accepted, exactly
when the length it gives reaches behind the address; and exactly then nobody can reuse its
signature for another address. -/
theorem address_covered_iff {verify : Verify} {key : NtfePkey} {t : u64} {frame : NetFrame}
    {len : u16} {a : be32} (h : ntfpRxCheck verify key t frame len = some a) :
    (AddressCovered (NtfpMsg.ofFrame frame) ↔ 92 ≤ (NtfpMsg.ofFrame frame).len.toNat)
    ∧ (ReplaySafe verify key frame a ↔ 92 ≤ (NtfpMsg.ofFrame frame).len.toNat) := by
  obtain ⟨hreached, hsigned, haddr, -⟩ := ntfpRxCheck_eq_some.mp h
  refine ⟨addressCovered_iff _, fun hsafe => ?_, fun hlen => ?_⟩
  · -- The last byte of the address is not signed, so it can be replaced.
    by_contra hshort
    obtain ⟨hsame, hkeep⟩ := retarget_sameSigned (Nat.lt_of_not_le hshort)
    obtain ⟨hne, h0⟩ := retarget_authAddr frame
    have hsigned' : Signed verify key (retarget frame) := by
      unfold Signed
      rw [hsame.signature, hsame.payload]
      exact hsigned
    have haccept : ntfpRxCheck verify key t (retarget frame) len
        = some (NtfpMsg.ofFrame (retarget frame)).authAddr :=
      ntfpRxCheck_eq_some.mpr ⟨hkeep key t len hreached, hsigned', rfl, h0⟩
    exact hne ((hsafe t (retarget frame) len _ haccept hsame).1.trans haddr.symm)
  · intro t' frame' len' a' h' hsame
    -- Both the time and the address are read from bytes that are signed.
    obtain ⟨-, -, haddr', -⟩ := ntfpRxCheck_eq_some.mp h'
    have h72 : SZ_NTFP_HDR = 72 := rfl
    refine ⟨?_, Mem.le64_congr fun i hi => hsame.byte_eq (by omega)⟩
    rw [← haddr, ← haddr']
    refine Mem.le32_congr fun i hi => ?_
    have hbyte := hsame.byte_eq (i := 88 + i) (by omega)
    rwa [← Nat.add_assoc] at hbyte

/-- The condition at a message whose payload is signed as a whole. -/
theorem address_covered_iff_timely :
    ntfpRxCheck (fun _ _ _ => true) NtfePkey.zero AUTH_TWND timelyFrame 214 = some 0x0900000A
    ∧ (AddressCovered (NtfpMsg.ofFrame timelyFrame)
      ↔ 92 ≤ (NtfpMsg.ofFrame timelyFrame).len.toNat)
    ∧ (ReplaySafe (fun _ _ _ => true) NtfePkey.zero timelyFrame 0x0900000A
      ↔ 92 ≤ (NtfpMsg.ofFrame timelyFrame).len.toNat) := by
  have hcheck := timelyFrame_check (fun _ _ _ => true) fun _ _ => rfl
  exact ⟨hcheck, address_covered_iff hcheck⟩

/-- The same message with a length of 8: only its time is signed. -/
def timeSignedFrame : NetFrame := Function.update timelyFrame 128 8

/-- **A message is accepted whose address is not signed.** -/
theorem address_uncovered :
    ¬ ∀ (verify : Verify) (key : NtfePkey) (t : u64) (frame : NetFrame) (len : u16) (a : be32),
      ntfpRxCheck verify key t frame len = some a → AddressCovered (NtfpMsg.ofFrame frame) := by
  intro hall
  have hmagic : (NtfpMsg.ofFrame timeSignedFrame).magic = NtfePkey.zero.magic := by
    decide +kernel
  have hcheck : ntfpRxCheck (fun _ _ _ => true) NtfePkey.zero AUTH_TWND timeSignedFrame 214
      = some 0x0900000A := by
    simp only [ntfpRxCheck]
    rw [if_neg (not_not.mpr hmagic)]
    decide +kernel
  have hcovered := hall _ _ _ _ _ _ hcheck
  rw [addressCovered_iff] at hcovered
  exact absurd hcovered (by decide +kernel)

/-! ## The sender -/

/-- `ntfp_rx_process` gets to the address: what it goes on to insert, with priority
`HOST_PRI_DYNAUTH`. -/
def Authorises (verify : Verify) (env : Env) (gs : Gs) (frame : NetFrame) (len : u16)
    (a : be32) : Prop :=
  ntfpRxCheck verify gs.pkey env.time frame len = some a

/-- **When a message authorises only its sender**: when it names the sender, or is not accepted
at all. -/
theorem authorises_sender_iff (verify : Verify) (env : Env) (gs : Gs) (frame : NetFrame)
    (len : u16) :
    (∀ a, Authorises verify env gs frame len a → a = frame.ipSaddr)
      ↔ (NtfpMsg.ofFrame frame).authAddr = frame.ipSaddr
        ∨ (NtfpMsg.ofFrame frame).authAddr = 0
        ∨ ¬ VerifyReached gs.pkey env.time frame len
        ∨ ¬ Signed verify gs.pkey frame := by
  unfold Authorises
  constructor
  · intro hall
    by_cases haddr : (NtfpMsg.ofFrame frame).authAddr = frame.ipSaddr
    · exact Or.inl haddr
    · by_contra hno
      rw [not_or, not_or, not_or, not_not, not_not] at hno
      obtain ⟨-, h0, hreached, hsigned⟩ := hno
      exact haddr (hall _ (ntfpRxCheck_eq_some.mpr ⟨hreached, hsigned, rfl, h0⟩))
  · rintro hcond a h
    obtain ⟨hreached, hsigned, rfl, h0⟩ := ntfpRxCheck_eq_some.mp h
    rcases hcond with haddr | hzero | hnot | hnot
    · exact haddr
    · exact absurd hzero h0
    · exact absurd hreached hnot
    · exact absurd hsigned hnot

/-- **A message from 10.0.0.1 authorises 10.0.0.9.** -/
theorem authorises_another :
    ¬ ∀ (verify : Verify) (env : Env) (gs : Gs) (frame : NetFrame) (len : u16) (a : be32),
      Authorises verify env gs frame len a → a = frame.ipSaddr := by
  intro hall
  have hcheck := timelyFrame_check (fun _ _ _ => true) fun _ _ => rfl
  have hsender := hall (fun _ _ _ => true) ⟨0, false, AUTH_TWND⟩ Gs.zero timelyFrame 214 _
    hcheck
  exact absurd hsender (by decide +kernel)

end Ntfw
