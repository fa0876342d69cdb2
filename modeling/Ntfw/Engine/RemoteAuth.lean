import Ntfw.Engine.DefaultDeny

set_option autoImplicit false

/-! # Remote authorisation

An NTFP message passes two gates: the hook of `ntfe_rx`, which hands it to the authenticator,
and the checks of the authenticator under the engine's key. The hook compares a frame's
signature with a word that has no ethertype, so it is never taken; and the engine's key is
the wiped one, whatever key the image has. -/

namespace Ntfw

/-! ## The hook -/

/-- The frames that are meant for the authenticator. -/
structure NtfpQualifies (gs : Gs) (frame : NetFrame) : Prop where
  ip : frame.ethProto = htons ETH_P_IP
  udp : frame.ipProto = IP_P_UDP
  ihl : frame.ipIhl = IP_IHL_MIN
  unfragmented : frame.ipFragOff &&& htons (IP_MF ||| IP_OFFSET) = 0
  saddr : frame.ipSaddr ≠ 0
  unauthorized : ¬ HostAuthorized gs frame.ipSaddr
  dport : frame.tcpDport = htons NTFP_PORT

/-- `ntfe_rx` hands the frame to `ntfp_rx_process` and drops it. -/
def HandedOver (verify : Verify) (env : Env) (gs : Gs) (frame : NetFrame) (len : u16) : Prop :=
  ∃ gs', ntfeRxExit verify env gs frame len = .ok (.ntfp, gs')

/-- **No frame is handed over**, so that exactly the frames that are meant for the
authenticator are treated otherwise than they should be. -/
theorem ntfp_hook_iff (verify : Verify) (env : Env) (gs : Gs) (frame : NetFrame) (len : u16) :
    (NtfpQualifies gs frame ↔ HandedOver verify env gs frame len) ↔ ¬ NtfpQualifies gs frame := by
  have hnever : ¬ HandedOver verify env gs frame len := by
    rintro ⟨gs', h⟩
    exact (ntfeRxExit_ok h).1 rfl
  constructor
  · intro h hq
    exact hnever (h.mp hq)
  · intro hq
    exact iff_of_false hq hnever

/-- An NTFP message: zero magic and signature, the given time, and the address 10.0.0.9. -/
def ntfpFrame (timestamp : List byte) : NetFrame :=
  let ip : List byte := [0x45, 0, 0, 200, 0, 0, 0, 0, 64, IP_P_UDP, 0, 0, 10, 0, 0, 1, 10, 0, 0, 2]
  let udp : List byte := [0, 53, 0x16, 0x1E, 0, 180, 0, 0]
  let payload : List byte := timestamp ++ List.replicate 6 0 ++ [92, 0]
  Mem.ofBytes (List.replicate 12 0 ++ [0x08, 0x00] ++ ip ++ udp ++ List.replicate SZ_NTFP_HDR 0
    ++ payload ++ List.replicate SZ_NTFP_HDR 0 ++ [10, 0, 0, 9])

/-- A message sent at time `AUTH_TWND`. -/
def timelyFrame : NetFrame := ntfpFrame [0x00, 0x18, 0x0D, 0x8F, 0, 0, 0, 0]

/-- The hook misses a message under an applied image. -/
theorem ntfp_hook_missed :
    ¬ ∀ (verify : Verify) (env : Env) (gs : Gs) (frame : NetFrame) (len : u16),
      Reachable verify gs → (NtfpQualifies gs frame ↔ HandedOver verify env gs frame len) := by
  intro hall
  obtain ⟨gs, hconf, -, hswept, -⟩ := httpImage_applied
  have hreach : Reachable (fun _ _ _ => true) gs :=
    (Transition.reaches_refl Gs.zero).snoc (e := .configure quietEnv httpImage 126) hconf
  have hun : ¬ HostAuthorized gs timelyFrame.ipSaddr := by
    rintro ⟨k, -, hpri⟩
    rw [(hswept _).pri, HtBucket.zero_pri] at hpri
    exact hpri rfl
  have hq : NtfpQualifies gs timelyFrame := by
    refine ⟨?_, ?_, ?_, ?_, ?_, hun, ?_⟩ <;> decide +kernel
  obtain ⟨gs', h⟩ := (hall (fun _ _ _ => true) quietEnv gs timelyFrame 214 hreach).mp hq
  exact (ntfeRxExit_ok h).1 rfl

/-! ## The checks -/

/-- What the authenticator takes the link layer to carry. -/
def linkLen (len : u16) : u16 := len - BitVec.ofNat 16 SZ_ETH_HDR

/-- What it takes the IP packet to carry, in 16 bits. -/
def networkLen (frame : NetFrame) : u16 := ntohs frame.ipLen - BitVec.ofNat 16 SZ_IP_HDR

/-- What it takes the datagram to carry, in 16 bits. -/
def transportLen (frame : NetFrame) : u16 := networkLen frame - BitVec.ofNat 16 SZ_UDP_HDR

/-- The frame passes the checks that come before the length of the message is looked at. -/
structure LenReached (key : NtfePkey) (frame : NetFrame) (len : u16) : Prop where
  magic : (NtfpMsg.ofFrame frame).magic = key.magic
  link : SZ_IP_HDR ≤ (linkLen len).toNat ∧ ntohs frame.ipLen ≤ linkLen len
  network : SZ_UDP_HDR ≤ (networkLen frame).toNat ∧ ntohs frame.udpLen ≤ networkLen frame
  transport : SZ_NTFP_HDR ≤ (transportLen frame).toNat

/-- It passes the checks that come before the signature. -/
structure VerifyReached (key : NtfePkey) (t : u64) (frame : NetFrame) (len : u16) : Prop extends
    LenReached key frame len where
  application : (NtfpMsg.ofFrame frame).len ≤ transportLen frame
  left : ¬ (NtfpMsg.ofFrame frame).timestamp < t - AUTH_TWND / 2
  right : ¬ t + AUTH_TWND / 2 < (NtfpMsg.ofFrame frame).timestamp

/-- The message carries a valid signature over the first `len` bytes of its payload. -/
def Signed (verify : Verify) (key : NtfePkey) (frame : NetFrame) : Prop :=
  verify (NtfpMsg.ofFrame frame).signature
    ((NtfpMsg.ofFrame frame).payload (NtfpMsg.ofFrame frame).len.toNat) key = true

/-- **What the authenticator accepts**: the messages that pass every check. -/
theorem ntfpRxCheck_eq_some {verify : Verify} {key : NtfePkey} {t : u64} {frame : NetFrame}
    {len : u16} {a : be32} :
    ntfpRxCheck verify key t frame len = some a
      ↔ VerifyReached key t frame len ∧ Signed verify key frame
        ∧ (NtfpMsg.ofFrame frame).authAddr = a ∧ a ≠ 0 := by
  simp only [ntfpRxCheck, Option.ite_none_left_eq_some, Option.some.injEq, not_or, not_not,
    Nat.not_lt, BitVec.not_lt]
  constructor
  · rintro ⟨hmagic, hlink, hnetwork, ⟨htransport, happlication⟩, ⟨hleft, hright⟩, hsigned, h0, rfl⟩
    exact ⟨⟨⟨hmagic, hlink, hnetwork, htransport⟩, happlication, BitVec.not_lt.mpr hleft,
      BitVec.not_lt.mpr hright⟩, by simpa [Signed] using hsigned, rfl, h0⟩
  · rintro ⟨⟨⟨hmagic, hlink, hnetwork, htransport⟩, happlication, hleft, hright⟩, hsigned, rfl, h0⟩
    exact ⟨hmagic, hlink, hnetwork, ⟨htransport, happlication⟩, ⟨BitVec.not_lt.mp hleft,
      BitVec.not_lt.mp hright⟩, by simpa [Signed] using hsigned, h0, rfl⟩

/-! ## The key -/

/-- What the authenticator is to demand of a message before it authorises anybody. -/
structure KeyBound (verify : Verify) (key : NtfePkey) (time : u64) (frame : NetFrame) : Prop where
  magic : (NtfpMsg.ofFrame frame).magic = key.magic
  early : time.toNat ≤ (NtfpMsg.ofFrame frame).timestamp.toNat + (AUTH_TWND / 2).toNat
  late : (NtfpMsg.ofFrame frame).timestamp.toNat ≤ time.toNat + (AUTH_TWND / 2).toNat
  signed : verify (NtfpMsg.ofFrame frame).signature
    ((NtfpMsg.ofFrame frame).payload (NtfpMsg.ofFrame frame).len.toNat) key = true

/-- A window around the time; where an edge wraps around, nothing is inside. -/
theorem window_of_edges {t ts w : u64} (hleft : ¬ ts < t - w) (hright : ¬ t + w < ts) :
    t.toNat ≤ ts.toNat + w.toNat ∧ ts.toNat ≤ t.toNat + w.toNat := by
  have h1 : (t - w).toNat ≤ ts.toNat := Nat.le_of_not_lt hleft
  have h2 : ts.toNat ≤ (t + w).toNat := Nat.le_of_not_lt hright
  have hw := w.isLt
  -- Both edges are computed modulo 2 ^ 64; each inequality excludes the wrapped case.
  rw [BitVec.toNat_sub] at h1
  rw [BitVec.toNat_add] at h2
  have ht := t.isLt
  have hts := ts.isLt
  omega

/-- **The checks bind a message to the key they are made with.** -/
theorem ntfpRxCheck_keyBound {verify : Verify} {key : NtfePkey} {time : u64} {frame : NetFrame}
    {len : u16} {a : be32} (h : ntfpRxCheck verify key time frame len = some a) :
    KeyBound verify key time frame := by
  obtain ⟨hreached, hsigned, -, -⟩ := ntfpRxCheck_eq_some.mp h
  obtain ⟨hearly, hlate⟩ := window_of_edges hreached.left hreached.right
  exact ⟨hreached.magic, hearly, hlate, hsigned⟩

/-- Whoever can sign for the wiped key is authorised under it. -/
theorem timelyFrame_check (verify : Verify)
    (h : ∀ sig msg, verify sig msg NtfePkey.zero = true) :
    ntfpRxCheck verify NtfePkey.zero AUTH_TWND timelyFrame 214 = some 0x0900000A := by
  have hmagic : (NtfpMsg.ofFrame timelyFrame).magic = NtfePkey.zero.magic := by decide
  simp only [ntfpRxCheck, h]
  rw [if_neg (not_not.mpr hmagic)]
  decide

/-- **Authorisations are bound to the key of the image exactly when that key is the wiped
one**: the address `ntfp_rx_process` authorises, under any verifier and at any time from the
successful configuration to the next, has passed the checks with the image's key. -/
theorem dynauth_bound_iff {verify₀ : Verify} {env₀ : Env} {gs₀ gs₁ gs : Gs} {cfg : NtfeConfig}
    {cfg_len : u32} {calls : List Call}
    (hconf : ntfeConfigure env₀ gs₀ cfg cfg_len = .ok (true, gs₁)) (hcalls : NoConfigure calls)
    (hrun : Transition.run (engineStep verify₀) gs₁ calls = .ok gs) :
    (∀ (verify : Verify) (env : Env) (frame : NetFrame) (len : u16) (a : be32),
        ntfpRxCheck verify gs.pkey env.time frame len = some a →
        KeyBound verify cfg.pkey env.time frame)
      ↔ cfg.pkey = NtfePkey.zero := by
  have happ : Applies gs cfg := run_applies hconf hcalls hrun
  constructor
  · intro hall
    -- A verifier that accepts under the zero key only tells the two keys apart.
    have hcheck := timelyFrame_check (fun _ _ key => decide (key = NtfePkey.zero))
      (fun _ _ => decide_eq_true rfl)
    rw [← happ.pkey] at hcheck
    have hbound := hall _ ⟨0, false, AUTH_TWND⟩ timelyFrame 214 _ hcheck
    exact (of_decide_eq_true hbound.signed).trans happ.pkey
  · intro hzero verify env frame len a hcheck
    rw [happ.pkey] at hcheck
    rw [hzero]
    exact ntfpRxCheck_keyBound hcheck

/-- The condition for the sample image, after it has received a frame. -/
theorem dynauth_bound_iff_http :
    ∃ gs₁ gs, ntfeConfigure quietEnv Gs.zero httpImage 126 = .ok (true, gs₁)
      ∧ Transition.run (engineStep fun _ _ _ => false) gs₁ [.rx quietEnv httpFrame 64] = .ok gs
      ∧ ((∀ (verify : Verify) (env : Env) (frame : NetFrame) (len : u16) (a : be32),
          ntfpRxCheck verify gs.pkey env.time frame len = some a →
          KeyBound verify httpImage.pkey env.time frame)
        ↔ httpImage.pkey = NtfePkey.zero) := by
  obtain ⟨gs₁, hconf, happ, -, hpool⟩ := httpImage_applied
  have hrx : ntfeRx (fun _ _ _ => false) quietEnv gs₁ httpFrame 64 = .ok (true, gs₁) :=
    ntfeRx_of_rule httpFrame_ipv4 httpFrame_wellFormed hpool
      ((happ.rxFinds_iff _ _).mpr httpFrame_hasRule)
  have hrun : Transition.run (engineStep fun _ _ _ => false) gs₁ [.rx quietEnv httpFrame 64]
      = .ok gs₁ := Transition.run_cons_ok.mpr ⟨true, gs₁, hrx, rfl⟩
  have hcalls : NoConfigure [.rx quietEnv httpFrame 64] := by simp [NoConfigure]
  exact ⟨gs₁, gs₁, hconf, hrun, dynauth_bound_iff hconf hcalls hrun⟩

/-- Under the sample image a message without the magic of its key authorises an address. -/
theorem dynauth_unbound :
    ¬ ∀ (verify : Verify) (env₀ : Env) (gs₀ gs : Gs) (cfg : NtfeConfig) (cfg_len : u32),
      ntfeConfigure env₀ gs₀ cfg cfg_len = .ok (true, gs) →
      ∀ (env : Env) (frame : NetFrame) (len : u16) (a : be32),
        ntfpRxCheck verify gs.pkey env.time frame len = some a →
        KeyBound verify cfg.pkey env.time frame := by
  intro hall
  obtain ⟨gs, hconf, happ, -, -⟩ := httpImage_applied
  have hcheck := timelyFrame_check (fun _ _ _ => true) fun _ _ => rfl
  rw [← happ.pkey] at hcheck
  have hbound := hall _ _ _ gs httpImage 126 hconf ⟨0, false, AUTH_TWND⟩ timelyFrame 214 _ hcheck
  have hmagic : (NtfpMsg.ofFrame timelyFrame).magic ≠ httpImage.pkey.magic := by decide +kernel
  exact hmagic hbound.magic

end Ntfw
