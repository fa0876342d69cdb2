import Ntfw.Engine.Rules
import Ntfw.Host.Insert

set_option autoImplicit false

/-! # The data path

`ntfe_rx` and `ntfe_tx` as equations: what they do with a well-formed IPv4 frame, what with
another, and, from these, what they can change. Neither writes the configuration; the one can
enter the source as an unauthorised host, the other authorises the destination. -/

namespace Ntfw

/-! ## Receive -/

/-- What `ntfe_rx` demands of an IPv4 frame before it looks at hosts and rules. -/
structure RxWellFormed (frame : NetFrame) : Prop where
  ihl : frame.ipIhl = IP_IHL_MIN
  saddr : frame.ipSaddr ≠ 0
  unfragmented : frame.ipFragOff &&& htons (IP_MF ||| IP_OFFSET) = 0
  dport : hasPorts frame.ipProto = true → frame.tcpDport ≠ 0

/-- The address has a live entry of a priority other than `HOST_PRI_NONE`. -/
def HostAuthorized (gs : Gs) (a : be32) : Prop :=
  ∃ k, hostLookup (gs.host_tbl (hostFetchBucket a)) a = some k
    ∧ (gs.host_tbl (hostFetchBucket a)).pri k ≠ 0

theorem pri_ne_none (htb : HtBucket) (k : Slot) :
    (htb.ctrl k).pri ≠ HOST_PRI_NONE ↔ htb.pri k ≠ 0 := by
  refine not_congr ⟨fun h => ?_, fun h => BitVec.eq_of_toNat_eq h⟩
  rw [HtBucket.pri, h]
  rfl

theorem outauth_le_pri (htb : HtBucket) (k : Slot) :
    HOST_PRI_OUTAUTH ≤ (htb.ctrl k).pri ↔ htb.pri k ≠ 0 := by
  show 1 ≤ htb.pri k ↔ _
  omega

theorem hostAuthorized_iff (gs : Gs) (a : be32) :
    (hostLookup (gs.host_tbl (hostFetchBucket a)) a).any
        (fun k => ((gs.host_tbl (hostFetchBucket a)).ctrl k).pri ≠ HOST_PRI_NONE) = true
      ↔ HostAuthorized gs a := by
  simp only [Option.any_eq_true, decide_eq_true_eq, pri_ne_none, HostAuthorized]

/-- The signature of an IPv4 frame for the rule lookup. -/
def ipv4Sig (proto : u8) (dport : be16) : FlowSig :=
  FlowSig.mk (etherBe16ToFs (htons ETH_P_IP)) proto (rulePort proto dport)

/-- The rules compiled to a frame's signature are those of its protocol and port. -/
theorem compile_fsig_eq_ipv4Sig {rl : NtfeRule} {proto : u8} {dport : be16} :
    rl.compile.fsig = ipv4Sig proto dport ↔ etherLe16ToFs rl.ether = etherLe16ToFs ETH_P_IP
      ∧ rl.proto = proto ∧ rl.dport = if hasPorts proto then ntohs dport else 0 := by
  have hport : htons rl.dport = rulePort proto dport
      ↔ rl.dport = if hasPorts proto then ntohs dport else 0 := by
    unfold rulePort
    split
    · constructor
      · intro h
        rw [← h, ntohs_htons]
      · intro h
        rw [h]
        exact htons_ntohs dport
    · constructor
      · intro h
        -- The frame is looked up with port 0, which only port 0 is swapped to.
        exact htons_inj (h.trans (by decide))
      · intro h
        rw [h]
        decide
  exact FlowSig.mk_inj.trans (and_congr_right' (and_congr_right' hport))

theorem ipv4Sig_ne_zero (proto : u8) (dport : be16) : ipv4Sig proto dport ≠ 0 :=
  mk_ne_zero (etherBe16ToFs_ne_zero _) proto _

section

variable {verify : Verify} {env : Env} {gs gs' : Gs} {frame : NetFrame} {len : u16}

theorem ntfeRxExit_of_not_ipv4 (hip : frame.ethProto ≠ htons ETH_P_IP) :
    ntfeRxExit verify env gs frame len
      = ruleLookup gs.toGsRom (rxFlowsig frame &&& 0xFF) >>= fun rl =>
          if rl.isNone then rxDrop env gs .drop else .ok (.accept, gs) := by
  unfold ntfeRxExit
  exact if_pos hip

theorem ntfeRxExit_of_malformed (hip : frame.ethProto = htons ETH_P_IP)
    (hwf : ¬ RxWellFormed frame) : ntfeRxExit verify env gs frame len = rxMalformed env gs := by
  unfold ntfeRxExit
  rw [if_neg (not_not.mpr hip)]
  by_cases hihl : frame.ipIhl = IP_IHL_MIN
  · rw [if_neg (not_not.mpr hihl)]
    by_cases hs : frame.ipSaddr = 0
    · exact if_pos hs
    · simp only [if_neg hs]
      by_cases hf : frame.ipFragOff &&& htons (IP_MF ||| IP_OFFSET) = 0
      · rw [if_neg (not_not.mpr hf)]
        have hd : hasPorts frame.ipProto = true ∧ frame.tcpDport = 0 := by
          by_contra hnot
          exact hwf ⟨hihl, hs, hf, fun hp h0 => hnot ⟨hp, h0⟩⟩
        exact if_pos hd
      · exact if_pos hf
  · exact if_pos hihl

/-- **A well-formed IPv4 frame** is accepted from an authorised host; otherwise it needs a
rule and is policed. The NTFP hook is never taken: its word is no frame's signature. -/
theorem ntfeRxExit_of_wellFormed (hip : frame.ethProto = htons ETH_P_IP)
    (hwf : RxWellFormed frame) :
    (HostAuthorized gs frame.ipSaddr → ntfeRxExit verify env gs frame len = .ok (.accept, gs))
    ∧ (¬ HostAuthorized gs frame.ipSaddr → ntfeRxExit verify env gs frame len
        = ruleLookup gs.toGsRom (ipv4Sig frame.ipProto frame.tcpDport) >>= fun rl =>
            match rl with
            | none => rxDrop env
                (gs.count env.cpu fun sc => { sc with rx_drop_priv := sc.rx_drop_priv + 1 }) .drop
            | some rl => rxPolice env gs (hostFetchBucket frame.ipSaddr) frame.ipSaddr
                (hostLookup (gs.host_tbl (hostFetchBucket frame.ipSaddr)) frame.ipSaddr) rl
                len) := by
  have hd : ¬ (hasPorts frame.ipProto = true ∧ frame.tcpDport = 0) :=
    fun h => hwf.dport h.1 h.2
  unfold ntfeRxExit
  simp only [if_neg (not_not.mpr hip), if_neg (not_not.mpr hwf.ihl), if_neg hwf.saddr,
    if_neg (not_not.mpr hwf.unfragmented), if_neg hd]
  constructor
  · intro ha
    exact if_pos ((hostAuthorized_iff gs frame.ipSaddr).mpr ha)
  · intro ha
    -- Past the hook, whose word has no ethertype, the masked signature is looked up.
    rw [if_neg (fun hc => ha ((hostAuthorized_iff gs frame.ipSaddr).mp hc)),
      if_neg (rxFlowsig_ne_hook frame), rxFlowsig_masked hip]
    rfl

/-- What policing can change: the host table by one insertion of the source. -/
theorem rxPolice_ok {b : Fin HTBL_SIZE} {a : be32} {hidx : Option Slot} {rl : Rule} {e : RxExit}
    (h : rxPolice env gs b a hidx rl len = .ok (e, gs')) :
    e ≠ .ntfp ∧ gs'.toGsRom = gs.toGsRom
    ∧ (gs'.host_tbl = gs.host_tbl
      ∨ ∃ r gs1, hostInsert env gs b a = .ok (r, gs1) ∧ gs'.host_tbl = gs1.host_tbl) := by
  unfold rxPolice at h
  by_cases hp : gs.hpool = true
  · rw [if_neg (by simp [hp]), Except.bind_eq_ok] at h
    obtain ⟨⟨hidx1, gs1⟩, hent, h⟩ := h
    -- An unknown source is entered first; the charge then writes the pool only.
    have hgs1 : gs1.toGsRom = gs.toGsRom ∧ (gs1.host_tbl = gs.host_tbl
        ∨ ∃ r gs2, hostInsert env gs b a = .ok (r, gs2) ∧ gs1.host_tbl = gs2.host_tbl) := by
      cases hidx with
      | none => exact ⟨(hostInsert_spec hent).1.rom, Or.inr ⟨hidx1, gs1, hent, rfl⟩⟩
      | some k =>
          cases hent
          exact ⟨rfl, Or.inl rfl⟩
    cases hidx1 with
    | none =>
        cases h
        exact ⟨by simp, hgs1⟩
    | some k =>
        simp only [Except.bind_eq_ok] at h
        obtain ⟨⟨host, failed⟩, -, h⟩ := h
        by_cases hf : failed = 0
        · rw [if_neg (not_not.mpr hf)] at h
          cases h
          exact ⟨by simp, hgs1⟩
        · rw [if_pos hf] at h
          cases h
          exact ⟨by simp, hgs1⟩
  · -- Without a pool nothing is entered and nothing charged.
    rw [if_pos (by simpa using hp)] at h
    cases h
    exact ⟨by simp, rfl, Or.inl rfl⟩

/-- **`ntfe_rx` writes no configuration, never reaches the NTFP hook**, and changes the host
table by at most one unauthorised insertion of a non-zero source. -/
theorem ntfeRxExit_ok {e : RxExit} (h : ntfeRxExit verify env gs frame len = .ok (e, gs')) :
    e ≠ .ntfp ∧ gs'.toGsRom = gs.toGsRom
    ∧ (gs'.host_tbl = gs.host_tbl
      ∨ frame.ipSaddr ≠ 0 ∧ ∃ r gs1, hostInsert env gs (hostFetchBucket frame.ipSaddr)
          frame.ipSaddr = .ok (r, gs1) ∧ gs'.host_tbl = gs1.host_tbl) := by
  by_cases hip : frame.ethProto = htons ETH_P_IP
  · by_cases hwf : RxWellFormed frame
    · by_cases ha : HostAuthorized gs frame.ipSaddr
      · rw [(ntfeRxExit_of_wellFormed hip hwf).1 ha] at h
        cases h
        exact ⟨by simp, rfl, Or.inl rfl⟩
      · rw [(ntfeRxExit_of_wellFormed hip hwf).2 ha, Except.bind_eq_ok] at h
        obtain ⟨rl, -, h⟩ := h
        cases rl with
        | none =>
            cases h
            exact ⟨by simp, rfl, Or.inl rfl⟩
        | some rl =>
            obtain ⟨hne, hrom, htbl⟩ := rxPolice_ok h
            exact ⟨hne, hrom, htbl.imp id fun hins => ⟨hwf.saddr, hins⟩⟩
    · rw [ntfeRxExit_of_malformed hip hwf] at h
      cases h
      exact ⟨by simp, rfl, Or.inl rfl⟩
  · rw [ntfeRxExit_of_not_ipv4 hip, Except.bind_eq_ok] at h
    obtain ⟨rl, -, h⟩ := h
    cases rl with
    | none =>
        cases h
        exact ⟨by simp, rfl, Or.inl rfl⟩
    | some rl =>
        cases h
        exact ⟨by simp, rfl, Or.inl rfl⟩

/-- **What acceptance of an IPv4 frame means**: it is well formed, and its source is
authorised or there is a rule for it. -/
theorem ntfeRxExit_accept (hip : frame.ethProto = htons ETH_P_IP)
    (h : ntfeRxExit verify env gs frame len = .ok (.accept, gs')) :
    RxWellFormed frame
    ∧ (HostAuthorized gs frame.ipSaddr
      ∨ ∃ rl, ruleLookup gs.toGsRom (ipv4Sig frame.ipProto frame.tcpDport) = .ok (some rl)) := by
  by_cases hwf : RxWellFormed frame
  · refine ⟨hwf, ?_⟩
    by_cases ha : HostAuthorized gs frame.ipSaddr
    · exact Or.inl ha
    · rw [(ntfeRxExit_of_wellFormed hip hwf).2 ha, Except.bind_eq_ok] at h
      obtain ⟨rl, hlook, h⟩ := h
      cases rl with
      | none => cases h
      | some rl => exact Or.inr ⟨rl, hlook⟩
  · rw [ntfeRxExit_of_malformed hip hwf] at h
    cases h

theorem ntfeRx_ok {ok : Bool} (h : ntfeRx verify env gs frame len = .ok (ok, gs')) :
    ∃ e, ntfeRxExit verify env gs frame len = .ok (e, gs') ∧ ok = e.ret := by
  rw [ntfeRx, Except.bind_eq_ok] at h
  obtain ⟨⟨e, gs1⟩, hexit, h⟩ := h
  cases h
  exact ⟨e, hexit, rfl⟩

theorem ntfeRx_true (h : ntfeRx verify env gs frame len = .ok (true, gs')) :
    ntfeRxExit verify env gs frame len = .ok (.accept, gs') := by
  obtain ⟨e, hexit, he⟩ := ntfeRx_ok h
  cases e with
  | accept => exact hexit
  | drop => cases he
  | ntfp => cases he

/-- Without a pool there is no policing: a well-formed frame with a rule is accepted and
nothing changes. -/
theorem ntfeRx_of_rule (hip : frame.ethProto = htons ETH_P_IP) (hwf : RxWellFormed frame)
    (hpool : gs.hpool = false)
    (hrule : ∃ rl, ruleLookup gs.toGsRom (ipv4Sig frame.ipProto frame.tcpDport) = .ok (some rl)) :
    ntfeRx verify env gs frame len = .ok (true, gs) := by
  have hexit : ntfeRxExit verify env gs frame len = .ok (.accept, gs) := by
    by_cases ha : HostAuthorized gs frame.ipSaddr
    · exact (ntfeRxExit_of_wellFormed hip hwf).1 ha
    · obtain ⟨rl, hlook⟩ := hrule
      rw [(ntfeRxExit_of_wellFormed hip hwf).2 ha, hlook]
      show rxPolice env gs _ _ _ rl len = _
      unfold rxPolice
      exact if_pos (by simp [hpool])
  rw [ntfeRx, hexit]
  rfl

/-! ## Transmit -/

/-- A frame that `ntfe_tx` looks at. -/
structure TxIpv4 (frame : NetFrame) : Prop where
  ip : frame.ethProto = htons ETH_P_IP
  ihl : frame.ipIhl = IP_IHL_MIN

/-- The signature `ntfe_tx` looks up: the mark of a compiled rule is missing. -/
def txSig (proto : u8) (dport : be16) : FlowSig := FlowSig.mk 0 proto (rulePort proto dport)

/-- Any other frame changes nothing but a counter. -/
theorem ntfeTx_of_not_ipv4 (h : ¬ TxIpv4 frame) (hok : ntfeTx env gs frame = .ok gs') :
    gs'.toGsRom = gs.toGsRom ∧ gs'.host_tbl = gs.host_tbl := by
  unfold ntfeTx at hok
  by_cases hip : frame.ethProto = htons ETH_P_IP
  · have hihl : frame.ipIhl ≠ IP_IHL_MIN := fun hihl => h ⟨hip, hihl⟩
    rw [if_neg (not_not.mpr hip), if_pos hihl] at hok
    cases hok
    exact ⟨rfl, rfl⟩
  · rw [if_pos hip] at hok
    cases hok
    exact ⟨rfl, rfl⟩

/-- **A frame to an address** leaves everything as it is if a rule is found for it or the
address is authorised; otherwise the address is authorised now. -/
theorem ntfeTx_of_ipv4 (h : TxIpv4 frame) (hok : ntfeTx env gs frame = .ok gs') :
    ((∃ rl, ruleLookup gs.toGsRom (txSig frame.ipProto frame.tcpDport) = .ok (some rl))
        ∧ gs' = gs)
    ∨ ((¬ ∃ rl, ruleLookup gs.toGsRom (txSig frame.ipProto frame.tcpDport) = .ok (some rl))
      ∧ ((HostAuthorized gs frame.ipDaddr ∧ gs' = gs)
        ∨ (¬ HostAuthorized gs frame.ipDaddr
          ∧ ∃ r, hostInsertAuthorized env gs (hostFetchBucket frame.ipDaddr) frame.ipDaddr
              HOST_PRI_OUTAUTH = (r, gs')))) := by
  have hauth : (hostLookup (gs.host_tbl (hostFetchBucket frame.ipDaddr)) frame.ipDaddr).any
      (fun k => HOST_PRI_OUTAUTH ≤ ((gs.host_tbl (hostFetchBucket frame.ipDaddr)).ctrl k).pri)
        = true ↔ HostAuthorized gs frame.ipDaddr := by
    simp only [Option.any_eq_true, decide_eq_true_eq, outauth_le_pri, HostAuthorized]
  unfold ntfeTx at hok
  rw [if_neg (not_not.mpr h.ip), if_neg (not_not.mpr h.ihl)] at hok
  simp only [txFlowsig_masked h.ip] at hok
  -- Public traffic returns early; private traffic authorises unless that was done before.
  obtain ⟨rl, hlook, hok⟩ := Except.bind_eq_ok.mp hok
  cases rl with
  | some rl =>
      cases hok
      exact Or.inl ⟨⟨rl, hlook⟩, rfl⟩
  | none =>
      refine Or.inr ⟨?_, ?_⟩
      · rintro ⟨rl, hrl⟩
        rw [txSig, hlook] at hrl
        cases hrl
      · by_cases ha : HostAuthorized gs frame.ipDaddr
        · rw [if_neg (by simp), if_pos (hauth.mpr ha)] at hok
          cases hok
          exact Or.inl ⟨ha, rfl⟩
        · rw [if_neg (by simp), if_neg (fun hc => ha (hauth.mp hc))] at hok
          refine Or.inr ⟨ha, ?_⟩
          rcases hins : hostInsertAuthorized env gs (hostFetchBucket frame.ipDaddr) frame.ipDaddr
            HOST_PRI_OUTAUTH with ⟨r, gs1⟩
          rw [hins] at hok
          cases hok
          exact ⟨r, rfl⟩

/-- `ntfe_tx` returns if the slot it looks up is in the table. -/
theorem ntfeTx_returns (env : Env) (h : TxIpv4 frame)
    (hi : hashFlowsig gs.toGsRom (txSig frame.ipProto frame.tcpDport) < MAX_RULES) :
    ∃ gs', ntfeTx env gs frame = .ok gs' := by
  obtain ⟨rl, hrl⟩ := ruleLookup_returns_iff.mpr hi
  unfold ntfeTx
  rw [if_neg (not_not.mpr h.ip), if_neg (not_not.mpr h.ihl)]
  simp only [txFlowsig_masked h.ip]
  rw [txSig] at hrl
  rw [hrl]
  simp only [bind, Except.bind]
  split
  · exact ⟨_, rfl⟩
  · split <;> exact ⟨_, rfl⟩

end

end Ntfw
