import Ntfw.Engine.Directions

set_option autoImplicit false

/-! # Conversations with a public service

A host that only uses public services should stay unauthorised. What decides about that is the
transmit path: a frame to the host for which it finds no rule authorises the host. The lookup
of `ntfe_tx` finds no rule, so that one reply is enough, unless the host's bucket has no room
for it. -/

namespace Ntfw

/-! ## Traffic -/

/-- The calls of the data path. -/
inductive Traffic where
  | prepare (cpu : Fin MAX_CPUS) (hpc : u64)
  | rx (env : Env) (frame : NetFrame) (len : u16)
  | tx (env : Env) (frame : NetFrame)

def Traffic.call : Traffic → Call
  | .prepare cpu hpc => .prepare cpu hpc
  | .rx env frame len => .rx env frame len
  | .tx env frame => .tx env frame

def trafficStep (verify : Verify) (gs : Gs) (t : Traffic) : Exec (Bool × Gs) :=
  engineStep verify gs t.call

/-- The host's entry, if it has one, is not authorised. -/
def Unauthorized (gs : Gs) (host : be32) : Prop :=
  ∀ k, (gs.host_tbl (hostFetchBucket host)).saddr k = host →
    (gs.host_tbl (hostFetchBucket host)).pri k = 0

/-- The host's bucket does not hold it and has no slot for it. -/
def NoRoom (htb : HtBucket) (host : be32) : Prop :=
  (∀ k, htb.saddr k ≠ host)
    ∧ if htb.exhausted then ∀ k, htb.pri k ≠ 0 else ∀ k, htb.saddr k ≠ 0

theorem noRoom_iff (htb : HtBucket) (host : be32) (tsec : u16) :
    NoRoom htb host ↔ probeBucket htb host = none ∧ allocSlot htb tsec = none := by
  unfold NoRoom
  rw [probeBucket_eq_none]
  refine and_congr_right fun _ => ?_
  cases he : htb.exhausted with
  | true =>
      rw [if_pos rfl]
      exact (allocSlot_eq_none_of_exhausted he tsec).symm
  | false =>
      rw [if_neg (by simp), allocSlot_of_not_exhausted he, probeBucket_eq_none]

/-! ## What an insertion does to a host's entry -/

/-- An insertion of another host, or of the host itself as unauthorised, leaves it so. -/
theorem Placed.unauthorized {htb htb' : HtBucket} {tsec : u16} {a host : be32} {p : Nat}
    {r : Option Slot} (h : Placed htb tsec a p r htb') (hap : a ≠ host ∨ p = 0)
    (hun : ∀ k, htb.saddr k = host → htb.pri k = 0) :
    ∀ k, htb'.saddr k = host → htb'.pri k = 0 := by
  intro j hj
  cases h with
  | @found _ k hk hs hp he =>
      rw [hs] at hj
      rw [hp]
      by_cases hjk : j = k
      · -- The entry found is the host's, so the insertion is of the host and raises nothing.
        subst hjk
        have ha : a = host := (probeBucket_isFirst hk).1.symm.trans hj
        rw [if_pos rfl, hun j hj, hap.resolve_left (not_not.mpr ha), Nat.max_self]
      · rw [if_neg hjk]
        exact hun j hj
  | full hk ha hsame =>
      rw [hsame.saddr] at hj
      rw [hsame.pri]
      exact hun j hj
  | @entered _ k hk ha hs hp he =>
      rw [hs] at hj
      rw [hp]
      by_cases hjk : j = k
      · subst hjk
        rw [Function.update_self] at hj
        rw [if_pos rfl, hap.resolve_left (not_not.mpr hj)]
      · rw [Function.update_of_ne hjk] at hj
        rw [if_neg hjk]
        exact hun j hj

/-- An authorised insertion of the host leaves it unauthorised only for want of room. -/
theorem Placed.unauthorized_iff {htb htb' : HtBucket} {tsec : u16} {host : be32} {p : Nat}
    {r : Option Slot} (h : Placed htb tsec host p r htb') (hp0 : p ≠ 0)
    (hun : ∀ k, htb.saddr k = host → htb.pri k = 0) :
    (∀ k, htb'.saddr k = host → htb'.pri k = 0) ↔ NoRoom htb host := by
  cases h with
  | @found _ k hk hs hp he =>
      have hkh : htb.saddr k = host := (probeBucket_isFirst hk).1
      -- The entry is raised, and a bucket that holds the host does not meet the condition.
      refine iff_of_false (fun hall => ?_) fun hno => hno.1 k hkh
      have hk0 := hall k (by rw [hs]; exact hkh)
      rw [hp, if_pos rfl] at hk0
      omega
  | full hk ha hsame =>
      refine iff_of_true ?_ ((noRoom_iff htb host tsec).mpr ⟨hk, ha⟩)
      intro k
      rw [hsame.saddr, hsame.pri]
      exact hun k
  | @entered _ k hk ha hs hp he =>
      refine iff_of_false (fun hall => ?_) fun hno => ?_
      · have hk0 := hall k (by rw [hs, Function.update_self])
        rw [hp, if_pos rfl] at hk0
        exact hp0 hk0
      · rw [((noRoom_iff htb host tsec).mp hno).2] at ha
        cases ha

/-! ## The property and its condition -/

/-- The host is treated as public: its entry is not authorised, and so a frame from it that no
rule is for is not accepted. -/
structure TreatedAsPublic (verify : Verify) (host : be32) (gs : Gs) : Prop where
  entry : Unauthorized gs host
  denied : ∀ (env : Env) (frame : NetFrame) (len : u16) (gs' : Gs),
    frame.ethProto = htons ETH_P_IP → frame.ipSaddr = host →
    ¬ Finds gs.toGsRom (ipv4Sig frame.ipProto frame.tcpDport) →
    ntfeRx verify env gs frame len ≠ .ok (true, gs')

theorem treatedAsPublic_iff {verify : Verify} {host : be32} {gs : Gs} :
    TreatedAsPublic verify host gs ↔ Unauthorized gs host := by
  refine ⟨fun h => h.entry, fun h => ⟨h, ?_⟩⟩
  rintro env frame len gs' hip rfl hno hrx
  rcases (ntfeRxExit_accept hip (ntfeRx_true hrx)).2 with ⟨k, hk, hpri⟩ | hfinds
  · exact hpri (h k (probeBucket_isFirst hk).1)
  · exact hno hfinds

/-- The condition, of a step: a frame to the host is one of protocol 0 while the slot of the
zero signature is empty, or the host's bucket has no room for it. -/
def StepKeepsPublic (host : be32) (gs : Gs) : Traffic → Prop
  | .tx _ frame => TxIpv4 frame → frame.ipDaddr = host →
      (frame.ipProto = 0 ∧ SlotFree gs.toGsRom (hashFlowsig gs.toGsRom 0))
        ∨ NoRoom (gs.host_tbl (hostFetchBucket host)) host
  | _ => True

theorem unauthorized_congr {gs gs' : Gs} {host : be32} (h : gs'.host_tbl = gs.host_tbl) :
    Unauthorized gs' host ↔ Unauthorized gs host := by
  rw [Unauthorized, Unauthorized, h]

theorem OnlyBucket.unauthorized {gs gs' : Gs} {a host : be32}
    (h : OnlyBucket (hostFetchBucket a) gs gs') (hun : Unauthorized gs host)
    (hb : (∀ k, (gs.host_tbl (hostFetchBucket a)).saddr k = host →
        (gs.host_tbl (hostFetchBucket a)).pri k = 0) →
      ∀ k, (gs'.host_tbl (hostFetchBucket a)).saddr k = host →
        (gs'.host_tbl (hostFetchBucket a)).pri k = 0) : Unauthorized gs' host := by
  by_cases hi : hostFetchBucket host = hostFetchBucket a
  · unfold Unauthorized at hun ⊢
    rw [hi] at hun ⊢
    exact hb hun
  · unfold Unauthorized
    rw [h.other _ hi]
    exact hun

/-- A received frame authorises nobody. -/
theorem ntfeRx_unauthorized {verify : Verify} {env : Env} {gs gs' : Gs} {frame : NetFrame}
    {len : u16} {ok : Bool} {host : be32} (h : ntfeRx verify env gs frame len = .ok (ok, gs'))
    (hun : Unauthorized gs host) : Unauthorized gs' host := by
  obtain ⟨e, hexit, -⟩ := ntfeRx_ok h
  rcases (ntfeRxExit_ok hexit).2.2 with htbl | ⟨-, r, gs1, hins, htbl⟩
  · exact (unauthorized_congr htbl).mpr hun
  · rw [unauthorized_congr htbl]
    obtain ⟨hframe, hcase⟩ := hostInsert_spec hins
    refine hframe.unauthorized hun fun hb => ?_
    rcases hcase with ⟨-, -, hsame⟩ | ⟨-, hplaced⟩
    · rw [hsame]
      exact hb
    · exact hplaced.unauthorized (Or.inr rfl) hb

/-- **A step keeps the host unauthorised exactly when it meets the condition.** -/
theorem unauthorized_step {verify : Verify} {gs gs' : Gs} {t : Traffic} {ok : Bool} {host : be32}
    (hm : Marked gs.toGsRom) (hun : Unauthorized gs host)
    (h : trafficStep verify gs t = .ok (ok, gs')) :
    Unauthorized gs' host ↔ StepKeepsPublic host gs t := by
  cases t with
  | prepare cpu hpc =>
      cases h
      exact iff_of_true hun trivial
  | rx env frame len => exact iff_of_true (ntfeRx_unauthorized h hun) trivial
  | tx env frame =>
      have htx := engineStep_tx h
      by_cases hip : TxIpv4 frame
      · have hfinds := hm.txFinds_iff frame.ipProto frame.tcpDport
        rcases ntfeTx_of_ipv4 hip htx with ⟨hrule, rfl⟩ | ⟨hrule, ⟨⟨k, hk, hpri⟩, rfl⟩ | ⟨-, r, hr⟩⟩
        · exact iff_of_true hun fun _ _ => Or.inl (hfinds.mp hrule)
        · -- The destination is authorised, so it is not the host.
          refine iff_of_true hun ?_
          rintro - rfl
          exact absurd (hun k (probeBucket_isFirst hk).1) hpri
        · obtain ⟨hframe, hplaced⟩ := hostInsertAuthorized_ok (by decide) hr
          by_cases hd : frame.ipDaddr = host
          · -- The insertion is of the host itself: it stays public only for want of room.
            subst hd
            have hiff := hplaced.unauthorized_iff (by decide) hun
            refine Iff.trans hiff ⟨fun hno _ _ => Or.inr hno, fun hstep => ?_⟩
            exact (hstep hip rfl).resolve_left fun hc => hrule (hfinds.mpr hc)
          · refine iff_of_true ?_ fun _ hc => absurd hc hd
            exact hframe.unauthorized hun fun hb => hplaced.unauthorized (Or.inl hd) hb
      · refine iff_of_true ?_ fun hc => absurd hc hip
        exact (unauthorized_congr (ntfeTx_of_not_ipv4 hip htx).2).mpr hun

/-- **A host stays public all along a run of traffic exactly when every frame sent to it meets
the condition.** -/
theorem public_iff_keepsPublic {verify : Verify} {gs₀ gs : Gs} {host : be32} {ts : List Traffic}
    (hreach : Reachable verify gs₀) (hstart : Unauthorized gs₀ host)
    (hrun : Transition.run (trafficStep verify) gs₀ ts = .ok gs) :
    Transition.Always (trafficStep verify) (TreatedAsPublic verify host) gs₀ ts
      ↔ Transition.Meets (trafficStep verify) (StepKeepsPublic host) gs₀ ts := by
  refine Transition.always_iff_meets (I := Reachable verify) ?_ ?_ hreach
    (treatedAsPublic_iff.mpr hstart) hrun
  · intro gs t ok gs' hr hstep
    exact hr.snoc hstep
  · intro gs t ok gs' hr hpub hstep
    rw [treatedAsPublic_iff]
    exact unauthorized_step hr.marked hpub.entry hstep

/-! ## The start of a conversation -/

theorem Swept.unauthorized {htb htb' : HtBucket} {host : be32} (h : Swept htb htb') (h0 : host ≠ 0)
    (hun : ∀ k, htb.saddr k = host → htb.pri k = 0) :
    ∀ k, htb'.saddr k = host → htb'.pri k = 0 := by
  intro k hk
  rw [h.saddr] at hk
  rw [h.pri]
  split at hk
  · exact absurd hk.symm h0
  · exact hun k hk

theorem loadHosts_unauthorized {env : Env} {gs gs' : Gs} {hs : List be32} {ok : Bool} {host : be32}
    (hhost : host ∉ hs) (h : loadHosts env gs hs = (ok, gs')) (hun : Unauthorized gs host) :
    Unauthorized gs' host := by
  refine loadHosts_invariant (I := fun s => Unauthorized s host) ?_ h hun
  intro s s' a r ha hs hr
  obtain ⟨hframe, hplaced⟩ := hostInsertAuthorized_ok HOST_PRI_STATIC_le hr
  have hne : a ≠ host := fun hc => hhost (hc ▸ ha)
  exact hframe.unauthorized hs fun hb => hplaced.unauthorized (Or.inl hne) hb

/-- A configuration authorises no host that it does not name. -/
theorem ntfeConfigure_unauthorized {env : Env} {gs gs' : Gs} {cfg : NtfeConfig} {cfg_len : u32}
    {ok : Bool} {host : be32} (h : ntfeConfigure env gs cfg cfg_len = .ok (ok, gs'))
    (h0 : host ≠ 0) (hhost : host ∉ cfg.hosts) (hun : Unauthorized gs host) :
    Unauthorized gs' host := by
  rcases ntfeConfigure_ok h with ⟨-, -, rfl⟩ | ⟨-, gs0, loaded, gs1, hw, hload, hcase⟩
  · exact hun
  · have hun1 : Unauthorized gs1 host := by
      obtain ⟨rules, rfl⟩ := (loadRules_ok hload).1.frame
      exact (hw.swept _).unauthorized h0 hun
    rcases hcase with ⟨-, -, rfl⟩ | ⟨-, gs2, hmet, hhosts⟩
    · exact hun1
    · obtain ⟨tbdesc, rfl⟩ := loadMeters_ok hmet
      exact loadHosts_unauthorized hhost hhosts hun1

/-! ## One reply -/

/-- The frame answers the request: same protocol, addresses and ports swapped. -/
structure IsReply (req frame : NetFrame) : Prop where
  proto : frame.ipProto = req.ipProto
  saddr : frame.ipSaddr = req.ipDaddr
  daddr : frame.ipDaddr = req.ipSaddr
  sport : frame.tcpSport = req.tcpDport
  dport : frame.tcpDport = req.tcpSport

/-- All the traffic with the host is requests that the image has a rule for, and replies. -/
structure Conversation (cfg : NtfeConfig) (host : be32) (ts : List Traffic) : Prop where
  received : ∀ env frame len, Traffic.rx env frame len ∈ ts → frame.ethProto = htons ETH_P_IP →
    frame.ipSaddr = host → HasRule cfg frame.ipProto frame.tcpDport
  sent : ∀ pre env frame post, ts = pre ++ Traffic.tx env frame :: post →
    frame.ethProto = htons ETH_P_IP → frame.ipDaddr = host →
    ∃ env' req len, Traffic.rx env' req len ∈ pre ∧ req.ethProto = htons ETH_P_IP
      ∧ req.ipSaddr = host ∧ IsReply req frame

/-- The reply to the frame to TCP port 80. -/
def httpReply : NetFrame :=
  sampleFrame IP_P_TCP [10, 0, 0, 2] (htons 80) [10, 0, 0, 1] (htons 5000)

theorem httpReply_tx : TxIpv4 httpReply := by
  refine ⟨?_, ?_⟩ <;> decide

theorem httpReply_isReply : IsReply httpFrame httpReply := by
  refine ⟨?_, ?_, ?_, ?_, ?_⟩ <;> decide

/-- A request and its reply. -/
def httpExchange : List Traffic := [.rx quietEnv httpFrame 64, .tx quietEnv httpReply]

theorem httpExchange_conversation : Conversation httpImage httpFrame.ipSaddr httpExchange := by
  refine ⟨?_, ?_⟩
  · intro env frame len hmem _ _
    obtain rfl : frame = httpFrame := by
      simp only [httpExchange, List.mem_cons, Traffic.rx.injEq, reduceCtorEq, List.not_mem_nil,
        or_false] at hmem
      exact hmem.2.1
    exact httpFrame_hasRule
  · intro pre env frame post hts _ _
    rcases pre with _ | ⟨t, _ | ⟨t', pre⟩⟩
    · cases hts
    · obtain ⟨rfl, hrest⟩ := List.cons.inj hts
      obtain ⟨htx, -⟩ := List.cons.inj hrest
      obtain ⟨-, rfl⟩ := Traffic.tx.inj htx
      exact ⟨quietEnv, httpFrame, 64, List.mem_singleton_self _, httpFrame_ipv4, rfl,
        httpReply_isReply⟩
    · have hlen := congrArg List.length hts
      simp [httpExchange] at hlen

/-- The exchange can take place. -/
theorem httpExchange_run (verify : Verify) {gs : Gs} (happ : Applies gs httpImage)
    (hpool : gs.hpool = false) :
    ∃ gs', Transition.run (trafficStep verify) gs httpExchange = .ok gs'
      ∧ trafficStep verify gs (.tx quietEnv httpReply) = .ok (true, gs') := by
  have hrx : trafficStep verify gs (.rx quietEnv httpFrame 64) = .ok (true, gs) :=
    ntfeRx_of_rule httpFrame_ipv4 httpFrame_wellFormed hpool
      ((happ.rxFinds_iff _ _).mpr httpFrame_hasRule)
  have hslot : hashFlowsig gs.toGsRom (txSig httpReply.ipProto httpReply.tcpDport) < MAX_RULES := by
    rw [hashFlowsig, happ.rule_seed, happ.rule_hashsz]
    decide
  obtain ⟨gs', htx⟩ := ntfeTx_returns quietEnv httpReply_tx hslot
  have hstep : trafficStep verify gs (.tx quietEnv httpReply) = .ok (true, gs') := by
    show ntfeTx quietEnv gs httpReply >>= _ = _
    rw [htx]
    rfl
  exact ⟨gs', Transition.run_cons_ok.mpr ⟨true, gs, hrx,
    Transition.run_cons_ok.mpr ⟨true, gs', hstep, rfl⟩⟩, hstep⟩

theorem unauthorized_zero {host : be32} (h0 : host ≠ 0) : Unauthorized Gs.zero host :=
  fun _ hk => absurd hk.symm h0

/-- The condition for the exchange under the sample image. -/
theorem public_iff_keepsPublic_http :
    ∃ gs, ntfeConfigure quietEnv Gs.zero httpImage 126 = .ok (true, gs)
      ∧ (Transition.Always (trafficStep fun _ _ _ => false)
          (TreatedAsPublic (fun _ _ _ => false) httpFrame.ipSaddr) gs httpExchange
        ↔ Transition.Meets (trafficStep fun _ _ _ => false)
          (StepKeepsPublic httpFrame.ipSaddr) gs httpExchange) := by
  obtain ⟨gs, hconf, happ, -, hpool⟩ := httpImage_applied
  obtain ⟨gs', hrun, -⟩ := httpExchange_run (fun _ _ _ => false) happ hpool
  have hreach : Reachable (fun _ _ _ => false) gs :=
    (Transition.reaches_refl Gs.zero).snoc (e := .configure quietEnv httpImage 126) hconf
  have hstart : Unauthorized gs httpFrame.ipSaddr :=
    ntfeConfigure_unauthorized hconf (by decide +kernel) (by decide +kernel)
      (unauthorized_zero (by decide +kernel))
  exact ⟨gs, hconf, public_iff_keepsPublic hreach hstart hrun⟩

/-- Public traffic can authorise: the reply to a request for TCP port 80 does. -/
theorem public_reply_authorises :
    ¬ ∀ (verify : Verify) (env : Env) (gs₀ gs gs' : Gs) (cfg : NtfeConfig) (cfg_len : u32)
      (host : be32) (ts : List Traffic), Reachable verify gs₀ → Unauthorized gs₀ host →
      ntfeConfigure env gs₀ cfg cfg_len = .ok (true, gs) → host ≠ 0 → host ∉ cfg.hosts →
      (∀ env frame len, Traffic.rx env frame len ∈ ts →
        ntfpRxCheck verify gs.pkey env.time frame len ≠ some host) →
      Conversation cfg host ts → Transition.run (trafficStep verify) gs ts = .ok gs' →
      Unauthorized gs' host := by
  intro hall
  obtain ⟨gs, hconf, happ, hswept, hpool⟩ := httpImage_applied
  obtain ⟨gs', hrun, hstep⟩ := httpExchange_run (fun _ _ _ => false) happ hpool
  have h0 : httpFrame.ipSaddr ≠ 0 := by decide +kernel
  have hhost : httpFrame.ipSaddr ∉ httpImage.hosts := by decide +kernel
  have hauth : ∀ env frame len, Traffic.rx env frame len ∈ httpExchange →
      ntfpRxCheck (fun _ _ _ => false) gs.pkey env.time frame len ≠ some httpFrame.ipSaddr := by
    intro env frame len hmem
    obtain rfl : frame = httpFrame := by
      simp only [httpExchange, List.mem_cons, Traffic.rx.injEq, reduceCtorEq, List.not_mem_nil,
        or_false] at hmem
      exact hmem.2.1
    simp only [ntfpRxCheck, Bool.not_false, if_true]
    repeat' split
    all_goals simp
  have hun := hall (fun _ _ _ => false) quietEnv Gs.zero gs gs' httpImage 126 httpFrame.ipSaddr
    httpExchange (Transition.reaches_refl _) (unauthorized_zero h0) hconf h0 hhost hauth
    httpExchange_conversation hrun
  have hstart := ntfeConfigure_unauthorized hconf h0 hhost (unauthorized_zero h0)
  have hkeeps := (unauthorized_step happ.compiled.marked hstart hstep).mp hun httpReply_tx
    (by decide +kernel)
  rcases hkeeps with ⟨hproto, -⟩ | ⟨-, hfull⟩
  · exact absurd hproto (by decide +kernel)
  · have hs := hswept (hostFetchBucket httpFrame.ipSaddr)
    rw [hs.exhausted, HtBucket.zero_exhausted, Bool.false_and, if_neg (by simp)] at hfull
    apply hfull 0
    rw [hs.saddr, HtBucket.zero_pri]
    rfl

end Ntfw
