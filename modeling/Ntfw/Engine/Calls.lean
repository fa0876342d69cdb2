import Ntfw.Engine.Configuration
import Ntfw.Engine.DataPath

set_option autoImplicit false

/-! # Runs of the engine

The events of the engine are the calls the driver and the data path make, by any CPU, in any
order. Two rules carry the invariants: no call but `ntfe_configure` writes the policy
(`engineStep_samePolicy`), and a property of buckets that insertions and the sweep preserve
holds of every bucket in every reachable state (`bucket_invariant`). -/

namespace Ntfw

/-- A call of the engine. -/
inductive Call where
  | init (hz : u64) (allocated : Bool)
  | cleanup
  | configure (env : Env) (cfg : NtfeConfig) (cfg_len : u32)
  | prepare (cpu : Fin MAX_CPUS) (hpc : u64)
  | rx (env : Env) (frame : NetFrame) (len : u16)
  | tx (env : Env) (frame : NetFrame)

/-- One call; the answer is what it returns, `true` for the calls that return nothing. -/
def engineStep (verify : Verify) (gs : Gs) : Call → Exec (Bool × Gs)
  | .init hz allocated => .ok (ntfeInit gs hz allocated)
  | .cleanup => .ok (true, ntfeCleanup gs)
  | .configure env cfg cfg_len => ntfeConfigure env gs cfg cfg_len
  | .prepare cpu hpc => .ok (true, ntfeRxPrepare gs cpu hpc)
  | .rx env frame len => ntfeRx verify env gs frame len
  | .tx env frame => ntfeTx env gs frame >>= fun gs => .ok (true, gs)

/-- A state some sequence of calls leads to, from the state the loader leaves. -/
def Reachable (verify : Verify) (gs : Gs) : Prop :=
  Transition.Reaches (engineStep verify) Gs.zero gs

theorem engineStep_tx {verify : Verify} {gs gs' : Gs} {env : Env} {frame : NetFrame} {ok : Bool}
    (h : engineStep verify gs (.tx env frame) = .ok (ok, gs')) : ntfeTx env gs frame = .ok gs' := by
  obtain ⟨gs1, htx, h⟩ := Except.bind_eq_ok.mp h
  cases h
  exact htx

theorem ntfeInit_frame {gs gs' : Gs} {hz : u64} {allocated ok : Bool}
    (h : ntfeInit gs hz allocated = (ok, gs')) :
    SamePolicy gs gs' ∧ gs'.host_tbl = gs.host_tbl := by
  cases allocated <;> cases h <;> exact ⟨⟨rfl, rfl, rfl, rfl, rfl⟩, rfl⟩

/-! ## The policy -/

/-- What a transmitted frame can change. -/
theorem ntfeTx_ok {env : Env} {gs gs' : Gs} {frame : NetFrame} (h : ntfeTx env gs frame = .ok gs') :
    gs'.toGsRom = gs.toGsRom
    ∧ (gs'.host_tbl = gs.host_tbl
      ∨ ∃ r, hostInsertAuthorized env gs (hostFetchBucket frame.ipDaddr) frame.ipDaddr
          HOST_PRI_OUTAUTH = (r, gs')) := by
  by_cases hip : TxIpv4 frame
  · rcases ntfeTx_of_ipv4 hip h with ⟨-, rfl⟩ | ⟨-, ⟨-, rfl⟩ | ⟨-, r, hr⟩⟩
    · exact ⟨rfl, Or.inl rfl⟩
    · exact ⟨rfl, Or.inl rfl⟩
    · exact ⟨(hostInsertAuthorized_ok (by decide) hr).1.rom, Or.inr ⟨r, hr⟩⟩
  · obtain ⟨hrom, htbl⟩ := ntfeTx_of_not_ipv4 hip h
    exact ⟨hrom, Or.inl htbl⟩

/-- **No call but `ntfe_configure` writes the policy.** -/
theorem engineStep_samePolicy {verify : Verify} {gs gs' : Gs} {call : Call} {ok : Bool}
    (hcall : ∀ env cfg cfg_len, call ≠ .configure env cfg cfg_len)
    (h : engineStep verify gs call = .ok (ok, gs')) : SamePolicy gs gs' := by
  cases call with
  | init hz allocated => exact (ntfeInit_frame (Except.ok.inj h)).1
  | cleanup =>
      cases h
      exact ⟨rfl, rfl, rfl, rfl, rfl⟩
  | configure env cfg cfg_len => exact absurd rfl (hcall env cfg cfg_len)
  | prepare cpu hpc =>
      cases h
      exact SamePolicy.of_rom rfl
  | rx env frame len =>
      obtain ⟨e, hexit, -⟩ := ntfeRx_ok h
      exact SamePolicy.of_rom (ntfeRxExit_ok hexit).2.1
  | tx env frame => exact SamePolicy.of_rom (ntfeTx_ok (engineStep_tx h)).1

/-- A call is a configuration, or it leaves the policy as it is. -/
theorem engineStep_cases {verify : Verify} {gs gs' : Gs} {call : Call} {ok : Bool}
    (h : engineStep verify gs call = .ok (ok, gs')) :
    (∃ env cfg cfg_len, call = .configure env cfg cfg_len
      ∧ ntfeConfigure env gs cfg cfg_len = .ok (ok, gs'))
    ∨ ((∀ env cfg cfg_len, call ≠ .configure env cfg cfg_len) ∧ SamePolicy gs gs') := by
  by_cases hcall : ∃ env cfg cfg_len, call = .configure env cfg cfg_len
  · obtain ⟨env, cfg, cfg_len, rfl⟩ := hcall
    exact Or.inl ⟨env, cfg, cfg_len, rfl, h⟩
  · have hne : ∀ env cfg cfg_len, call ≠ .configure env cfg cfg_len :=
      fun env cfg cfg_len hc => hcall ⟨env, cfg, cfg_len, hc⟩
    exact Or.inr ⟨hne, engineStep_samePolicy hne h⟩

/-- None of the calls is `ntfe_configure`. -/
def NoConfigure (calls : List Call) : Prop :=
  ∀ call ∈ calls, ∀ env cfg cfg_len, call ≠ .configure env cfg cfg_len

theorem noConfigure_nil : NoConfigure [] := by simp [NoConfigure]

theorem SamePolicy.trans {gs gs' gs'' : Gs} (h : SamePolicy gs gs') (h' : SamePolicy gs' gs'') :
    SamePolicy gs gs'' :=
  ⟨h'.rules.trans h.rules, h'.rule_seed.trans h.rule_seed, h'.rule_hashsz.trans h.rule_hashsz,
    h'.tbdesc.trans h.tbdesc, h'.pkey.trans h.pkey⟩

/-- The policy stays until the next configuration. -/
theorem run_samePolicy {verify : Verify} {gs gs' : Gs} {calls : List Call}
    (hcalls : NoConfigure calls) (h : Transition.run (engineStep verify) gs calls = .ok gs') :
    SamePolicy gs gs' := by
  induction calls generalizing gs with
  | nil =>
      obtain rfl : gs = gs' := by simpa using h
      exact ⟨rfl, rfl, rfl, rfl, rfl⟩
  | cons call calls ih =>
      obtain ⟨ok, gs1, hstep, hrest⟩ := Transition.run_cons_ok.mp h
      have hcall := hcalls call List.mem_cons_self
      have htail : NoConfigure calls := fun c hc => hcalls c (List.mem_cons_of_mem call hc)
      exact (engineStep_samePolicy hcall hstep).trans (ih htail hrest)

/-- **An applied image governs every later state**, up to the next configuration. -/
theorem run_applies {verify : Verify} {env : Env} {gs₀ gs₁ gs : Gs} {cfg : NtfeConfig}
    {cfg_len : u32} {calls : List Call}
    (hconf : ntfeConfigure env gs₀ cfg cfg_len = .ok (true, gs₁)) (hcalls : NoConfigure calls)
    (hrun : Transition.run (engineStep verify) gs₁ calls = .ok gs) : Applies gs cfg :=
  (run_samePolicy hcalls hrun).sameRules.applies (ntfeConfigure_applies hconf)

/-! ## The image applied last -/

/-- What an observer of the calls and their answers knows of the policy: no image has been
applied, or which one was applied last; or some configuration failed. -/
inductive Applied where
  | nothing
  | image (cfg : NtfeConfig)
  | failed

/-- The observer: it follows the answers of `ntfe_configure`. -/
def watchApplied (m : Applied) (call : Call) (ok : Bool) : Applied :=
  match m, call, ok with
  | .failed, _, _ => .failed
  | _, .configure _ cfg _, true => .image cfg
  | _, .configure _ _ _, false => .failed
  | m, _, _ => m

/-- The engine and its observer agree: while no configuration has failed, the rule table is
the compiled form of the image applied last. -/
def Tracks (gs : Gs) : Applied → Prop
  | .nothing => Compiled gs.toGsRom []
  | .image cfg => Applies gs cfg
  | .failed => True

theorem SamePolicy.tracks {gs gs' : Gs} (h : SamePolicy gs gs') {m : Applied} (ht : Tracks gs m) :
    Tracks gs' m := by
  cases m with
  | nothing => exact h.sameRules.compiled ht
  | image cfg => exact h.sameRules.applies ht
  | failed => trivial

theorem tracks_step {verify : Verify} {sm tn : Gs × Applied} {call : Call} {ok : Bool}
    (ht : Tracks sm.1 sm.2)
    (h : Transition.observe (engineStep verify) watchApplied sm call = .ok (ok, tn)) :
    Tracks tn.1 tn.2 := by
  obtain ⟨hstep, hwatch⟩ := Transition.observe_ok.mp h
  rw [hwatch]
  rcases engineStep_cases hstep with ⟨env, cfg, cfg_len, rfl, hconf⟩ | ⟨hcall, hsame⟩
  · cases ok with
    | true =>
        -- Success replaces whatever was applied before, unless a failure came first.
        have ha : Applies tn.1 cfg := ntfeConfigure_applies hconf
        cases hm : sm.2 with
        | nothing => exact ha
        | image cfg' => exact ha
        | failed => trivial
    | false =>
        cases hm : sm.2 <;> trivial
  · have hkeep : watchApplied sm.2 call ok = sm.2 := by
      cases hm : sm.2 <;> cases call <;> first | rfl | exact absurd rfl (hcall _ _ _)
    rw [hkeep]
    exact hsame.tracks ht

/-- **The rule table is the compiled form of the image applied last**, after every run. -/
theorem run_tracks {verify : Verify} {calls : List Call} {gs : Gs} {m : Applied}
    (hrun : Transition.run (Transition.observe (engineStep verify) watchApplied)
      (Gs.zero, .nothing) calls = .ok (gs, m)) : Tracks gs m := by
  have hzero : Tracks Gs.zero .nothing := ⟨fun _ => Or.inl rfl, fun rl hrl => by cases hrl⟩
  exact Transition.run_invariant (I := fun sm => Tracks sm.1 sm.2)
    (fun _ _ _ _ ht hstep => tracks_step ht hstep) hzero hrun

/-- The key is wiped in every reachable state. -/
theorem Reachable.pkey {verify : Verify} {gs : Gs} (h : Reachable verify gs) :
    gs.pkey = NtfePkey.zero := by
  refine Transition.Reaches.invariant (I := fun gs => gs.pkey = NtfePkey.zero) ?_ h rfl
  intro s call ok t hs hstep
  rcases engineStep_cases hstep with ⟨env, cfg, cfg_len, -, hconf⟩ | ⟨-, hsame⟩
  · exact (ntfeConfigure_pkey hconf).elim (fun hk => hk.trans hs) id
  · exact hsame.pkey.trans hs

/-- Every slot is empty or holds a compiled rule, in every reachable state. -/
theorem Reachable.marked {verify : Verify} {gs : Gs} (h : Reachable verify gs) :
    Marked gs.toGsRom := by
  refine Transition.Reaches.invariant (I := fun gs => Marked gs.toGsRom) ?_ h
    (fun _ => Or.inl rfl)
  intro s call ok t hs hstep
  rcases engineStep_cases hstep with ⟨env, cfg, cfg_len, -, hconf⟩ | ⟨-, hsame⟩
  · exact ntfeConfigure_marked hconf hs
  · intro i
    rw [hsame.rules]
    exact hs i

/-! ## Invariants of the buckets -/

/-- A property of buckets that every insertion the engine makes, and the sweep, preserve: an
unauthorised insertion is never of address 0. -/
structure BucketInvariant (P : HtBucket → Prop) : Prop where
  placed : ∀ {htb htb' : HtBucket} {tsec : u16} {a : be32} {p : Nat} {r : Option Slot},
    a ≠ 0 ∨ p ≠ 0 → Placed htb tsec a p r htb' → P htb → P htb'
  swept : ∀ {htb htb' : HtBucket}, Swept htb htb' → P htb → P htb'

theorem OnlyBucket.forall {P : HtBucket → Prop} {b : Fin HTBL_SIZE} {gs gs' : Gs}
    (h : OnlyBucket b gs gs') (hall : ∀ i, P (gs.host_tbl i)) (hb : P (gs'.host_tbl b)) :
    ∀ i, P (gs'.host_tbl i) := by
  intro i
  by_cases hi : i = b
  · exact hi ▸ hb
  · rw [h.other i hi]
    exact hall i

section

variable {P : HtBucket → Prop}

theorem BucketInvariant.authorized (hP : BucketInvariant P) {env : Env} {gs gs' : Gs} {a : be32}
    {p : u32} {r : Option Slot} (hp : p ≤ 3) (h0 : p ≠ 0)
    (h : hostInsertAuthorized env gs (hostFetchBucket a) a p = (r, gs'))
    (hall : ∀ i, P (gs.host_tbl i)) : ∀ i, P (gs'.host_tbl i) := by
  obtain ⟨hframe, hplaced⟩ := hostInsertAuthorized_ok hp h
  have h0' : p.toNat ≠ 0 := fun hc => h0 (BitVec.eq_of_toNat_eq hc)
  exact hframe.forall hall (hP.placed (Or.inr h0') hplaced (hall _))

theorem BucketInvariant.loadHosts (hP : BucketInvariant P) {env : Env} {gs gs' : Gs}
    {hs : List be32} {ok : Bool} (h : loadHosts env gs hs = (ok, gs'))
    (hall : ∀ i, P (gs.host_tbl i)) : ∀ i, P (gs'.host_tbl i) :=
  loadHosts_invariant (I := fun s => ∀ i, P (s.host_tbl i))
    (fun _ _ _ _ _ hs hr => hP.authorized HOST_PRI_STATIC_le (by decide) hr hs) h hall

theorem BucketInvariant.step (hP : BucketInvariant P) {verify : Verify} {gs gs' : Gs}
    {call : Call} {ok : Bool} (h : engineStep verify gs call = .ok (ok, gs'))
    (hall : ∀ i, P (gs.host_tbl i)) : ∀ i, P (gs'.host_tbl i) := by
  cases call with
  | init hz allocated =>
      rw [(ntfeInit_frame (Except.ok.inj h)).2]
      exact hall
  | cleanup =>
      cases h
      exact hall
  | configure env cfg cfg_len =>
      rcases ntfeConfigure_ok h with ⟨-, -, rfl⟩ | ⟨-, gs0, loaded, gs1, hw, hload, hcase⟩
      · exact hall
      · -- The sweep touches every bucket, the rule and meter loops none, the host loop some.
        have hall0 : ∀ i, P (gs0.host_tbl i) := fun i => hP.swept (hw.swept i) (hall i)
        have hall1 : ∀ i, P (gs1.host_tbl i) := by
          obtain ⟨rules, rfl⟩ := (loadRules_ok hload).1.frame
          exact hall0
        rcases hcase with ⟨-, -, rfl⟩ | ⟨-, gs2, hmet, hhosts⟩
        · exact hall1
        · obtain ⟨tbdesc, rfl⟩ := loadMeters_ok hmet
          exact hP.loadHosts hhosts hall1
  | prepare cpu hpc =>
      cases h
      exact hall
  | rx env frame len =>
      obtain ⟨e, hexit, -⟩ := ntfeRx_ok h
      rcases (ntfeRxExit_ok hexit).2.2 with htbl | ⟨hne, r, gs1, hins, htbl⟩
      · rw [htbl]
        exact hall
      · rw [htbl]
        -- The insertion may be deferred, by a lock another CPU holds.
        obtain ⟨hframe, ⟨-, -, hb⟩ | ⟨-, hplaced⟩⟩ := hostInsert_spec hins
        · exact hframe.forall hall (hb ▸ hall _)
        · exact hframe.forall hall (hP.placed (Or.inl hne) hplaced (hall _))
  | tx env frame =>
      rcases (ntfeTx_ok (engineStep_tx h)).2 with htbl | ⟨r, hr⟩
      · rw [htbl]
        exact hall
      · exact hP.authorized (by decide) (by decide) hr hall

/-- **The rule for bucket invariants**: they hold of every bucket in every reachable state. -/
theorem bucket_invariant (hP : BucketInvariant P) (hzero : P HtBucket.zero) {verify : Verify}
    {gs : Gs} (h : Reachable verify gs) : ∀ i, P (gs.host_tbl i) :=
  Transition.Reaches.invariant (I := fun gs => ∀ i, P (gs.host_tbl i))
    (fun _ _ _ _ hall hstep => hP.step hstep hall) h (fun _ => hzero)

end

/-! ## A sample image and frames -/

/-- An image without meters or hosts: the first byte of its key, and IPv4 rules by protocol
and port. -/
def sampleImage (key : byte) (rls : List (byte × byte)) : NtfeConfig :=
  let length : byte := BitVec.ofNat 8 (SZ_NTFE_CONFIG + rls.length * SZ_NTFE_RULE)
  Mem.ofBytes ([0, 0, 0, 0, 1, 0, length, 0] ++ List.replicate 8 0
    ++ [key] ++ List.replicate 67 0
    ++ [7, 0, 0, 0, BitVec.ofNat 8 rls.length, 0, 0, 0] ++ List.replicate 8 0
    ++ rls.flatMap fun rl =>
      [0x00, 0x08, rl.2, 0] ++ List.replicate 6 0 ++ [rl.1] ++ List.replicate 15 0)

/-- The sample image with the rule for TCP port 80. -/
def httpImage : NtfeConfig := sampleImage 1 [(IP_P_TCP, 80)]

/-- An IPv4 frame: protocol, source and destination with their ports. -/
def sampleFrame (proto : byte) (src : List byte) (sport : be16) (dst : List byte) (dport : be16) :
    NetFrame :=
  let header : List byte := [0x08, 0x00, 0x45, 0, 0, 40, 0, 0, 0, 0, 64, proto, 0, 0]
  let ports : List byte := [sport.setWidth 8, (sport >>> 8).setWidth 8, dport.setWidth 8,
    (dport >>> 8).setWidth 8]
  Mem.ofBytes (List.replicate 12 0 ++ header ++ src ++ dst ++ ports)

/-- A frame to TCP port 80. -/
def httpFrame : NetFrame :=
  sampleFrame IP_P_TCP [10, 0, 0, 1] (htons 5000) [10, 0, 0, 2] (htons 80)

/-- A CPU that meets no contention, at time 0. -/
def quietEnv : Env := ⟨0, false, 0⟩

/-- The sample image can be applied to the state the loader leaves. -/
theorem httpImage_applied : ∃ gs, ntfeConfigure quietEnv Gs.zero httpImage 126 = .ok (true, gs)
    ∧ Applies gs httpImage ∧ (∀ i, Swept HtBucket.zero (gs.host_tbl i)) ∧ gs.hpool = false := by
  refine ntfeConfigure_without_hosts quietEnv ?_ (by decide +kernel) (by decide +kernel)
  refine (ntfeValidateConfiguration_eq_true _ _ _).mpr ⟨?_, ?_, ?_⟩ <;> decide +kernel

end Ntfw
