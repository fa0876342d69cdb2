import Ntfw.Engine.Charging
import Ntfw.Ntfe.Charge

set_option autoImplicit false

/-! # Charging under interleaving

Each bucket of a host is read and written three times in a charge, by any CPU at any time. The
lock makes the charges of all of them a sequence, and so the conformance bound of one bucket the
bound on what every CPU together lets pass. -/

namespace Ntfw.Charge

open SpinLock Transition TokenBucket

/-! ## Host states as memory -/

@[simp] theorem state_words (host : HostState) : state (words host) = host := rfl

@[simp] theorem words_state (m : Memory HostWord u32) : words (state m) = m := by
  funext l
  cases l with
  | tokens i => rfl
  | last i => rfl
  | lock => rfl

@[simp] theorem words_tokens (host : HostState) (i : Fin MAX_METERS) :
    words host (.tokens i) = (host.tb i).tokens := rfl

@[simp] theorem words_last (host : HostState) (i : Fin MAX_METERS) :
    words host (.last i) = (host.tb i).last := rfl

@[simp] theorem words_lock (host : HostState) : words host .lock = host.lock := rfl

/-- The host state with another bucket. -/
def withBucket (host : HostState) (i : Fin MAX_METERS) (tb : TBucket) : HostState :=
  { host with tb := Function.update host.tb i tb }

@[simp] theorem withBucket_self (host : HostState) (i : Fin MAX_METERS) (tb : TBucket) :
    (withBucket host i tb).tb i = tb := Function.update_self _ _ _

@[simp] theorem withBucket_withBucket (host : HostState) (i : Fin MAX_METERS) (tb tb' : TBucket) :
    withBucket (withBucket host i tb) i tb' = withBucket host i tb' :=
  congrArg (HostState.mk · host.lock) (Function.update_idem _ _ _)

@[simp] theorem update_tokens (host : HostState) (i : Fin MAX_METERS) (w : u32) :
    Function.update (words host) (.tokens i) w
      = words (withBucket host i ⟨w, (host.tb i).last⟩) := by
  funext l
  cases l with
  | tokens j =>
      by_cases hj : j = i
      · simp [hj]
      · simp [withBucket, hj]
  | last j =>
      by_cases hj : j = i
      · simp [hj]
      · simp [withBucket, hj]
  | lock => simp [withBucket]

@[simp] theorem update_last (host : HostState) (i : Fin MAX_METERS) (w : u32) :
    Function.update (words host) (.last i) w
      = words (withBucket host i ⟨(host.tb i).tokens, w⟩) := by
  funext l
  cases l with
  | tokens j =>
      by_cases hj : j = i
      · simp [hj]
      · simp [withBucket, hj]
  | last j =>
      by_cases hj : j = i
      · simp [hj]
      · simp [withBucket, hj]
  | lock => simp [withBucket]

theorem update_lock (host : HostState) (w : u32) :
    Function.update (words host) .lock w = words { host with lock := w } := by
  funext l
  cases l with
  | tokens j => simp
  | last j => simp
  | lock => simp

/-! ## The accesses of a section -/

/-- **`token_bucket_charge`** by its accesses. -/
theorem run_tokenBucketCharge (host : HostState) (i : Fin MAX_METERS) (tbd : TBucketDesc)
    (tmsec cost : u32) :
    (tokenBucketCharge i tbd tmsec cost).run (words host)
      = ((Ntfw.tokenBucketCharge (host.tb i) tbd tmsec cost).2,
        words (withBucket host i (Ntfw.tokenBucketCharge (host.tb i) tbd tmsec cost).1)) := by
  show Prog.run (if tmsec - (host.tb i).last ≠ 0 then _ else _) (words host) = _
  by_cases hdt : tmsec - (host.tb i).last = 0
  · rw [if_neg (not_not.mpr hdt)]
    simp only [Prog.run_bind, Prog.run_modify, Prog.run_fetch, Prog.run_pure, update_tokens,
      words_tokens, withBucket_self, Ntfw.tokenBucketCharge, if_neg (not_not.mpr hdt)]
  · rw [if_pos hdt]
    simp only [Prog.run_bind, Prog.run_modify, Prog.run_put, Prog.run_fetch, Prog.run_pure,
      update_tokens, update_last, words_tokens, words_last, withBucket_self,
      withBucket_withBucket, Ntfw.tokenBucketCharge, if_pos hdt]
    rfl

theorem run_chargeMeter (gs : GsRom) (host : HostState) (i : Fin MAX_METERS) (tmsec cost : u32) :
    (chargeMeter gs i tmsec cost).run (words host)
      = (if decide (cost = 0) || meterConforms gs host i tmsec cost then 1 else 0,
        words (meterCharged gs host i tmsec cost)) := by
  rw [chargeMeter, meterCharged]
  by_cases hc : cost = 0
  · rw [if_neg (not_not.mpr hc), if_pos hc]
    simp [hc]
  · rw [if_pos hc, if_neg hc, Prog.run_bind, run_tokenBucketCharge]
    rw [decide_eq_false hc, Bool.false_or]
    rfl

theorem spares_tokenBucketCharge (i : Fin MAX_METERS) (tbd : TBucketDesc) (tmsec cost : u32) :
    (tokenBucketCharge i tbd tmsec cost).Spares .lock := by
  have hcost : (Prog.modify (.tokens i) (satsub32 · cost) >>= fun _ =>
      Prog.fetch (.tokens i) >>= fun tokens => pure (decide (tbd.level < tokens))
      : HostProg Bool).Spares .lock := fun w => ⟨by simp, fun w' => trivial⟩
  intro last
  show Prog.Spares _ (if tmsec - last ≠ 0 then _ else _)
  split
  · exact fun w => ⟨by simp, by simp, hcost⟩
  · exact hcost

theorem spares_chargeMeter (gs : GsRom) (i : Fin MAX_METERS) (tmsec cost : u32) :
    (chargeMeter gs i tmsec cost).Spares .lock := by
  rw [chargeMeter]
  split
  · exact (spares_tokenBucketCharge _ _ _ _).bind fun _ => trivial
  · trivial

/-! ## The calls of the CPUs -/

/-- Charges, as clients of the host lock. -/
def client (gs : GsRom) : Client hostLock Packet Packet u8 fun _ _ _ => True where
  look := look
  loads _ := trivial
  body := body gs
  keeps o m _ := by
    have hspares : (body gs o).Spares .lock :=
      (spares_chargeMeter _ _ _ _).bind fun _ => (spares_chargeMeter _ _ _ _).bind fun _ => trivial
    exact (hspares.always (L := hostLock) (hostLock.taken_acquire m)).imp fun _ h => ⟨h, trivial⟩

theorem meterCharged_lock (gs : GsRom) (host : HostState) (w : u32) (i : Fin MAX_METERS)
    (tmsec cost : u32) : meterCharged gs { host with lock := w } i tmsec cost
      = { meterCharged gs host i tmsec cost with lock := w } := by
  unfold meterCharged
  split <;> rfl

theorem meterCharged_lock_eq (gs : GsRom) (host : HostState) (i : Fin MAX_METERS)
    (tmsec cost : u32) : (meterCharged gs host i tmsec cost).lock = host.lock := by
  unfold meterCharged
  split <;> rfl

/-- The byte and the packet meter, each as its charge finds it. -/
def verdict (gs : GsRom) (host : HostState) (o : Packet) : u8 :=
  2 - (if decide (byteCost o.rl o.in_bytes = 0)
      || meterConforms gs host o.byteMeter o.tmsec (byteCost o.rl o.in_bytes) then 1 else 0)
    - (if decide (packetCost o.rl = 0)
      || meterConforms gs (meterCharged gs host o.byteMeter o.tmsec (byteCost o.rl o.in_bytes))
        o.packetMeter o.tmsec (packetCost o.rl) then 1 else 0)

/-- The host after the charge of a packet. -/
def charged (gs : GsRom) (host : HostState) (o : Packet) : HostState :=
  packetCharged gs host o.rl o.tmsec o.in_bytes o.byteMeter o.packetMeter

theorem hostChargePacket_verdict (gs : GsRom) (host : HostState) (o : Packet) :
    hostChargePacket gs host o.rl o.tmsec o.in_bytes
      = .ok (charged gs host o, verdict gs host o) := by
  have hcall : hostChargePacket gs host o.rl o.tmsec o.in_bytes
      = Ntfw.chargeMeter gs host o.rl.in_byte_tb o.tmsec (byteCost o.rl o.in_bytes) >>= fun r =>
        Ntfw.chargeMeter gs r.1 o.rl.in_packet_tb o.tmsec (packetCost o.rl) >>= fun r' =>
        .ok ({ r'.1 with lock := r'.1.lock &&& ~~~1 },
          2 - (if r.2 then 1 else 0) - (if r'.2 then 1 else 0)) := rfl
  have hbyte : o.rl.in_byte_tb.toNat = o.byteMeter.val := rfl
  have hpacket : o.rl.in_packet_tb.toNat = o.packetMeter.val := rfl
  rw [hcall, chargeMeter_eq gs host hbyte]
  show Ntfw.chargeMeter gs _ o.rl.in_packet_tb o.tmsec (packetCost o.rl) >>= _ = _
  rw [chargeMeter_eq gs _ hpacket]
  rfl

/-- **A section that nobody interrupts** is the charge of the engine's model. -/
theorem atomic_words (gs : GsRom) (o : Packet) (host : HostState) :
    (client gs).atomic o (words host) = (verdict gs host o, words (charged gs host o)) := by
  have hacquire : hostLock.acquire (words host)
      = words { host with lock := host.lock ||| lockMask ⟨0, by omega⟩ } := update_lock host _
  have hrelease : ∀ host : HostState, hostLock.release (words host)
      = words { host with lock := host.lock &&& ~~~1 } := fun host => update_lock host _
  have hclear : (host.lock ||| lockMask ⟨0, by omega⟩) &&& ~~~1 = host.lock &&& ~~~1 := by
    have hmask : lockMask ⟨0, by omega⟩ = 1 := rfl
    rw [hmask, BitVec.and_or_distrib_right, BitVec.and_not_self]
    exact BitVec.or_zero
  have hrun : (body gs o).run (words { host with lock := host.lock ||| lockMask ⟨0, by omega⟩ })
      = (verdict gs host o, words { charged gs host o with
          lock := host.lock ||| lockMask ⟨0, by omega⟩ }) := by
    simp only [body, Prog.run_bind, run_chargeMeter, Prog.run_pure, meterCharged_lock]
    rfl
  rw [Client.atomic, hacquire]
  show (((body gs o).run _).1, hostLock.release ((body gs o).run _).2) = _
  rw [hrun, hrelease, hclear, charged, packetCharged, meterCharged_lock_eq, meterCharged_lock_eq]

/-! ## Every interleaving -/

/-- The host that the charges leave one after another; the list has the last one first. -/
def replay (gs : GsRom) (host : HostState) : List (Packet × u8) → HostState
  | [] => host
  | (o, _) :: done => charged gs (replay gs host done) o

/-- Each has the verdict that `host_charge_packet` gives where its turn came. -/
def Answered (gs : GsRom) (host : HostState) : List (Packet × u8) → Prop
  | [] => True
  | (o, r) :: done =>
      hostChargePacket gs (replay gs host done) o.rl o.tmsec o.in_bytes
        = .ok (replay gs host ((o, r) :: done), r) ∧ Answered gs host done

theorem sequential_words {gs : GsRom} {host : HostState} {done : List (Packet × u8)}
    {A : Memory HostWord u32} (h : Sequential (client gs) (words host) done A) :
    A = words (replay gs host done) ∧ Answered gs host done := by
  induction h with
  | nil => exact ⟨rfl, trivial⟩
  | cons o h ih =>
      obtain ⟨rfl, hans⟩ := ih
      rw [atomic_words]
      exact ⟨rfl, hostChargePacket_verdict gs _ o, hans⟩

section

variable {T : Type} [DecidableEq T] {gs : GsRom} {host : HostState} {es : List (Event T Packet)}
  {s : System HostWord u32 T Packet Packet u8}

theorem atomicity_words (hfree : host.lock &&& 1 = 0)
    (h : run (step (client gs)) (System.start T Packet Packet u8 (words host)) es = .ok s) :
    Inv (client gs) (System.start T Packet Packet u8 (words host)) s := by
  refine atomicity h (quiet_start fun hc => ?_)
  have hheld : host.lock &&& 1 ≠ 0 := of_decide_eq_true hc
  exact hheld hfree

/-- **Charges of any number of CPUs to a host** take effect one after another, in the order in
which they release its lock: none is lost, and every CPU gets the verdict of its place in that
order. At most one is under the lock, and by its own turns it leaves. -/
theorem charges_serialize (hfree : host.lock &&& 1 = 0)
    (h : run (step (client gs)) (System.start T Packet Packet u8 (words host)) es = .ok s) :
    Answered gs host s.done
    ∧ ((∀ t, (s.phase t).op = none) → state s.mem = replay gs host s.done)
    ∧ (∀ t u, (s.phase t).op ≠ none → (s.phase u).op ≠ none → t = u)
    ∧ ∀ t, (s.phase t).op ≠ none → ∃ n s',
        run (step (client gs)) s (List.replicate n (.turn t)) = .ok s'
        ∧ (state s'.mem).lock &&& 1 = 0 := by
  have hinv := atomicity_words hfree h
  obtain ⟨new, A, hdone, hseq, hb⟩ := atomicity_words hfree h
  obtain ⟨hA, hans⟩ := sequential_words hseq
  have hnew : s.done = new := by rw [hdone]; exact List.append_nil new
  refine ⟨hnew ▸ hans, fun hnone => ?_, fun t u => hinv.exclusive, fun t ht => ?_⟩
  · cases hb with
    | free hmem _ _ => rw [hmem, hA, state_words, hnew]
    | held t hway _ => exact absurd (hnone t) hway.op_ne_none
  · obtain ⟨n, s', hrun, hfree'⟩ := hinv.leaves ht
    refine ⟨n, s', hrun, ?_⟩
    by_contra hc
    exact hfree' (decide_eq_true hc)

/-- A packet of 10 bytes at 5 ms, under a rule that charges both costs to meter 1. -/
def samplePacket : Packet := ⟨sameMeterRule, 10, 5, by decide, by decide⟩

/-- Two CPUs charge it; the second spins while the first is in its section. -/
theorem charges_serialize_pair : ∃ s : System HostWord u32 (Fin 2) Packet Packet u8,
    run (step (client Gs.zero.toGsRom))
      (System.start (Fin 2) Packet Packet u8 (words HostState.zero))
      ([.call 0 samplePacket, .call 1 samplePacket, .turn 0, .turn 1, .turn 0, .turn 1, .turn 1]
        ++ List.replicate 13 (.turn 0)) = .ok s
    ∧ Answered Gs.zero.toGsRom HostState.zero s.done := by
  obtain ⟨s, h⟩ : ∃ s, run (step (client Gs.zero.toGsRom))
      (System.start (Fin 2) Packet Packet u8 (words HostState.zero))
      ([.call 0 samplePacket, .call 1 samplePacket, .turn 0, .turn 1, .turn 0, .turn 1, .turn 1]
        ++ List.replicate 13 (.turn 0)) = .ok s := ⟨_, rfl⟩
  exact ⟨s, h, (charges_serialize (by decide) h).1⟩

end

/-! ## What all CPUs together let pass -/

/-- The charges of a packet to the bucket `i`. -/
def Packet.on (i : Fin MAX_METERS) (o : Packet) : Charges :=
  (if o.byteMeter = i ∧ byteCost o.rl o.in_bytes ≠ 0
    then [(o.msec.toNat, byteCost o.rl o.in_bytes)] else [])
  ++ (if o.packetMeter = i ∧ packetCost o.rl ≠ 0 then [(o.msec.toNat, packetCost o.rl)] else [])

/-- What charges cost together. -/
def totalCost (cs : Charges) : ℕ := (cs.map fun c => c.2.toNat).sum

/-- The charges to the bucket `i`, in the order of the releases. -/
def timeline (i : Fin MAX_METERS) : List (Packet × u8) → Charges
  | [] => []
  | (o, _) :: done => timeline i done ++ o.on i

/-- What the packets that conformed have cost of the bucket `i`. -/
def passedOn (i : Fin MAX_METERS) : List (Packet × u8) → ℕ
  | [] => 0
  | (o, r) :: done => passedOn i done + if r = 0 then totalCost (o.on i) else 0

theorem chargeAll_append (tbd : TBucketDesc) (tb : TBucket) (cs ds : Charges) :
    chargeAll tbd tb (cs ++ ds) = chargeAll tbd (chargeAll tbd tb cs) ds := by
  induction cs generalizing tb with
  | nil => rfl
  | cons c cs ih => exact ih _

theorem verdicts_append (tbd : TBucketDesc) (tb : TBucket) (cs ds : Charges) :
    verdicts tbd tb (cs ++ ds) = verdicts tbd tb cs ++ verdicts tbd (chargeAll tbd tb cs) ds := by
  induction cs generalizing tb with
  | nil => rfl
  | cons c cs ih => exact congrArg (_ :: ·) (ih _)

theorem ofNat_msec (o : Packet) : BitVec.ofNat 32 o.msec.toNat = o.tmsec := by
  rw [Packet.tmsec, BitVec.ofNat_toNat]

/-- One conditional charge, seen from the bucket `i`. -/
theorem meterCharged_on (gs : GsRom) (host : HostState) (i b : Fin MAX_METERS) (o : Packet)
    (cost : u32) : (meterCharged gs host b o.tmsec cost).tb i
      = chargeAll (gs.tbdesc i) (host.tb i)
        (if b = i ∧ cost ≠ 0 then [(o.msec.toNat, cost)] else []) := by
  by_cases h : b = i ∧ cost ≠ 0
  · rw [if_pos h, ← h.1, meterCharged_self _ _ _ h.2]
    show _ = (Ntfw.tokenBucketCharge _ _ (BitVec.ofNat 32 o.msec.toNat) cost).1
    rw [ofNat_msec]
  · rw [if_neg h]
    exact meterCharged_of_ne gs host o.tmsec cost fun hc => h ⟨hc.1.symm, hc.2⟩

theorem charged_on (gs : GsRom) (host : HostState) (i : Fin MAX_METERS) (o : Packet) :
    (charged gs host o).tb i = chargeAll (gs.tbdesc i) (host.tb i) (o.on i) := by
  rw [Packet.on, chargeAll_append, ← meterCharged_on, ← meterCharged_on]
  rfl

theorem totalCost_append (cs ds : Charges) :
    totalCost (cs ++ ds) = totalCost cs + totalCost ds := by
  rw [totalCost, List.map_append, List.sum_append]
  rfl

/-- A charge that conforms counts in full. -/
theorem totalCost_le (gs : GsRom) (host : HostState) (i b : Fin MAX_METERS) (o : Packet)
    (cost : u32) (h : (decide (cost = 0) || meterConforms gs host b o.tmsec cost) = true) :
    totalCost (if b = i ∧ cost ≠ 0 then [(o.msec.toNat, cost)] else [])
      ≤ passedCost (verdicts (gs.tbdesc i) (host.tb i)
        (if b = i ∧ cost ≠ 0 then [(o.msec.toNat, cost)] else [])) := by
  by_cases hb : b = i ∧ cost ≠ 0
  · rw [decide_eq_false hb.2, Bool.false_or, meterConforms, hb.1] at h
    rw [if_pos hb]
    show cost.toNat + 0 ≤ (if (Ntfw.tokenBucketCharge _ _ (BitVec.ofNat 32 o.msec.toNat) cost).2
      then cost.toNat else 0) + 0
    rw [ofNat_msec, if_pos h]
  · rw [if_neg hb]
    exact Nat.le_refl _

/-- A packet that conforms has conformed on each bucket that it was charged to. -/
theorem totalCost_on_le (gs : GsRom) (host : HostState) (i : Fin MAX_METERS) (o : Packet)
    (h : verdict gs host o = 0) :
    totalCost (o.on i) ≤ passedCost (verdicts (gs.tbdesc i) (host.tb i) (o.on i)) := by
  obtain ⟨hbyte, hpacket⟩ := (result_eq_zero _ _).mp h
  have h1 := totalCost_le gs host i _ o _ hbyte
  have h2 := totalCost_le gs _ i _ o _ hpacket
  rw [meterCharged_on] at h2
  rw [Packet.on, totalCost_append, verdicts_append, passedCost_append]
  omega

theorem passedOn_le {gs : GsRom} {host : HostState} (i : Fin MAX_METERS)
    {done : List (Packet × u8)} (h : Answered gs host done) :
    (replay gs host done).tb i = chargeAll (gs.tbdesc i) (host.tb i) (timeline i done)
    ∧ passedOn i done
      ≤ passedCost (verdicts (gs.tbdesc i) (host.tb i) (timeline i done)) := by
  induction done with
  | nil => exact ⟨rfl, Nat.le_refl _⟩
  | cons d done ih =>
      obtain ⟨o, r⟩ := d
      obtain ⟨hcall, hrest⟩ := h
      obtain ⟨hstate, hle⟩ := ih hrest
      have hverdict : verdict gs (replay gs host done) o = r := by
        rw [hostChargePacket_verdict] at hcall
        exact congrArg Prod.snd (Except.ok.inj hcall)
      constructor
      · show (charged gs (replay gs host done) o).tb i
          = chargeAll (gs.tbdesc i) (host.tb i) (timeline i done ++ o.on i)
        rw [charged_on, hstate, chargeAll_append]
      · show passedOn i done + (if r = 0 then totalCost (o.on i) else 0)
          ≤ passedCost (verdicts (gs.tbdesc i) (host.tb i) (timeline i done ++ o.on i))
        rw [verdicts_append, passedCost_append, ← hstate]
        split
        · rename_i hr
          have hon := totalCost_on_le gs (replay gs host done) i o (hverdict.trans hr)
          omega
        · omega

section

variable {T : Type} [DecidableEq T] {gs : GsRom} {host : HostState} {es : List (Event T Packet)}
  {s : System HostWord u32 T Packet Packet u8}

/-- **The rate limit holds for all CPUs together.** Whatever the interleaving, as long as the
times of the charges to a bucket do not decrease in the order of the releases, the packets that
conformed have cost no more of it than the tokens it held, be they more than its capacity, and
the rate times the time. -/
theorem passedOn_bound (hfree : host.lock &&& 1 = 0)
    (h : run (step (client gs)) (System.start T Packet Packet u8 (words host)) es = .ok s)
    {i : Fin MAX_METERS} {t₀ : ℕ} (hlast : (host.tb i).last = BitVec.ofNat 32 t₀)
    (horder : InOrder t₀ (timeline i s.done)) :
    passedOn i s.done ≤ (host.tb i).tokens.toNat
      + (gs.tbdesc i).rate.toNat * (lastTime t₀ (timeline i s.done) - t₀) := by
  obtain ⟨new, A, hdone, hseq, -⟩ := atomicity_words hfree h
  have hnew : s.done = new := by rw [hdone]; exact List.append_nil new
  have hle := (passedOn_le i (hnew ▸ (sequential_words hseq).2 : Answered gs host s.done)).2
  have hrun := (verdicts_run (le_max_left _ (gs.tbdesc i).capacity.toNat) (le_max_right _ _)
    hlast horder).passedCost_le
  have hbound : passedCost (verdicts (gs.tbdesc i) (host.tb i) (timeline i s.done))
      ≤ (host.tb i).tokens.toNat
        + (gs.tbdesc i).rate.toNat * (lastTime t₀ (timeline i s.done) - t₀) :=
    Nat.le_trans (Nat.le_add_right _ _) hrun
  exact Nat.le_trans hle hbound

/-- Meters of two tokens a millisecond, up to 100. -/
def ratedRom : GsRom := { Gs.zero.toGsRom with tbdesc := fun _ => ⟨2, 100, 1⟩ }

/-- A host that has kept 120 tokens of a larger capacity. -/
def keptHost : HostState := { HostState.zero with tb := fun _ => ⟨120, 0⟩ }

/-- Another packet, three milliseconds later. -/
def laterPacket : Packet := { samplePacket with msec := 8 }

/-- Two CPUs charge the two packets, which both conform. -/
theorem passedOn_bound_pair : ∃ s : System HostWord u32 (Fin 2) Packet Packet u8,
    run (step (client ratedRom)) (System.start (Fin 2) Packet Packet u8 (words keptHost))
      ([.call 0 samplePacket, .call 1 laterPacket, .turn 0, .turn 1, .turn 0, .turn 1, .turn 1]
        ++ List.replicate 13 (.turn 0) ++ List.replicate 15 (.turn 1)) = .ok s
    ∧ passedOn 1 s.done = 46
    ∧ passedOn 1 s.done ≤ 120 + 2 * (lastTime 0 (timeline 1 s.done) - 0) := by
  refine ⟨_, rfl, rfl, ?_⟩
  refine @passedOn_bound (Fin 2) _ ratedRom keptHost
    ([.call 0 samplePacket, .call 1 laterPacket, .turn 0, .turn 1, .turn 0, .turn 1, .turn 1]
        ++ List.replicate 13 (.turn 0) ++ List.replicate 15 (.turn 1)) _ (by decide) rfl 1 0
    rfl ?_
  show InOrder 0 [(5, 20), (5, 3), (8, 20), (8, 3)]
  simp [InOrder]

end

end Ntfw.Charge
