import Ntfw.Host.Bucket
import Ntfw.Lib.Transition

set_option autoImplicit false

/-! # Insertion and sweep, as seen by the table

`Placed` is the inversion of an insertion: every branch of `host_insert` and
`host_insert_authorized` that goes through the bucket lock ends in one of its three cases. -/

namespace Ntfw

/-! ## The outcome of an insertion -/

/-- What an insertion of `saddr` with `priority` at time `tsec` makes of a bucket, by the slot
it returns. -/
inductive Placed (htb : HtBucket) (tsec : u16) (saddr : be32) (priority : Nat) :
    Option Slot → HtBucket → Prop where
  /-- The address is there; its priority is raised if it was lower. -/
  | found {htb' : HtBucket} {k : Slot} (hk : probeBucket htb saddr = some k)
      (hs : htb'.saddr = htb.saddr)
      (hp : ∀ j, htb'.pri j = if j = k then max (htb.pri k) priority else htb.pri j)
      (he : htb'.exhausted = htb.exhausted) : Placed htb tsec saddr priority (some k) htb'
  /-- The address is not there and no slot can be had. -/
  | full {htb' : HtBucket} (hk : probeBucket htb saddr = none) (ha : allocSlot htb tsec = none)
      (hsame : SameEntries htb htb') : Placed htb tsec saddr priority none htb'
  /-- The address is entered in the slot that was allocated. -/
  | entered {htb' : HtBucket} {k : Slot} (hk : probeBucket htb saddr = none)
      (ha : allocSlot htb tsec = some k)
      (hs : htb'.saddr = Function.update htb.saddr k saddr)
      (hp : ∀ j, htb'.pri j = if j = k then priority else htb.pri j)
      (he : htb'.exhausted = (htb.exhausted || decide (k = 7))) :
      Placed htb tsec saddr priority (some k) htb'

/-- The slot `k` holds the address with the priority now; the other slots stay. -/
structure Written (htb htb' : HtBucket) (k : Slot) (saddr : be32) (priority : Nat) : Prop where
  saddr : htb'.saddr k = saddr
  pri : htb'.pri k = priority
  saddr_of_ne : ∀ j, j ≠ k → htb'.saddr j = htb.saddr j
  pri_of_ne : ∀ j, j ≠ k → htb'.pri j = htb.pri j

theorem Written.of_update {htb htb' : HtBucket} {k : Slot} {a : be32} {p : Nat}
    (hs : htb'.saddr = Function.update htb.saddr k a)
    (hp : ∀ j, htb'.pri j = if j = k then p else htb.pri j) : Written htb htb' k a p := by
  refine ⟨?_, ?_, ?_, ?_⟩
  · rw [hs, Function.update_self]
  · rw [hp, if_pos rfl]
  · intro j hj
    rw [hs, Function.update_of_ne hj]
  · intro j hj
    rw [hp, if_neg hj]

/-- Allocation does not look at the lock bit. -/
theorem allocSlot_setLocked (htb : HtBucket) (b : Bool) (tsec : u16) :
    allocSlot (htb.setLocked b) tsec = allocSlot htb tsec := by
  have hdist : ∀ k : Slot, evictionDist tsec ((htb.setLocked b).ctrl k)
      = evictionDist tsec (htb.ctrl k) := by
    intro k
    by_cases hk : k = 0
    · subst hk
      exact evictionDist_congr tsec (by simp [HtBucket.setLocked]) (by simp [HtBucket.setLocked])
    · simp [HtBucket.setLocked, hk]
  have hcand : evictionCandidate (htb.setLocked b) tsec = evictionCandidate htb tsec := by
    simp only [evictionCandidate, hdist]
  rw [allocSlot, allocSlot, hcand, HtBucket.setLocked_exhausted, HtBucket.setLocked_pri,
    probeBucket_congr (HtBucket.setLocked_saddr htb b)]

section

variable (htb : HtBucket) (k : Slot) (a : be32) (tsec : u16) (p ptr : u32)

@[simp] theorem initEntry_saddr :
    (htb.initEntry k a tsec p).saddr = Function.update htb.saddr k a := rfl

theorem initEntry_pri (hp : p ≤ 3) (j : Slot) :
    (htb.initEntry k a tsec p).pri j = if j = k then p.toNat else htb.pri j := by
  by_cases h : j = k
  · subst h
    simp [HtBucket.initEntry, HtBucket.setCtrl_pri, HostCtrl.pri_setPri_of_le _ _ hp]
  · simp only [HtBucket.initEntry, HtBucket.setCtrl_pri, if_neg h, HtBucket.setSaddr_pri]

@[simp] theorem initEntry_exhausted :
    (htb.initEntry k a tsec p).exhausted = htb.exhausted := by
  rw [HtBucket.initEntry, HtBucket.setCtrl_exhausted (by simp),
    HtBucket.setCtrl_exhausted (by simp), HtBucket.setSaddr_exhausted]

@[simp] theorem initPtr_saddr : (htb.initPtr k ptr).saddr = htb.saddr := rfl

@[simp] theorem initPtr_pri (j : Slot) : (htb.initPtr k ptr).pri j = htb.pri j := by
  rw [HtBucket.initPtr, HtBucket.setCtrl_pri, HostCtrl.pri_setPtr]
  by_cases h : j = k
  · simp [h, HtBucket.pri]
  · simp [h]

@[simp] theorem initPtr_exhausted : (htb.initPtr k ptr).exhausted = htb.exhausted :=
  HtBucket.setCtrl_exhausted (by simp)

end

/-! ## The section under the lock -/

/-- Raise the priority of a slot. -/
def HtBucket.raisePri (htb : HtBucket) (k : Slot) (p : u32) : HtBucket :=
  if (htb.ctrl k).pri < p then htb.setCtrl k ((htb.ctrl k).setPri p) else htb

/-- What an insertion makes of its bucket from taking the lock to releasing it, and the slot it
returns. The pool index `ptr` of a new entry is given from outside. -/
def lockedInsert (htb : HtBucket) (tsec : u16) (saddr : be32) (priority ptr : u32) :
    Option Slot × HtBucket :=
  match probeBucket htb saddr with
  | some k => (some k, ((htb.setLocked true).raisePri k priority).setLocked false)
  | none =>
      match allocSlot htb tsec with
      | none => (none, (htb.setLocked true).setLocked false)
      | some k => (some k, ((((htb.setLocked true).take k).initEntry k saddr tsec
          priority).initPtr k ptr).setLocked false)

/-- `allocate` under the lock. -/
theorem allocate_locked (htb : HtBucket) (pool : Nat → HostState) (tsec : u16) : ∃ pool',
    allocate (htb.setLocked true) pool tsec HOST_PRI_NONE
      = match allocSlot htb tsec with
        | none => (none, htb.setLocked true, pool)
        | some k => (some k, (htb.setLocked true).take k, pool') := by
  obtain ⟨pool', h⟩ := allocate_eq (htb.setLocked true) pool tsec
  rw [allocSlot_setLocked] at h
  exact ⟨pool', h⟩

@[simp] theorem raisePri_saddr (htb : HtBucket) (k : Slot) (p : u32) :
    (htb.raisePri k p).saddr = htb.saddr := by
  unfold HtBucket.raisePri
  split <;> rfl

@[simp] theorem raisePri_exhausted (htb : HtBucket) (k : Slot) (p : u32) :
    (htb.raisePri k p).exhausted = htb.exhausted := by
  unfold HtBucket.raisePri
  split
  · exact HtBucket.setCtrl_exhausted (by simp)
  · rfl

theorem raisePri_pri (htb : HtBucket) (k : Slot) {p : u32} (hp : p ≤ 3) (j : Slot) :
    (htb.raisePri k p).pri j = if j = k then max (htb.pri k) p.toNat else htb.pri j := by
  have hlt : (htb.ctrl k).pri < p ↔ htb.pri k < p.toNat := Iff.rfl
  unfold HtBucket.raisePri
  by_cases h : htb.pri k < p.toNat
  · rw [if_pos (hlt.mpr h), HtBucket.setCtrl_pri, HostCtrl.pri_setPri_of_le _ _ hp,
      max_eq_right (Nat.le_of_lt h)]
  · rw [if_neg (fun hc => h (hlt.mp hc)), max_eq_left (Nat.le_of_not_lt h)]
    by_cases hj : j = k
    · rw [if_pos hj, hj]
    · rw [if_neg hj]

@[simp] theorem take_saddr (htb : HtBucket) (k : Slot) : (htb.take k).saddr = htb.saddr := by
  unfold HtBucket.take
  split <;> rfl

@[simp] theorem take_pri (htb : HtBucket) (k j : Slot) : (htb.take k).pri j = htb.pri j := by
  unfold HtBucket.take
  split
  · exact htb.setExhausted_pri true j
  · rfl

@[simp] theorem take_exhausted (htb : HtBucket) (k : Slot) :
    (htb.take k).exhausted = (htb.exhausted || decide (k = 7)) := by
  unfold HtBucket.take
  by_cases hk : k = 7
  · cases he : htb.exhausted <;> simp [he, hk]
  · simp [hk]

/-- **The section places the address.** -/
theorem lockedInsert_placed (htb : HtBucket) (tsec : u16) (a : be32) {p : u32} (ptr : u32)
    (hp : p ≤ 3) :
    Placed htb tsec a p.toNat (lockedInsert htb tsec a p ptr).1
      (lockedInsert htb tsec a p ptr).2 := by
  unfold lockedInsert
  cases hk : probeBucket htb a with
  | some k =>
      refine .found hk ?_ (fun j => ?_) ?_
      · rw [HtBucket.setLocked_saddr, raisePri_saddr, HtBucket.setLocked_saddr]
      · simp only [HtBucket.setLocked_pri, raisePri_pri _ _ hp]
      · rw [HtBucket.setLocked_exhausted, raisePri_exhausted, HtBucket.setLocked_exhausted]
  | none =>
      cases ha : allocSlot htb tsec with
      | none => exact .full hk ha ⟨rfl, fun _ => by simp, by simp⟩
      | some k =>
          refine .entered hk ha ?_ (fun j => ?_) ?_
          · rw [HtBucket.setLocked_saddr, initPtr_saddr, initEntry_saddr, take_saddr,
              HtBucket.setLocked_saddr]
          · rw [HtBucket.setLocked_pri, initPtr_pri, initEntry_pri _ _ _ _ _ hp, take_pri,
              HtBucket.setLocked_pri]
          · rw [HtBucket.setLocked_exhausted, initPtr_exhausted, initEntry_exhausted,
              take_exhausted, HtBucket.setLocked_exhausted]

/-! ## The two insertions -/

/-- Between the two states only the bucket `b`, the pool and the counters may differ. -/
structure OnlyBucket (b : Fin HTBL_SIZE) (gs gs' : Gs) : Prop where
  rom : gs'.toGsRom = gs.toGsRom
  other : ∀ c, c ≠ b → gs'.host_tbl c = gs.host_tbl c

theorem OnlyBucket.refl (b : Fin HTBL_SIZE) (gs : Gs) : OnlyBucket b gs gs :=
  ⟨rfl, fun _ _ => rfl⟩

/-- Taking the lock, writing the bucket and releasing the lock all write the bucket. -/
theorem OnlyBucket.setBucket {b : Fin HTBL_SIZE} {gs gs' : Gs} (h : OnlyBucket b gs gs')
    (htb : HtBucket) : OnlyBucket b gs (gs'.setBucket b htb) :=
  ⟨h.rom, fun c hc => (Gs.setBucket_of_ne gs' htb hc).trans (h.other c hc)⟩

theorem OnlyBucket.count {b : Fin HTBL_SIZE} {gs gs' : Gs} (h : OnlyBucket b gs gs')
    (cpu : Fin MAX_CPUS) (f : Counters → Counters) : OnlyBucket b gs (gs'.count cpu f) :=
  ⟨h.rom, h.other⟩

theorem OnlyBucket.of_pool {b : Fin HTBL_SIZE} {gs gs' : Gs} (h : OnlyBucket b gs gs')
    (pool : Nat → HostState) : OnlyBucket b gs { gs' with pool := pool } :=
  ⟨h.rom, h.other⟩

theorem hostAllocate_ok {gs gs' : Gs} {cpu : Fin MAX_CPUS} {ptr : u32}
    (h : hostAllocate gs cpu = .ok (ptr, gs')) :
    gs'.toGsRom = gs.toGsRom ∧ gs'.host_tbl = gs.host_tbl ∧ ptr = gs.hp_size + 1
      ∧ gs'.hp_size = gs.hp_size + 1 := by
  simp only [hostAllocate] at h
  split at h
  · cases h
    exact ⟨rfl, rfl, rfl, rfl⟩
  · split at h
    · split at h
      · cases h
      · cases h
        exact ⟨rfl, rfl, rfl, rfl⟩
    · cases h
      exact ⟨rfl, rfl, rfl, rfl⟩

theorem hostAllocate_error {gs : Gs} {cpu : Fin MAX_CPUS} {e : Stuck}
    (h : hostAllocate gs cpu = .error e) : gs.hp_true_sz ≤ gs.hp_size + 1 := by
  simp only [hostAllocate] at h
  split at h
  · cases h
  · split at h
    · rename_i hbehind
      exact hbehind
    · cases h

/-- The bucket of `gs` once its lock is taken and, at the end, released. -/
theorem lockBucket_self (gs : Gs) (b : Fin HTBL_SIZE) :
    (lockBucket gs b).host_tbl b = (gs.host_tbl b).setLocked true := by simp [lockBucket]

theorem unlockBucket_self (gs : Gs) (b : Fin HTBL_SIZE) :
    (unlockBucket gs b).host_tbl b = (gs.host_tbl b).setLocked false := by simp [unlockBucket]

theorem probeBucket_setLocked (htb : HtBucket) (b : Bool) (a : be32) :
    probeBucket (htb.setLocked b) a = probeBucket htb a :=
  probeBucket_congr (HtBucket.setLocked_saddr htb b) a

/-- The two states may differ in the host table and the counters, and in nothing else. -/
structure SameRest (gs gs' : Gs) : Prop where
  rom : gs'.toGsRom = gs.toGsRom
  pool : gs'.pool = gs.pool
  hp_size : gs'.hp_size = gs.hp_size
  hp_true_sz : gs'.hp_true_sz = gs.hp_true_sz
  ts_hpc : ∀ c, (gs'.cpuls c).ts_hpc = (gs.cpuls c).ts_hpc
  ts_msec : ∀ c, (gs'.cpuls c).ts_msec = (gs.cpuls c).ts_msec

theorem SameRest.count (gs : Gs) (cpu : Fin MAX_CPUS) (f : Counters → Counters) :
    SameRest gs (gs.count cpu f) := by
  refine ⟨rfl, rfl, rfl, rfl, fun c => ?_, fun c => ?_⟩
  · by_cases hc : c = cpu
    · simp [Gs.count, hc]
    · simp [Gs.count, hc]
  · by_cases hc : c = cpu
    · simp [Gs.count, hc]
    · simp [Gs.count, hc]

/-- A bucket may be written as well. -/
theorem SameRest.of_table {gs gs' : Gs} (h : SameRest gs gs') (tbl : Fin HTBL_SIZE → HtBucket) :
    SameRest gs { gs' with host_tbl := tbl } :=
  ⟨h.rom, h.pool, h.hp_size, h.hp_true_sz, h.ts_hpc, h.ts_msec⟩

/-- **`host_insert_authorized`** runs the section on its bucket, with the reserved pool index,
and touches no other bucket. -/
theorem hostInsertAuthorized_section (env : Env) (gs : Gs) (b : Fin HTBL_SIZE) (a : be32)
    (p : u32) :
    OnlyBucket b gs (hostInsertAuthorized env gs b a p).2
    ∧ (hostInsertAuthorized env gs b a p).1
        = (lockedInsert (gs.host_tbl b) (insertTsec gs env.cpu) a p 0).1
    ∧ (hostInsertAuthorized env gs b a p).2.host_tbl b
        = (lockedInsert (gs.host_tbl b) (insertTsec gs env.cpu) a p 0).2
    ∧ (hostInsertAuthorized env gs b a p).2.hp_size = gs.hp_size
    ∧ ((hostInsertAuthorized env gs b a p).1 = none →
        SameRest gs (hostInsertAuthorized env gs b a p).2) := by
  simp only [hostInsertAuthorized]
  set gs1 := if htbTestLock env (gs.host_tbl b) then
      gs.count env.cpu fun sc => { sc with htb_conflicts := sc.htb_conflicts + 1 } else gs
    with hgs1
  -- A conflict is only counted: the call then waits for the lock and goes on.
  have hrest : SameRest gs gs1 := by
    rw [hgs1]
    split
    · exact SameRest.count gs env.cpu _
    · exact ⟨rfl, rfl, rfl, rfl, fun _ => rfl, fun _ => rfl⟩
  have htbl : gs1.host_tbl = gs.host_tbl := by rw [hgs1]; split <;> rfl
  clear_value gs1
  have htsec : insertTsec (lockBucket gs1 b) env.cpu = insertTsec gs env.cpu := by
    show (((gs1.cpuls env.cpu).ts_msec >>> 10).setWidth 32 &&& HTB_AGE_MASK).setWidth 16 = _
    rw [hrest.ts_msec]
    rfl
  have hbkt : (lockBucket gs1 b).host_tbl b = (gs.host_tbl b).setLocked true := by
    rw [lockBucket_self, htbl]
  have hlocked : OnlyBucket b gs (lockBucket gs1 b) :=
    OnlyBucket.setBucket ⟨hrest.rom, fun c _ => congrFun htbl c⟩ _
  rw [hbkt, probeBucket_setLocked, htsec]
  unfold lockedInsert
  cases hk : probeBucket (gs.host_tbl b) a with
  | some k =>
      simp only [Gs.count_host_tbl, hbkt]
      -- The priority is written under the lock, and only if it rises.
      unfold HtBucket.raisePri
      split
      · refine ⟨((hlocked.count _ _).setBucket _).setBucket _, trivial, ?_, hrest.hp_size,
          fun hc => by cases hc⟩
        rw [unlockBucket_self, Gs.setBucket_self]
      · refine ⟨(hlocked.count _ _).setBucket _, trivial, ?_, hrest.hp_size, fun hc => by cases hc⟩
        rw [unlockBucket_self, Gs.count_host_tbl, hbkt]
  | none =>
      obtain ⟨pool, hall⟩ := allocate_locked (gs.host_tbl b) (lockBucket gs1 b).pool
        (insertTsec gs env.cpu)
      -- Whatever is written to the bucket, the release of the lock comes last.
      have hwritten : ∀ (htb : HtBucket) (pool : Nat → HostState),
          let gs2 := unlockBucket { (lockBucket gs1 b).setBucket b htb with pool := pool } b
          OnlyBucket b gs gs2 ∧ gs2.host_tbl b = htb.setLocked false := by
        intro htb pool
        refine ⟨((hlocked.setBucket htb).of_pool pool).setBucket _, ?_⟩
        rw [unlockBucket_self]
        exact congrArg (·.setLocked false) (Gs.setBucket_self _ _ _)
      rw [hall]
      cases allocSlot (gs.host_tbl b) (insertTsec gs env.cpu) with
      | none =>
          obtain ⟨hframe, hself⟩ :=
            hwritten ((gs.host_tbl b).setLocked true) (lockBucket gs1 b).pool
          exact ⟨hframe, rfl, hself, hrest.hp_size, fun _ => hrest.of_table _⟩
      | some k =>
          obtain ⟨hframe, hself⟩ := hwritten _ pool
          exact ⟨hframe, rfl, hself, hrest.hp_size, fun hc => by cases hc⟩

/-- `host_insert_authorized`, as the table sees it. -/
theorem hostInsertAuthorized_spec (env : Env) (gs : Gs) (b : Fin HTBL_SIZE) (a : be32) {p : u32}
    (hp : p ≤ 3) :
    OnlyBucket b gs (hostInsertAuthorized env gs b a p).2
    ∧ Placed (gs.host_tbl b) (insertTsec gs env.cpu) a p.toNat
        (hostInsertAuthorized env gs b a p).1
        ((hostInsertAuthorized env gs b a p).2.host_tbl b) := by
  obtain ⟨hframe, hr, hb, -, -⟩ := hostInsertAuthorized_section env gs b a p
  refine ⟨hframe, ?_⟩
  rw [hr, hb]
  exact lockedInsert_placed (gs.host_tbl b) (insertTsec gs env.cpu) a 0 hp

theorem hostInsertAuthorized_ok {env : Env} {gs gs' : Gs} {b : Fin HTBL_SIZE} {a : be32} {p : u32}
    {r : Option Slot} (hp : p ≤ 3) (h : hostInsertAuthorized env gs b a p = (r, gs')) :
    OnlyBucket b gs gs'
    ∧ Placed (gs.host_tbl b) (insertTsec gs env.cpu) a p.toNat r (gs'.host_tbl b) := by
  have hspec := hostInsertAuthorized_spec env gs b a hp
  rw [h] at hspec
  exact hspec

/-! ### Which branch `host_insert` takes -/

section

variable {env : Env} {gs gs' : Gs} {b : Fin HTBL_SIZE} {a : be32} {k : Slot} {r : Option Slot}

/-- With the lock held the call is put off. -/
theorem hostInsert_of_held (hlock : htbTestLock env (gs.host_tbl b) = true) :
    hostInsert env gs b a = .ok (none, gs.count env.cpu fun sc =>
      { sc with htb_conflicts := sc.htb_conflicts + 1, htb_deferred := sc.htb_deferred + 1 }) :=
  if_pos hlock

theorem hostInsert_of_found (hlock : htbTestLock env (gs.host_tbl b) = false)
    (hk : probeBucket (gs.host_tbl b) a = some k) :
    hostInsert env gs b a = .ok (some k, unlockBucket ((lockBucket gs b).count env.cpu fun sc =>
      { sc with htb_collisions := sc.htb_collisions + 1 }) b) := by
  simp only [hostInsert]
  rw [if_neg (by simp [hlock]), lockBucket_self, probeBucket_setLocked, hk]

theorem hostInsert_of_full (hlock : htbTestLock env (gs.host_tbl b) = false)
    (hk : probeBucket (gs.host_tbl b) a = none)
    (ha : allocSlot (gs.host_tbl b) (insertTsec gs env.cpu) = none) :
    hostInsert env gs b a = .ok (none, unlockBucket (((lockBucket gs b).setBucket b
      ((gs.host_tbl b).setLocked true)).count env.cpu fun sc =>
        { sc with htb_ins_fails := sc.htb_ins_fails + 1 }) b) := by
  obtain ⟨pool, hall⟩ := allocate_locked (gs.host_tbl b) (lockBucket gs b).pool
    (insertTsec gs env.cpu)
  simp only [ha] at hall
  simp only [hostInsert]
  have htsec : insertTsec (lockBucket gs b) env.cpu = insertTsec gs env.cpu := rfl
  rw [if_neg (by simp [hlock]), lockBucket_self, probeBucket_setLocked, htsec, hk]
  simp only [hall]
  rfl

/-- A new entry is written before its pool index is asked for; the index goes in last. -/
theorem hostInsert_of_entered (hlock : htbTestLock env (gs.host_tbl b) = false)
    (hk : probeBucket (gs.host_tbl b) a = none)
    (ha : allocSlot (gs.host_tbl b) (insertTsec gs env.cpu) = some k) :
    ∃ pool, hostInsert env gs b a
      = hostAllocate { (lockBucket gs b).setBucket b ((((gs.host_tbl b).setLocked true).take
            k).initEntry k a (insertTsec gs env.cpu) HOST_PRI_NONE) with pool := pool } env.cpu
          >>= fun x => .ok (some k,
            unlockBucket (x.2.setBucket b ((x.2.host_tbl b).initPtr k x.1)) b) := by
  obtain ⟨pool, hall⟩ := allocate_locked (gs.host_tbl b) (lockBucket gs b).pool
    (insertTsec gs env.cpu)
  simp only [ha] at hall
  refine ⟨pool, ?_⟩
  simp only [hostInsert]
  have htsec : insertTsec (lockBucket gs b) env.cpu = insertTsec gs env.cpu := rfl
  rw [if_neg (by simp [hlock]), lockBucket_self, probeBucket_setLocked, htsec, hk]
  simp only [hall]

/-- **`host_insert`** defers when it sees the lock held, and otherwise runs the section on its
bucket for an unauthorised host. It touches no other bucket. -/
theorem hostInsert_section (h : hostInsert env gs b a = .ok (r, gs')) :
    OnlyBucket b gs gs'
    ∧ ((htbTestLock env (gs.host_tbl b) = true ∧ r = none ∧ gs'.host_tbl b = gs.host_tbl b)
      ∨ (htbTestLock env (gs.host_tbl b) = false
        ∧ r = (lockedInsert (gs.host_tbl b) (insertTsec gs env.cpu) a HOST_PRI_NONE
            (gs.hp_size + 1)).1
        ∧ gs'.host_tbl b = (lockedInsert (gs.host_tbl b) (insertTsec gs env.cpu) a HOST_PRI_NONE
            (gs.hp_size + 1)).2
        ∧ gs'.hp_size = if probeBucket (gs.host_tbl b) a = none ∧ r.isSome then gs.hp_size + 1
            else gs.hp_size))
    ∧ (r = none → SameRest gs gs') := by
  cases hlock : htbTestLock env (gs.host_tbl b) with
  | true =>
      rw [hostInsert_of_held hlock] at h
      cases h
      exact ⟨(OnlyBucket.refl b gs).count _ _, Or.inl ⟨rfl, rfl, rfl⟩,
        fun _ => SameRest.count gs env.cpu _⟩
  | false =>
      have hlocked : OnlyBucket b gs (lockBucket gs b) := (OnlyBucket.refl b gs).setBucket _
      unfold lockedInsert
      cases hk : probeBucket (gs.host_tbl b) a with
      | some k =>
          rw [hostInsert_of_found hlock hk] at h
          cases h
          refine ⟨(hlocked.count _ _).setBucket _, Or.inr ⟨rfl, rfl, ?_, rfl⟩,
            fun hc => by cases hc⟩
          rw [unlockBucket_self, Gs.count_host_tbl, lockBucket_self]
          simp [HtBucket.raisePri, HOST_PRI_NONE]
      | none =>
          cases hslot : allocSlot (gs.host_tbl b) (insertTsec gs env.cpu) with
          | none =>
              rw [hostInsert_of_full hlock hk hslot] at h
              cases h
              refine ⟨((hlocked.setBucket _).count _ _).setBucket _, Or.inr ⟨rfl, rfl, ?_, rfl⟩,
                fun _ => ?_⟩
              · rw [unlockBucket_self, Gs.count_host_tbl, Gs.setBucket_self]
              · exact (SameRest.count gs env.cpu
                  fun sc => { sc with htb_ins_fails := sc.htb_ins_fails + 1 }).of_table _
          | some k =>
              -- The pool index comes last, from a pool shared by all buckets.
              obtain ⟨pool, hins⟩ := hostInsert_of_entered hlock hk hslot
              rw [hins] at h
              obtain ⟨⟨ptr, gs2⟩, hal, hret⟩ := Except.bind_eq_ok.mp h
              cases hret
              obtain ⟨hrom, htbl, rfl, hsize⟩ := hostAllocate_ok hal
              have hentered : OnlyBucket b gs gs2 :=
                ⟨hrom, fun c hc => (congrFun htbl c).trans ((hlocked.setBucket _).other c hc)⟩
              refine ⟨(hentered.setBucket _).setBucket _, Or.inr ⟨rfl, rfl, ?_, hsize⟩,
                fun hc => by cases hc⟩
              rw [unlockBucket_self, Gs.setBucket_self, htbl]
              exact congrArg (fun htb : HtBucket => (htb.initPtr k _).setLocked false)
                (Gs.setBucket_self _ _ _)

end

/-- `host_insert`, as the table sees it. -/
theorem hostInsert_spec {env : Env} {gs gs' : Gs} {b : Fin HTBL_SIZE} {a : be32}
    {r : Option Slot} (h : hostInsert env gs b a = .ok (r, gs')) :
    OnlyBucket b gs gs'
    ∧ ((htbTestLock env (gs.host_tbl b) = true ∧ r = none ∧ gs'.host_tbl b = gs.host_tbl b)
      ∨ (htbTestLock env (gs.host_tbl b) = false
        ∧ Placed (gs.host_tbl b) (insertTsec gs env.cpu) a 0 r (gs'.host_tbl b))) := by
  obtain ⟨hframe, hcase, -⟩ := hostInsert_section h
  refine ⟨hframe, hcase.imp id ?_⟩
  rintro ⟨hlock, hr, hb, -⟩
  have hplaced := lockedInsert_placed (gs.host_tbl b) (insertTsec gs env.cpu) a (gs.hp_size + 1)
    (p := HOST_PRI_NONE) (by decide)
  rw [← hr, ← hb] at hplaced
  exact ⟨hlock, hplaced⟩

/-! ## The sweep -/

/-- What the sweep makes of a bucket: the statically authorised slots lose their address but
keep their control word, and the flag goes down if there was one. -/
structure Swept (htb htb' : HtBucket) : Prop where
  saddr : ∀ k, htb'.saddr k = if htb.pri k = 3 then 0 else htb.saddr k
  pri : ∀ k, htb'.pri k = htb.pri k
  exhausted : htb'.exhausted = (htb.exhausted && decide (∀ k, htb.pri k ≠ 3))

theorem pri_eq_static (htb : HtBucket) (k : Slot) :
    (htb.ctrl k).pri = HOST_PRI_STATIC ↔ htb.pri k = 3 := by
  constructor
  · intro h
    rw [HtBucket.pri, h]
    rfl
  · intro h
    exact BitVec.eq_of_toNat_eq h

theorem clearSlot_of_ne {i j : Fin HTBL_SIZE} (gs : Gs) (k : Slot) (h : j ≠ i) :
    (clearSlot i gs k).host_tbl j = gs.host_tbl j := by
  simp only [clearSlot]
  split
  · exact Gs.setBucket_of_ne gs _ h
  · rfl

theorem clearSlot_toGsRom (i : Fin HTBL_SIZE) (gs : Gs) (k : Slot) :
    (clearSlot i gs k).toGsRom = gs.toGsRom := by
  simp only [clearSlot]
  split <;> rfl

theorem clearSlot_self (i : Fin HTBL_SIZE) (gs : Gs) (k : Slot) :
    (clearSlot i gs k).host_tbl i
      = if (gs.host_tbl i).pri k = 3 then ((gs.host_tbl i).setSaddr k 0).setExhausted false
        else gs.host_tbl i := by
  simp only [clearSlot, pri_eq_static]
  split
  · exact Gs.setBucket_self gs i _
  · rfl

/-- The inner loop, over any list of slots. -/
theorem clearSlots_spec (i : Fin HTBL_SIZE) (ks : List Slot) (gs : Gs) :
    let gs' := ks.foldl (clearSlot i) gs
    gs'.toGsRom = gs.toGsRom
    ∧ (∀ j, j ≠ i → gs'.host_tbl j = gs.host_tbl j)
    ∧ (∀ k, (gs'.host_tbl i).saddr k
        = if k ∈ ks ∧ (gs.host_tbl i).pri k = 3 then 0 else (gs.host_tbl i).saddr k)
    ∧ (∀ k, (gs'.host_tbl i).pri k = (gs.host_tbl i).pri k)
    ∧ (gs'.host_tbl i).exhausted
        = ((gs.host_tbl i).exhausted && decide (∀ k ∈ ks, (gs.host_tbl i).pri k ≠ 3)) := by
  induction ks generalizing gs with
  | nil => simp
  | cons k ks ih =>
      obtain ⟨h1, h2, h3, h4, h5⟩ := ih (clearSlot i gs k)
      simp only [List.foldl_cons]
      have hpri : ∀ j, ((clearSlot i gs k).host_tbl i).pri j = (gs.host_tbl i).pri j := by
        intro j
        rw [clearSlot_self]
        split <;> simp
      refine ⟨h1.trans (clearSlot_toGsRom i gs k), ?_, ?_, fun j => (h4 j).trans (hpri j), ?_⟩
      · intro j hj
        rw [h2 j hj, clearSlot_of_ne gs k hj]
      · intro j
        rw [h3 j, hpri j, clearSlot_self]
        -- Control words survive the sweep, so whether a slot is static never changes.
        by_cases hk : (gs.host_tbl i).pri k = 3
        · by_cases hj : j = k
          · subst hj
            simp [hk]
          · simp [hk, hj]
        · by_cases hj : j = k
          · subst hj
            simp [hk]
          · simp [hk, hj]
      · simp only [h5, hpri]
        rw [clearSlot_self]
        by_cases hk : (gs.host_tbl i).pri k = 3
        · simp [hk]
        · simp [hk]

theorem clearBucket_spec (gs : Gs) (i : Fin HTBL_SIZE) :
    OnlyBucket i gs (clearBucket gs i)
    ∧ Swept (gs.host_tbl i) ((clearBucket gs i).host_tbl i) := by
  obtain ⟨h1, h2, h3, h4, h5⟩ := clearSlots_spec i (List.finRange HTBL_BKT_SZ) gs
  refine ⟨⟨h1, h2⟩, ?_, h4, ?_⟩
  · intro k
    rw [clearBucket, h3 k]
    simp
  · rw [clearBucket, h5]
    simp

/-- The outer loop, over any list of buckets without repetitions. -/
theorem clearBuckets_spec (is : List (Fin HTBL_SIZE)) (hnd : is.Nodup) (gs : Gs) :
    (is.foldl clearBucket gs).toGsRom = gs.toGsRom
    ∧ (∀ i, i ∈ is → Swept (gs.host_tbl i) ((is.foldl clearBucket gs).host_tbl i))
    ∧ (∀ i, i ∉ is → (is.foldl clearBucket gs).host_tbl i = gs.host_tbl i) := by
  induction is generalizing gs with
  | nil => simp
  | cons i is ih =>
      obtain ⟨hi, hnd⟩ := List.nodup_cons.mp hnd
      obtain ⟨h1, h2, h3⟩ := ih hnd (clearBucket gs i)
      obtain ⟨⟨hrom, hother⟩, hswept⟩ := clearBucket_spec gs i
      rw [List.foldl_cons]
      refine ⟨h1.trans hrom, ?_, ?_⟩
      · intro j hj
        by_cases hji : j = i
        · subst hji
          rw [h3 j hi]
          exact hswept
        · have hjs : j ∈ is := (List.mem_cons.mp hj).resolve_left hji
          have h := h2 j hjs
          rwa [hother j hji] at h
      · intro j hj
        obtain ⟨hji, hjs⟩ := not_or.mp (fun h => hj (List.mem_cons.mpr h))
        rw [h3 j hjs, hother j hji]

/-- **The sweep**, bucket by bucket. -/
theorem hostClear_spec (gs : Gs) :
    (hostClearStaticallyAuthorized gs).toGsRom = gs.toGsRom
    ∧ ∀ i, Swept (gs.host_tbl i) ((hostClearStaticallyAuthorized gs).host_tbl i) := by
  rw [hostClearStaticallyAuthorized]
  obtain ⟨h1, h2, -⟩ := clearBuckets_spec (List.finRange HTBL_SIZE) (List.nodup_finRange _) gs
  exact ⟨h1, fun i => h2 i (List.mem_finRange i)⟩

end Ntfw
