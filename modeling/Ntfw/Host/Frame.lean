import Ntfw.Host.Insert

set_option autoImplicit false

/-! # What an insertion leaves alone

The lock bit and the exhausted flag are bit 31 of the first two control words, so every write
to a field of slot 0 or 1 is a read-modify-write of a word that carries one of them. The
section under the lock is followed write by write: each touches one slot's fields or one of
the two bits, and the bit-field laws say that it touches nothing else. -/

namespace Ntfw

/-! ## One entry -/

/-- Slot `j` holds the same entry in both buckets: address, age, class and pool index. -/
structure SameEntry (htb htb' : HtBucket) (j : Slot) : Prop where
  saddr : htb'.saddr j = htb.saddr j
  age : (htb'.ctrl j).age = (htb.ctrl j).age
  pri : (htb'.ctrl j).pri = (htb.ctrl j).pri
  ptr : (htb'.ctrl j).ptr = (htb.ctrl j).ptr

theorem SameEntry.refl (htb : HtBucket) (j : Slot) : SameEntry htb htb j := ⟨rfl, rfl, rfl, rfl⟩

theorem SameEntry.trans {htb htb' htb'' : HtBucket} {j : Slot} (h : SameEntry htb htb' j)
    (h' : SameEntry htb' htb'' j) : SameEntry htb htb'' j :=
  ⟨h'.saddr.trans h.saddr, h'.age.trans h.age, h'.pri.trans h.pri, h'.ptr.trans h.ptr⟩

/-- Bit 31 of slot `j`'s control word. -/
def HtBucket.reserved (htb : HtBucket) (j : Slot) : BitVec 1 := (htb.ctrl j).reserved

/-- A bucket whose slots other than `k` hold the same entries, bit 31 of slot `k` included. -/
structure OnlySlot (k : Slot) (htb htb' : HtBucket) : Prop where
  entry : ∀ j, j ≠ k → SameEntry htb htb' j
  reserved : ∀ j, htb'.reserved j = htb.reserved j

namespace HtBucket

variable (htb : HtBucket) (k j : Slot)

theorem setLocked_entry (b : Bool) : SameEntry htb (htb.setLocked b) j := by
  by_cases hj : j = 0
  · subst hj
    exact ⟨rfl, by simp [setLocked], by simp [setLocked], by simp [setLocked]⟩
  · exact ⟨rfl, by simp [setLocked, hj], by simp [setLocked, hj], by simp [setLocked, hj]⟩

theorem setExhausted_entry (b : Bool) : SameEntry htb (htb.setExhausted b) j := by
  by_cases hj : j = 1
  · subst hj
    exact ⟨rfl, by simp [setExhausted], by simp [setExhausted], by simp [setExhausted]⟩
  · exact ⟨rfl, by simp [setExhausted, hj], by simp [setExhausted, hj], by simp [setExhausted, hj]⟩

theorem setLocked_reserved (b : Bool) {j : Slot} (hj : j ≠ 0) :
    (htb.setLocked b).reserved j = htb.reserved j := by simp [reserved, setLocked, hj]

theorem setExhausted_reserved (b : Bool) {j : Slot} (hj : j ≠ 1) :
    (htb.setExhausted b).reserved j = htb.reserved j := by simp [reserved, setExhausted, hj]

/-- A write to slot `k`'s control word that spares its bit 31. -/
theorem setCtrl_onlySlot {c : HostCtrl} (h : c.reserved = (htb.ctrl k).reserved) :
    OnlySlot k htb (htb.setCtrl k c) := by
  refine ⟨fun j hj => ?_, fun j => ?_⟩
  · have hc : (htb.setCtrl k c).ctrl j = htb.ctrl j := by simp [hj]
    exact ⟨rfl, by rw [hc], by rw [hc], by rw [hc]⟩
  · by_cases hj : j = k
    · subst hj
      simp [reserved, h]
    · simp [reserved, hj]

theorem setSaddr_onlySlot (a : be32) : OnlySlot k htb (htb.setSaddr k a) := by
  refine ⟨fun j hj => ⟨?_, rfl, rfl, rfl⟩, fun j => rfl⟩
  rw [setSaddr_saddr, Function.update_of_ne hj]

end HtBucket

theorem OnlySlot.refl (k : Slot) (htb : HtBucket) : OnlySlot k htb htb :=
  ⟨fun j _ => SameEntry.refl htb j, fun _ => rfl⟩

theorem OnlySlot.trans {k : Slot} {htb htb' htb'' : HtBucket} (h : OnlySlot k htb htb')
    (h' : OnlySlot k htb' htb'') : OnlySlot k htb htb'' :=
  ⟨fun j hj => (h.entry j hj).trans (h'.entry j hj),
    fun j => (h'.reserved j).trans (h.reserved j)⟩

theorem raisePri_onlySlot (htb : HtBucket) (k : Slot) (p : u32) :
    OnlySlot k htb (htb.raisePri k p) := by
  unfold HtBucket.raisePri
  split
  · exact htb.setCtrl_onlySlot k (HostCtrl.reserved_setPri _ _)
  · exact OnlySlot.refl k htb

theorem initEntry_onlySlot (htb : HtBucket) (k : Slot) (a : be32) (tsec : u16) (p : u32) :
    OnlySlot k htb (htb.initEntry k a tsec p) := by
  have h1 := htb.setSaddr_onlySlot k a
  have h2 := (htb.setSaddr k a).setCtrl_onlySlot k
    (HostCtrl.reserved_setAge ((htb.setSaddr k a).ctrl k) (tsec.setWidth 32))
  exact (h1.trans h2).trans (HtBucket.setCtrl_onlySlot _ k (HostCtrl.reserved_setPri _ _))

theorem initPtr_onlySlot (htb : HtBucket) (k : Slot) (ptr : u32) :
    OnlySlot k htb (htb.initPtr k ptr) :=
  htb.setCtrl_onlySlot k (HostCtrl.reserved_setPtr _ _)

/-! ## The lock bit and the exhausted flag -/

/-- Releasing the lock that was taken leaves the bucket as it was. -/
theorem setLocked_setLocked {htb : HtBucket} (h : htb.locked = false) :
    (htb.setLocked true).setLocked false = htb := by
  have hbit : (htb.ctrl 0).reserved = BitVec.ofBool false := by
    have hne : (htb.ctrl 0).reserved ≠ 1 := by simpa [HtBucket.locked] using h
    revert hne
    generalize (htb.ctrl 0).reserved = r
    revert r
    decide
  have hword : ((htb.ctrl 0).setReserved (BitVec.ofBool true)).setReserved (BitVec.ofBool false)
      = htb.ctrl 0 := by
    calc ((htb.ctrl 0).setReserved (BitVec.ofBool true)).setReserved (BitVec.ofBool false)
        = (htb.ctrl 0).setReserved (BitVec.ofBool false) :=
          HostCtrl.reservedField.set_set (htb.ctrl 0) _ _
      _ = (htb.ctrl 0).setReserved (htb.ctrl 0).reserved := by rw [hbit]
      _ = htb.ctrl 0 := HostCtrl.reservedField.set_get (htb.ctrl 0)
  unfold HtBucket.setLocked
  simp only [HtBucket.setCtrl, Function.update_self, Function.update_idem]
  rw [hword, Function.update_eq_self]

/-- Taking a slot writes the exhausted flag and nothing else. -/
theorem take_entry (htb : HtBucket) (k j : Slot) : SameEntry htb (htb.take k) j := by
  unfold HtBucket.take
  split
  · exact htb.setExhausted_entry j true
  · exact SameEntry.refl htb j

theorem take_reserved (htb : HtBucket) (k : Slot) {j : Slot} (hj : j ≠ 1) :
    (htb.take k).reserved j = htb.reserved j := by
  unfold HtBucket.take
  split
  · exact htb.setExhausted_reserved true hj
  · rfl

/-! ## The section under the lock -/

/-- What a call that returns `r` may change of a bucket. -/
structure TouchesEntry (htb : HtBucket) (r : Option Slot) (htb' : HtBucket) : Prop where
  /-- The lock is released. -/
  unlocked : htb'.locked = false
  /-- The slots that are not returned keep their entries. -/
  entry : ∀ j, r ≠ some j → SameEntry htb htb' j
  /-- Of the bits 31, only the exhausted flag and the lock bit may change, in any slot. -/
  reserved : ∀ j, j ≠ 0 → j ≠ 1 → htb'.reserved j = htb.reserved j
  /-- The flag is not lowered. -/
  exhausted : htb.exhausted = true → htb'.exhausted = true
  /-- A call that fails leaves the bucket as it was. -/
  failed : r = none → htb' = htb

theorem TouchesEntry.refl {htb : HtBucket} (h : htb.locked = false) (r : Option Slot) :
    TouchesEntry htb r htb :=
  ⟨h, fun j _ => SameEntry.refl htb j, fun _ _ _ => rfl, fun he => he, fun _ => rfl⟩

/-- A change of one slot and the flag under the lock. -/
theorem touchesEntry_of_locked {htb htb' : HtBucket} {k : Slot}
    (hentry : ∀ j, j ≠ k → SameEntry (htb.setLocked true) htb' j)
    (hres : ∀ j, j ≠ 1 → htb'.reserved j = (htb.setLocked true).reserved j)
    (hexh : htb.exhausted = true → htb'.exhausted = true) :
    TouchesEntry htb (some k) (htb'.setLocked false) := by
  refine ⟨htb'.setLocked_locked false, fun j hj => ?_, fun j h0 h1 => ?_, fun he => ?_,
    fun hc => by cases hc⟩
  · have hjk : j ≠ k := fun hc => hj (congrArg some hc.symm)
    exact ((htb.setLocked_entry j true).trans (hentry j hjk)).trans (htb'.setLocked_entry j false)
  · rw [htb'.setLocked_reserved false h0, hres j h1, htb.setLocked_reserved true h0]
  · rw [HtBucket.setLocked_exhausted]
    exact hexh he

/-- **The section touches one entry and releases the lock.** -/
theorem lockedInsert_touches {htb : HtBucket} (hlock : htb.locked = false) (tsec : u16)
    (a : be32) (p ptr : u32) :
    TouchesEntry htb (lockedInsert htb tsec a p ptr).1 (lockedInsert htb tsec a p ptr).2 := by
  unfold lockedInsert
  cases hk : probeBucket htb a with
  | some k =>
      have hraise := raisePri_onlySlot (htb.setLocked true) k p
      refine touchesEntry_of_locked hraise.entry (fun j _ => hraise.reserved j) fun he => ?_
      rw [raisePri_exhausted, HtBucket.setLocked_exhausted]
      exact he
  | none =>
      cases ha : allocSlot htb tsec with
      | none =>
          simp only [setLocked_setLocked hlock]
          exact TouchesEntry.refl hlock none
      | some k =>
          -- The flag is raised first; the entry is then written beside it.
          have hinit := (initEntry_onlySlot ((htb.setLocked true).take k) k a tsec p).trans
            (initPtr_onlySlot _ k ptr)
          refine touchesEntry_of_locked (fun j hj => ?_) (fun j hj => ?_) fun he => ?_
          · exact (take_entry (htb.setLocked true) k j).trans (hinit.entry j hj)
          · rw [hinit.reserved j, take_reserved _ k hj]
          · rw [initPtr_exhausted, initEntry_exhausted, take_exhausted,
              HtBucket.setLocked_exhausted, he, Bool.true_or]

/-! ## The two insertions -/

/-- What a call on bucket `b` that returns `r` may change of the state: one entry of the bucket,
and, if it fails, nothing at all but the statistics. -/
structure CallFrame (b : Fin HTBL_SIZE) (gs : Gs) (r : Option Slot) (gs' : Gs) : Prop where
  touches : TouchesEntry (gs.host_tbl b) r (gs'.host_tbl b)
  other : ∀ c, c ≠ b → gs'.host_tbl c = gs.host_tbl c
  failed : r = none → SameRest gs gs'

/-- A call that does not return waits for the pool to grow. -/
theorem hostInsert_error {env : Env} {gs : Gs} {b : Fin HTBL_SIZE} {a : be32} {e : Stuck}
    (h : hostInsert env gs b a = .error e) : gs.hp_true_sz ≤ gs.hp_size + 1 := by
  simp only [hostInsert] at h
  split at h
  · cases h
  split at h
  · cases h
  split at h
  · cases h
  · rw [Except.bind_eq_error] at h
    rcases h with h | ⟨x, -, h⟩
    · have hbehind := hostAllocate_error h
      exact hbehind
    · cases h

/-- An authorised insertion keeps to its entry. -/
theorem hostInsertAuthorized_frame (env : Env) (gs : Gs) (b : Fin HTBL_SIZE) (a : be32) (p : u32)
    (hlock : (gs.host_tbl b).locked = false) :
    CallFrame b gs (hostInsertAuthorized env gs b a p).1 (hostInsertAuthorized env gs b a p).2 := by
  obtain ⟨hframe, hr, hb, -, hrest⟩ := hostInsertAuthorized_section env gs b a p
  refine ⟨?_, hframe.other, hrest⟩
  rw [hr, hb]
  exact lockedInsert_touches hlock _ a p 0

/-- **An insertion touches one entry and releases the lock.** Whatever an unlocked bucket holds,
both insertions leave its lock bit clear and every entry but that of the slot they return
unchanged; the exhausted flag is at most raised; and a call that returns no slot changes
nothing. The only path of `host_insert` that does not end waits for a pool that is behind. -/
theorem insertions_touch_one_entry (env : Env) (gs : Gs) (b : Fin HTBL_SIZE) (a : be32)
    (hlock : (gs.host_tbl b).locked = false) :
    (∀ r gs', hostInsert env gs b a = .ok (r, gs') → CallFrame b gs r gs')
    ∧ (∀ e, hostInsert env gs b a = .error e → gs.hp_true_sz ≤ gs.hp_size + 1)
    ∧ ∀ p, CallFrame b gs (hostInsertAuthorized env gs b a p).1
        (hostInsertAuthorized env gs b a p).2 := by
  refine ⟨?_, fun e he => hostInsert_error he, fun p =>
    hostInsertAuthorized_frame env gs b a p hlock⟩
  intro r gs' h
  obtain ⟨hframe, hcase, hrest⟩ := hostInsert_section h
  refine ⟨?_, hframe.other, hrest⟩
  rcases hcase with ⟨-, -, hb⟩ | ⟨-, hr, hb, -⟩
  · rw [hb]
    exact TouchesEntry.refl hlock r
  · rw [hb, hr]
    exact lockedInsert_touches hlock _ a _ _

/-- The addresses of seven hosts, the bucket of them all, and an eighth address of it. -/
def namedAddrs : Fin 7 → be32 :=
  ![0x6da78, 0x72ecc, 0xe5d98, 0xeb1ec, 0x15e0b8, 0x16350c, 0x1d63d8]
def namedBucket : Fin HTBL_SIZE := hostFetchBucket 0x6da78
def guestAddr : be32 := 0x1db82c

/-- The seven are in the bucket, and the pool has room. -/
def namedHosts : Gs :=
  (List.finRange 7).foldl
    (fun gs i =>
      (hostInsertAuthorized ⟨0, false, 0⟩ gs namedBucket (namedAddrs i) HOST_PRI_STATIC).2)
    { Gs.zero with hp_true_sz := 64 }

/-- The frame of insertions into a bucket that holds hosts, of which they take the last slot. -/
theorem insertions_touch_one_entry_named :
    (∀ i, hostFetchBucket (namedAddrs i) = namedBucket
      ∧ (namedHosts.host_tbl namedBucket).saddr i.castSucc = namedAddrs i)
    ∧ (namedHosts.host_tbl namedBucket).locked = false
    ∧ (∀ r gs', hostInsert ⟨0, false, 0⟩ namedHosts namedBucket guestAddr = .ok (r, gs') →
        CallFrame namedBucket namedHosts r gs')
    ∧ (∀ e, hostInsert ⟨0, false, 0⟩ namedHosts namedBucket guestAddr = .error e →
        namedHosts.hp_true_sz ≤ namedHosts.hp_size + 1)
    ∧ ∀ p, CallFrame namedBucket namedHosts
        (hostInsertAuthorized ⟨0, false, 0⟩ namedHosts namedBucket guestAddr p).1
        (hostInsertAuthorized ⟨0, false, 0⟩ namedHosts namedBucket guestAddr p).2 := by
  have hlock : (namedHosts.host_tbl namedBucket).locked = false := by decide +kernel
  exact ⟨by decide +kernel, hlock, insertions_touch_one_entry _ _ _ _ hlock⟩

end Ntfw
