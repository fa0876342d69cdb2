import Ntfw.Host.Insert
import Ntfw.Ntfe.Locking

set_option autoImplicit false

/-! # Insertions under interleaving

What `lockedInsert` says of an insertion that nobody interrupts, the accesses of the section do
in every interleaving: the lock keeps sections apart although every write inside them, and the
release itself, is a load and a store to words they share with it. A lookup takes no lock. What
it can rely on is `Guarantee`: between any two accesses, an entry that was authorised when the
section began is there. -/

namespace Ntfw.Locking

open SpinLock Transition

/-! ## Buckets as memory -/

@[simp] theorem bucket_words (htb : HtBucket) : bucket (words htb) = htb := rfl

@[simp] theorem words_bucket (m : Memory BucketWord u32) : words (bucket m) = m := by
  funext l
  cases l with
  | saddr k => rfl
  | ctrl k => rfl

@[simp] theorem words_saddr (htb : HtBucket) (k : Slot) : words htb (.saddr k) = htb.saddr k := rfl

@[simp] theorem words_ctrl (htb : HtBucket) (k : Slot) : words htb (.ctrl k) = htb.ctrl k := rfl

@[simp] theorem update_saddr (htb : HtBucket) (k : Slot) (w : u32) :
    Function.update (words htb) (.saddr k) w = words (htb.setSaddr k w) := by
  funext l
  cases l with
  | saddr j =>
      by_cases hj : j = k
      · simp [hj]
      · simp [hj]
  | ctrl j => simp

@[simp] theorem update_ctrl (htb : HtBucket) (k : Slot) (w : u32) :
    Function.update (words htb) (.ctrl k) w = words (htb.setCtrl k w) := by
  funext l
  cases l with
  | saddr j => simp
  | ctrl j =>
      by_cases hj : j = k
      · simp [hj]
      · simp [hj]

/-! ## The lock bit -/

theorem reserved_eq_one (c : HostCtrl) : (c.reserved == 1) = c.getLsbD 31 := by
  have hbit : c.reserved.getLsbD 0 = c.getLsbD 31 := HostCtrl.reservedField.getLsbD_get c 0
  rw [← hbit]
  generalize c.reserved = r
  revert r
  decide

theorem getLsbD_setReserved (c : HostCtrl) (b : Bool) (i : Nat) :
    (c.setReserved (BitVec.ofBool b)).getLsbD i = if i = 31 then b else c.getLsbD i := by
  refine (HostCtrl.reservedField.getLsbD_set c (BitVec.ofBool b) i).trans ?_
  by_cases hi : i = 31
  · subst hi
    cases b <;> rfl
  · have hout : ¬ (31 ≤ i ∧ i < 31 + 1) := by omega
    rw [if_neg hi]
    exact if_neg hout

theorem or_lockMask (c : HostCtrl) :
    c ||| lockMask HTB_LOCK_BIT = c.setReserved (BitVec.ofBool true) := by
  refine BitVec.eq_of_getLsbD_eq fun i _ => ?_
  have hbit : HTB_LOCK_BIT.val = 31 := rfl
  rw [BitVec.getLsbD_or, getLsbD_lockMask, getLsbD_setReserved, hbit]
  by_cases hi : i = 31
  · simp [hi]
  · simp [hi]

theorem and_not_lockMask (c : HostCtrl) :
    c &&& ~~~lockMask HTB_LOCK_BIT = c.setReserved (BitVec.ofBool false) := by
  refine BitVec.eq_of_getLsbD_eq fun i hi => ?_
  have hbit : HTB_LOCK_BIT.val = 31 := rfl
  rw [BitVec.getLsbD_and, BitVec.getLsbD_not, getLsbD_lockMask, getLsbD_setReserved, hbit]
  by_cases hi' : i = 31
  · simp [hi']
  · simp [hi, hi']

theorem acquire_words (htb : HtBucket) :
    bucketLock.acquire (words htb) = words (htb.setLocked true) := by
  rw [Lock.acquire]
  exact (update_ctrl htb 0 _).trans (congrArg (fun c => words (htb.setCtrl 0 c))
    (or_lockMask (htb.ctrl 0)))

theorem release_words (htb : HtBucket) :
    bucketLock.release (words htb) = words (htb.setLocked false) := by
  rw [Lock.release]
  exact (update_ctrl htb 0 _).trans (congrArg (fun c => words (htb.setCtrl 0 c))
    (and_not_lockMask (htb.ctrl 0)))

theorem taken_words (htb : HtBucket) : bucketLock.Taken (words htb) ↔ htb.locked = true := by
  rw [Lock.Taken, HtBucket.locked, reserved_eq_one]
  exact Bool.eq_iff_iff.mp (lockHeld_eq HTB_LOCK_BIT (htb.ctrl 0))

/-! ## The accesses of a section -/

section

variable {P : Memory BucketWord u32 → Prop}

@[simp] theorem run_probe (a : be32) (htb : HtBucket) :
    (probe a).run (words htb) = (probeBucket htb a, words htb) := by
  rw [probe, Prog.run_bind, Prog.run_gather, Prog.run_pure]
  exact congrArg (·, words htb) (@probeBucket_congr htb _ rfl a)

theorem always_probe (a : be32) (htb : HtBucket) :
    (probe a).Always P (words htb) ↔ P (words htb) := by
  rw [probe, Prog.always_bind, Prog.always_gather, Prog.run_gather, Prog.always_pure, and_self_iff]

theorem run_allocateFree (htb : HtBucket) (he : htb.exhausted = false) :
    allocateFree.run (words htb)
      = (probeBucket htb 0, words ((probeBucket htb 0).elim htb htb.take)) := by
  rw [allocateFree, Prog.run_bind, run_probe]
  cases hk : probeBucket htb 0 with
  | none => simp
  | some k =>
      by_cases h7 : k = 7
      · simp [h7, HtBucket.take, he, HtBucket.setExhausted]
      · simp [h7, HtBucket.take]

theorem always_allocateFree {htb : HtBucket} (h : P (words htb))
    (htake : ∀ k, probeBucket htb 0 = some k → P (words (htb.take k)))
    (he : htb.exhausted = false) : allocateFree.Always P (words htb) := by
  rw [allocateFree, Prog.always_bind, always_probe, run_probe]
  refine ⟨h, ?_⟩
  cases hk : probeBucket htb 0 with
  | none => exact h
  | some k =>
      by_cases h7 : k = 7
      · have ht := htake k hk
        rw [HtBucket.take, if_pos ⟨by simp [he], h7⟩] at ht
        simp only [h7, if_true, Prog.always_bind, Prog.always_modify, Prog.always_pure,
          Prog.run_modify, words_ctrl, update_ctrl]
        exact ⟨⟨h, ht⟩, ht⟩
      · simpa [h7, Prog.always_pure] using h

theorem run_allocateEvict (htb : HtBucket) (tsec : u16) (he : htb.exhausted = true) :
    (allocateEvict tsec HOST_PRI_NONE).run (words htb) = (allocSlot htb tsec, words htb) := by
  have hlt : HOST_PRI_NONE < HostCtrl.pri (htb.ctrl (evictionCandidate htb tsec))
      ↔ htb.pri (evictionCandidate htb tsec) ≠ 0 := Nat.pos_iff_ne_zero
  rw [allocateEvict, Prog.run_bind, Prog.run_gather]
  show (if HOST_PRI_NONE < HostCtrl.pri (htb.ctrl (evictionCandidate htb tsec)) then none
    else some (evictionCandidate htb tsec), words htb) = _
  by_cases hk : htb.pri (evictionCandidate htb tsec) = 0
  · simp [allocSlot, he, hk, hlt]
  · simp [allocSlot, he, hk, hlt]

theorem always_allocateEvict (htb : HtBucket) (tsec : u16) (p : u32) :
    (allocateEvict tsec p).Always P (words htb) ↔ P (words htb) := by
  simp only [allocateEvict, Prog.always_bind, Prog.always_gather, Prog.run_gather,
    Prog.always_fetch, Prog.run_fetch, Prog.always_pure, and_self]

/-- **`allocate`** by its accesses takes the slot that it takes as one step. -/
theorem run_allocate (htb : HtBucket) (tsec : u16) :
    (allocate tsec HOST_PRI_NONE).run (words htb)
      = (allocSlot htb tsec, words ((allocSlot htb tsec).elim htb htb.take)) := by
  show (if HostCtrl.reserved (htb.ctrl 1) = 1 then allocateEvict tsec HOST_PRI_NONE
    else allocateFree).run (words htb) = _
  cases he : htb.exhausted with
  | false =>
      rw [if_neg (by simpa [HtBucket.exhausted] using he), run_allocateFree htb he,
        allocSlot_of_not_exhausted he]
  | true =>
      rw [if_pos (by simpa [HtBucket.exhausted] using he), run_allocateEvict htb tsec he]
      cases allocSlot htb tsec with
      | none => rfl
      | some k => simp [HtBucket.take, he]

theorem always_allocate {htb : HtBucket} {tsec : u16} (h : P (words htb))
    (htake : ∀ k, allocSlot htb tsec = some k → P (words (htb.take k))) :
    (allocate tsec HOST_PRI_NONE).Always P (words htb) := by
  refine ⟨h, ?_⟩
  show (if HostCtrl.reserved (htb.ctrl 1) = 1 then allocateEvict tsec HOST_PRI_NONE
    else allocateFree).Always P (words htb)
  cases he : htb.exhausted with
  | false =>
      rw [allocSlot_of_not_exhausted he] at htake
      rw [if_neg (by simpa [HtBucket.exhausted] using he)]
      exact always_allocateFree h htake he
  | true =>
      rw [if_pos (by simpa [HtBucket.exhausted] using he), always_allocateEvict]
      exact h

/-- The entry of a new host appears field by field. -/
theorem run_initEntry (htb : HtBucket) (k : Slot) (a : be32) (tsec : u16) (p ptr : u32) :
    (initEntry k a tsec p ptr).run (words htb)
      = ((), words ((htb.initEntry k a tsec p).initPtr k ptr)) := by
  simp only [initEntry, Prog.run_bind, Prog.run_put, Prog.run_modify, update_saddr, update_ctrl,
    words_ctrl]
  rfl

end

/-! ## What a section shows on its way -/

/-- The bucket is locked and differs from what it was only in the slot `k`, where the address `a`
and after it the priority `p` may have been written. -/
structure Filling (htb htb' : HtBucket) (k : Slot) (a : be32) (p : Nat) : Prop where
  locked : htb'.locked = true
  saddr : htb'.saddr = htb.saddr ∨ htb'.saddr = Function.update htb.saddr k a
  other : ∀ j, j ≠ k → htb'.pri j = htb.pri j
  pri : htb'.pri k = htb.pri k ∨ htb'.saddr k = a ∧ htb'.pri k = p

section

variable {htb htb' : HtBucket} {k : Slot} {a : be32} {p : Nat}

theorem locked_setCtrl {c : HostCtrl} (h : c.reserved = (htb'.ctrl k).reserved) :
    (htb'.setCtrl k c).locked = htb'.locked := by
  rw [HtBucket.locked, HtBucket.locked, HtBucket.setCtrl_ctrl]
  by_cases hk : (0 : Slot) = k
  · rw [hk, Function.update_self, h]
  · rw [Function.update_of_ne hk]

/-- A change of a control word beside its priority and the bit of the lock shows nothing. -/
theorem Filling.setCtrl (h : Filling htb htb' k a p) {c : HostCtrl}
    (hres : c.reserved = (htb'.ctrl k).reserved)
    (hpri : c.pri = (htb'.ctrl k).pri) : Filling htb (htb'.setCtrl k c) k a p := by
  have hsame : ∀ j, (htb'.setCtrl k c).pri j = htb'.pri j := by
    intro j
    rw [HtBucket.setCtrl_pri]
    by_cases hj : j = k
    · rw [if_pos hj, hpri, hj]
      rfl
    · rw [if_neg hj]
  refine ⟨(locked_setCtrl hres).trans h.locked, h.saddr, fun j hj => ?_, ?_⟩
  · rw [hsame j, h.other j hj]
  · rw [hsame k]
    exact h.pri

theorem filling_setLocked (htb : HtBucket) (k : Slot) (a : be32) (p : Nat) :
    Filling htb (htb.setLocked true) k a p :=
  ⟨htb.setLocked_locked true, .inl rfl, fun j _ => htb.setLocked_pri true j,
    .inl (htb.setLocked_pri true k)⟩

theorem Filling.take (h : Filling htb htb' k a p) : Filling htb (htb'.take k) k a p := by
  have hlocked : (htb'.take k).locked = htb'.locked := by
    rw [HtBucket.take]
    split
    · have h01 : (0 : Slot) ≠ 1 := by decide
      simp [HtBucket.locked, HtBucket.setExhausted, h01]
    · rfl
  refine ⟨hlocked.trans h.locked, ?_, fun j hj => ?_, ?_⟩
  · rw [take_saddr]
    exact h.saddr
  · rw [take_pri, h.other j hj]
  · rw [take_pri, take_saddr]
    exact h.pri

theorem Filling.setSaddr (h : Filling htb htb' k a p) : Filling htb (htb'.setSaddr k a) k a p := by
  refine ⟨h.locked, .inr ?_, h.other, ?_⟩
  · rw [HtBucket.setSaddr_saddr]
    rcases h.saddr with hs | hs
    · rw [hs]
    · rw [hs, Function.update_idem]
  · rw [HtBucket.setSaddr_pri, HtBucket.setSaddr_saddr, Function.update_self]
    rcases h.pri with hp | hp
    · exact .inl hp
    · exact .inr ⟨rfl, hp.2⟩

theorem Filling.setPri {p : u32} (h : Filling htb htb' k a p.toNat) (hp : p ≤ 3)
    (hk : htb'.saddr k = a) :
    Filling htb (htb'.setCtrl k ((htb'.ctrl k).setPri p)) k a p.toNat := by
  refine ⟨(locked_setCtrl (by simp)).trans h.locked, h.saddr, fun j hj => ?_, .inr ⟨hk, ?_⟩⟩
  · rw [HtBucket.setCtrl_pri, if_neg hj, h.other j hj]
  · rw [HtBucket.setCtrl_pri, if_pos rfl, HostCtrl.pri_setPri_of_le _ _ hp]

end

section

variable {P : Memory BucketWord u32 → Prop} {htb : HtBucket} {k : Slot} {a : be32} {tsec : u16}

/-- Field by field, only the new entry is filled in. -/
theorem always_initEntry {b : HtBucket} {p : u32} (ptr : u32) (hp : p ≤ 3)
    (hb : Filling htb b k a p.toNat) (hP : ∀ b, Filling htb b k a p.toNat → P (words b)) :
    (initEntry k a tsec p ptr).Always P (words b) := by
  have h1 := hb.setSaddr
  have hk : (b.setSaddr k a).saddr k = a := Function.update_self _ _ _
  have h2 := h1.setCtrl (c := ((b.setSaddr k a).ctrl k).setAge (tsec.setWidth 32)) (by simp)
    (by simp)
  have h3 := h2.setPri hp hk
  have h4 := h3.setCtrl (c := HostCtrl.setPtr _ ptr) (HostCtrl.reserved_setPtr _ _)
    (HostCtrl.pri_setPtr _ _)
  simp only [initEntry, Prog.always_bind, Prog.always_put, Prog.always_modify,
    Prog.run_put, Prog.run_modify, update_saddr, update_ctrl, words_ctrl]
  exact ⟨⟨hP b hb, hP _ h1⟩, ⟨hP _ h1, hP _ h2⟩, ⟨hP _ h2, hP _ h3⟩, hP _ h3, hP _ h4⟩

/-- **On the way to a new entry** the bucket shows what it was, up to the slot that is taken. -/
theorem always_enter {p : u32} (ptr : u32) (hp : p ≤ 3) (h : P (words (htb.setLocked true)))
    (hP : ∀ k b, allocSlot htb tsec = some k → Filling htb b k a p.toNat → P (words b)) :
    (enter a tsec p ptr).Always P (words (htb.setLocked true)) := by
  have htake : ∀ k, allocSlot (htb.setLocked true) tsec = some k →
      Filling htb ((htb.setLocked true).take k) k a p.toNat :=
    fun k _ => (filling_setLocked htb k a p.toNat).take
  rw [enter, Prog.always_bind]
  refine ⟨always_allocate h fun k hk => hP k _ (allocSlot_setLocked htb true tsec ▸ hk)
    (htake k hk), ?_⟩
  rw [run_allocate]
  cases hk : allocSlot (htb.setLocked true) tsec with
  | none => exact h
  | some k =>
      have hfill := htake k hk
      rw [allocSlot_setLocked] at hk
      have hdone : (initEntry k a tsec p ptr).Always P (words ((htb.setLocked true).take k)) :=
        always_initEntry ptr hp hfill fun b => hP k b hk
      exact Prog.always_bind.mpr ⟨hdone, hdone.last⟩

theorem run_enter (htb : HtBucket) (a : be32) (tsec : u16) (p ptr : u32) :
    (enter a tsec p ptr).run (words htb) = (allocSlot htb tsec, words
      ((allocSlot htb tsec).elim htb fun k => ((htb.take k).initEntry k a tsec p).initPtr k ptr)) := by
  rw [enter, Prog.run_bind, run_allocate]
  cases allocSlot htb tsec with
  | none => rfl
  | some k =>
      show ((initEntry k a tsec p ptr) >>= fun _ => pure (some k)).run _ = _
      rw [Prog.run_bind, Option.elim_some, run_initEntry]
      rfl

theorem run_raisePri (htb : HtBucket) (k : Slot) (p : u32) :
    (raisePri k p).run (words htb) = ((), words (htb.raisePri k p)) := by
  show (if HostCtrl.pri (htb.ctrl k) < p then Prog.modify (.ctrl k) (HostCtrl.setPri · p)
    else pure () : BucketProg Unit).run (words htb) = _
  rw [HtBucket.raisePri]
  split
  · rw [Prog.run_modify, words_ctrl, update_ctrl]
  · rfl

theorem always_raisePri {b : HtBucket} {p : u32} (h : P (words b))
    (hP : (b.ctrl k).pri < p → P (words (b.setCtrl k ((b.ctrl k).setPri p)))) :
    (raisePri k p).Always P (words b) := by
  refine ⟨h, ?_⟩
  show (if HostCtrl.pri (b.ctrl k) < p then Prog.modify (.ctrl k) (HostCtrl.setPri · p)
    else pure () : BucketProg Unit).Always P (words b)
  split
  · rename_i hlt
    rw [Prog.always_modify, words_ctrl, update_ctrl]
    exact ⟨h, hP hlt⟩
  · exact h

end

/-! ## What others can rely on -/

/-- The operation gives the address the priority. -/
def Op.Authorizes : Op → be32 → Nat → Prop
  | .insert _ _ _, _, _ => False
  | .insertAuthorized a p _, a', p' => a' = a ∧ p' = p.val.toNat

/-- What every memory on the way of a section that began at `A` has of `A`. -/
structure Guarantee (o : Op) (A m : Memory BucketWord u32) : Prop where
  /-- An authorised entry stays, and is not lowered. -/
  kept : ∀ k, (bucket A).saddr k ≠ 0 → (bucket A).pri k ≠ 0 →
    (bucket m).saddr k = (bucket A).saddr k ∧ (bucket A).pri k ≤ (bucket m).pri k
  /-- An address that is in one slot is in no other. -/
  single : ∀ k, (bucket m).saddr k = (bucket A).saddr k →
    (∀ j, j ≠ k → (bucket A).saddr j ≠ (bucket A).saddr k) →
    ∀ j, j ≠ k → (bucket m).saddr j ≠ (bucket A).saddr k
  /-- A priority is the operation's, or it was in the slot, with the address or with none. -/
  origin : ∀ k, (bucket m).pri k ≠ 0 →
    o.Authorizes ((bucket m).saddr k) ((bucket m).pri k)
    ∨ (bucket A).pri k = (bucket m).pri k
      ∧ ((bucket A).saddr k = (bucket m).saddr k ∨ (bucket A).saddr k = 0)

section

variable {o : Op} {htb b : HtBucket} {k : Slot} {a : be32}

theorem guarantee_of_same (hs : b.saddr = htb.saddr) (hp : ∀ j, b.pri j = htb.pri j) :
    Guarantee o (words htb) (words b) := by
  constructor
  · intro j _ _
    rw [bucket_words, bucket_words, hs, hp j]
    exact ⟨rfl, Nat.le_refl _⟩
  · intro j _ hsingle
    rw [bucket_words, hs]
    exact hsingle
  · intro j _
    rw [bucket_words, bucket_words, hs, hp j]
    exact .inr ⟨rfl, .inl rfl⟩

/-- A slot that is filled was free, or held an entry that was not authorised. -/
theorem Filling.guarantee {tsec : u16} {p : Nat} (h : Filling htb b k a p)
    (hk : allocSlot htb tsec = some k) (ha : probeBucket htb a = none)
    (ho : p ≠ 0 → o.Authorizes a p) : Guarantee o (words htb) (words b) := by
  have hslot : htb.saddr k = 0 ∨ htb.pri k = 0 := by
    cases he : htb.exhausted with
    | false =>
        rw [allocSlot_of_not_exhausted he] at hk
        exact .inl (probeBucket_isFirst hk).1
    | true => exact .inr (pri_of_allocSlot he hk)
  have hother : ∀ j, j ≠ k → b.saddr j = htb.saddr j := by
    intro j hj
    rcases h.saddr with hs | hs
    · rw [hs]
    · rw [hs, Function.update_of_ne hj]
  constructor
  · intro j hj0 hjp
    rw [bucket_words] at hj0 hjp ⊢
    rw [bucket_words]
    by_cases hj : j = k
    · subst hj
      rcases hslot with h0 | h0
      · exact absurd h0 hj0
      · exact absurd h0 hjp
    · rw [hother j hj, h.other j hj]
      exact ⟨rfl, Nat.le_refl _⟩
  · intro i _ hsingle j hj
    rw [bucket_words] at hsingle ⊢
    rw [bucket_words]
    rcases h.saddr with hs | hs
    · rw [hs]
      exact hsingle j hj
    · rw [hs]
      by_cases hjk : j = k
      · rw [hjk, Function.update_self]
        exact fun hc => (probeBucket_eq_none htb a).mp ha i hc.symm
      · rw [Function.update_of_ne hjk]
        exact hsingle j hj
  · intro j hjp
    rw [bucket_words] at hjp ⊢
    rw [bucket_words]
    by_cases hj : j = k
    · subst hj
      rcases h.pri with hp | ⟨hs, hp⟩
      · refine .inr ⟨hp.symm, ?_⟩
        rcases hslot with h0 | h0
        · exact .inr h0
        · rw [hp, h0] at hjp
          exact absurd rfl hjp
      · rw [hs, hp]
        rw [hp] at hjp
        exact .inl (ho hjp)
    · rw [hother j hj, h.other j hj]
      exact .inr ⟨rfl, .inl rfl⟩

theorem guarantee_raisePri {p : Pri} {tsec : u16} (hk : htb.saddr k = a)
    (hs : b.saddr = htb.saddr) (hp : ∀ j, b.pri j = htb.pri j) (hlt : (b.ctrl k).pri < p.val) :
    Guarantee (.insertAuthorized a p tsec) (words htb)
      (words (b.setCtrl k ((b.ctrl k).setPri p.val))) := by
  have hpri : ∀ j, (b.setCtrl k ((b.ctrl k).setPri p.val)).pri j
      = if j = k then p.val.toNat else htb.pri j := by
    intro j
    rw [HtBucket.setCtrl_pri, HostCtrl.pri_setPri_of_le _ _ p.property, hp j]
  have hle : htb.pri k ≤ p.val.toNat := by
    rw [← hp k]
    exact Nat.le_of_lt hlt
  constructor
  · intro j _ _
    rw [bucket_words, bucket_words, HtBucket.setCtrl_saddr, hs, hpri j]
    refine ⟨rfl, ?_⟩
    by_cases hj : j = k
    · rw [if_pos hj, hj]
      exact hle
    · rw [if_neg hj]
  · intro j _ hsingle
    rw [bucket_words, HtBucket.setCtrl_saddr, hs]
    exact hsingle
  · intro j _
    rw [bucket_words, bucket_words, HtBucket.setCtrl_saddr, hs, hpri j]
    by_cases hj : j = k
    · rw [if_pos hj, hj]
      exact .inl ⟨hk, rfl⟩
    · rw [if_neg hj]
      exact .inr ⟨rfl, .inl rfl⟩

end

/-- **The sections keep the lock and the guarantee** at every access. -/
theorem always_body (o : Op) (htb : HtBucket) :
    (body o).Always (fun m => bucketLock.Taken m ∧ Guarantee o (words htb) m)
      (words (htb.setLocked true)) := by
  have hlocked : bucketLock.Taken (words (htb.setLocked true)) :=
    (taken_words _).mpr (htb.setLocked_locked true)
  have hstart : bucketLock.Taken (words (htb.setLocked true))
      ∧ Guarantee o (words htb) (words (htb.setLocked true)) :=
    ⟨hlocked, guarantee_of_same (htb.setLocked_saddr true) (htb.setLocked_pri true)⟩
  cases o with
  | insert a tsec ptr =>
      refine Prog.always_bind.mpr ⟨(always_probe a _).mpr hstart, ?_⟩
      rw [run_probe, probeBucket_setLocked]
      cases hk : probeBucket htb a with
      | some k => exact hstart
      | none =>
          exact always_enter ptr (by decide) hstart fun k b hal hb =>
            ⟨(taken_words b).mpr hb.locked, hb.guarantee hal hk fun hc => absurd rfl hc⟩
  | insertAuthorized a p tsec =>
      refine Prog.always_bind.mpr ⟨(always_probe a _).mpr hstart, ?_⟩
      rw [run_probe, probeBucket_setLocked]
      cases hk : probeBucket htb a with
      | some k =>
          have hraise : (raisePri k p.val).Always (fun m => bucketLock.Taken m
              ∧ Guarantee (.insertAuthorized a p tsec) (words htb) m)
              (words (htb.setLocked true)) :=
            always_raisePri hstart fun hlt =>
              ⟨(taken_words _).mpr ((locked_setCtrl (by simp)).trans (htb.setLocked_locked true)),
                guarantee_raisePri (probeBucket_isFirst hk).1 (htb.setLocked_saddr true)
                  (htb.setLocked_pri true) hlt⟩
          exact Prog.always_bind.mpr ⟨hraise, hraise.last⟩
      | none =>
          exact always_enter 0 p.property hstart fun k b hal hb =>
            ⟨(taken_words b).mpr hb.locked, hb.guarantee hal hk fun _ => ⟨rfl, rfl⟩⟩

/-! ## The calls of the CPUs -/

theorem loadsOnly_probe (a : be32) : (probe a).LoadsOnly :=
  (Prog.loadsOnly_gather _ _).bind fun _ => Prog.loadsOnly_pure _

theorem loadsOnly_look (c : Call) : (look c).LoadsOnly := by
  cases c with
  | lookup a => exact (loadsOnly_probe a).bind fun _ => Prog.loadsOnly_pure _
  | insert a tsec ptr => exact (Prog.loadsOnly_fetch _).bind fun _ => Prog.loadsOnly_pure _
  | insertAuthorized a p tsec =>
      exact (Prog.loadsOnly_fetch _).bind fun _ => Prog.loadsOnly_pure _

/-- Insertions and lookups, as clients of the bucket lock. -/
def client : Client bucketLock Call Op (Option Slot) Guarantee where
  look := look
  loads := loadsOnly_look
  body := body
  keeps o m _ := by
    have h := always_body o (bucket m)
    rwa [← acquire_words, words_bucket] at h

/-- An operation as one step. -/
def Op.locked (htb : HtBucket) : Op → Option Slot × HtBucket
  | .insert a tsec ptr => lockedInsert htb tsec a HOST_PRI_NONE ptr
  | .insertAuthorized a p tsec => lockedInsert htb tsec a p.val 0

theorem run_body (o : Op) (htb : HtBucket) : ∃ b,
    (body o).run (words (htb.setLocked true)) = ((o.locked htb).1, words b)
    ∧ b.setLocked false = (o.locked htb).2 := by
  have hnone : ∀ k, (htb.setLocked true).raisePri k HOST_PRI_NONE = htb.setLocked true :=
    fun k => if_neg (Nat.not_lt_zero _)
  have henter : ∀ a tsec p ptr, probeBucket htb a = none → ∃ b,
      (enter a tsec p ptr).run (words (htb.setLocked true))
        = ((lockedInsert htb tsec a p ptr).1, words b)
      ∧ b.setLocked false = (lockedInsert htb tsec a p ptr).2 := by
    intro a tsec p ptr hk
    rw [run_enter, allocSlot_setLocked, lockedInsert, hk]
    cases allocSlot htb tsec with
    | none => exact ⟨_, rfl, rfl⟩
    | some k => exact ⟨_, rfl, rfl⟩
  cases o with
  | insert a tsec ptr =>
      simp only [body, Prog.run_bind, run_probe, probeBucket_setLocked, Op.locked]
      cases hk : probeBucket htb a with
      | some k => exact ⟨_, by simp [lockedInsert, hk]; rfl, by simp [lockedInsert, hk, hnone]⟩
      | none => exact henter a tsec HOST_PRI_NONE ptr hk
  | insertAuthorized a p tsec =>
      simp only [body, Prog.run_bind, run_probe, probeBucket_setLocked, Op.locked]
      cases hk : probeBucket htb a with
      | some k =>
          refine ⟨(htb.setLocked true).raisePri k p.val, ?_, by simp [lockedInsert, hk]⟩
          simp [lockedInsert, hk, run_raisePri]
      | none => exact henter a tsec p.val 0 hk

/-- **A section that nobody interrupts** is the insertion that the table's model has. -/
theorem atomic_words (o : Op) (htb : HtBucket) :
    client.atomic o (words htb) = ((o.locked htb).1, words (o.locked htb).2) := by
  obtain ⟨b, hrun, hb⟩ := run_body o htb
  rw [Client.atomic, acquire_words]
  show (((body o).run _).1, bucketLock.release ((body o).run _).2) = _
  rw [hrun, release_words, hb]

/-! ## Every interleaving -/

/-- The bucket that the operations leave one after another; the list has the last one first. -/
def replay (htb : HtBucket) : List (Op × Option Slot) → HtBucket
  | [] => htb
  | (o, _) :: done => (o.locked (replay htb done)).2

/-- Each has the answer that it gives as one step, where its turn came. -/
def Answered (htb : HtBucket) : List (Op × Option Slot) → Prop
  | [] => True
  | (o, r) :: done => r = (o.locked (replay htb done)).1 ∧ Answered htb done

theorem sequential_words {htb : HtBucket} {done : List (Op × Option Slot)}
    {A : Memory BucketWord u32} (h : Sequential client (words htb) done A) :
    A = words (replay htb done) ∧ Answered htb done := by
  induction h with
  | nil => exact ⟨rfl, trivial⟩
  | cons o h ih =>
      obtain ⟨rfl, hans⟩ := ih
      rw [atomic_words]
      exact ⟨rfl, rfl, hans⟩

section

variable {T : Type} [DecidableEq T] {htb : HtBucket} {es : List (Event T Call)}
  {s : System BucketWord u32 T Call Op (Option Slot)}

omit [DecidableEq T] in
theorem quiet_words (hfree : htb.locked = false) :
    Quiet bucketLock (System.start T Call Op (Option Slot) (words htb)) := by
  refine quiet_start fun hc => ?_
  rw [taken_words, hfree] at hc
  cases hc

/-- What a call answers that never took the lock: an insertion was put off. -/
def Unlocked : Call → Option Slot → Prop
  | .lookup _, _ => True
  | .insert _ _ _, r => r = none
  | .insertAuthorized _ _ _, _ => False

/-- A lookup answers by lanes that it loads one after another. -/
theorem answers_lookup {R : Memory BucketWord u32 → Prop} {Q : Option Slot → Prop} (a : be32)
    (hQ : ∀ b : HtBucket, (∀ i, ∃ m, R m ∧ b.saddr i = (bucket m).saddr i) →
      Q (probeBucket b a)) : (look (.lookup a)).Answers R Q := by
  have hassoc : look (.lookup a) = Prog.gather HTBL_BKT_SZ .saddr >>= fun lanes =>
      pure (.inl (probeBucket { HtBucket.zero with saddr := lanes } a)) :=
    (Prog.bind_assoc _ _ _).trans rfl
  rw [hassoc]
  exact Prog.answers_gather _ _ _ fun lanes hlanes =>
    hQ { HtBucket.zero with saddr := lanes } hlanes

theorem answers_look (c : Call) : (look c).Answers (fun _ => True) (Unlocked c) := by
  cases c with
  | lookup a => exact answers_lookup a fun _ _ => trivial
  | insert a tsec ptr =>
      intro m _
      show (Prog.ret (if bucketLock.held (m bucketLock.loc) then .inl none else .inr _)
        : BucketProg (Option Slot ⊕ Op)).Answers _ _
      split
      · rfl
      · trivial
  | insertAuthorized a p tsec => exact fun _ _ => trivial

/-- **Insertions of any number of CPUs into a bucket** take effect one after another, in the order
in which they release its lock. At most one is under the lock, and by its own turns it leaves.
Only `host_insert` returns without its section, and then without a slot. -/
theorem insertions_serialize (hfree : htb.locked = false)
    (h : run (step client) (System.start T Call Op (Option Slot) (words htb)) es = .ok s) :
    Answered htb s.done
    ∧ ((∀ t, (s.phase t).op = none) → bucket s.mem = replay htb s.done)
    ∧ (∀ t u, (s.phase t).op ≠ none → (s.phase u).op ≠ none → t = u)
    ∧ (∀ t, (s.phase t).op ≠ none → ∃ n s',
        run (step client) s (List.replicate n (.turn t)) = .ok s' ∧ (bucket s'.mem).locked = false)
    ∧ ∀ c r, (c, r) ∈ s.seen → Unlocked c r := by
  have hq : Quiet bucketLock (System.start T Call Op (Option Slot) (words htb)) :=
    quiet_words hfree
  have hinv := atomicity h hq
  obtain ⟨new, A, hdone, hseq, hb⟩ := atomicity h hq
  obtain ⟨hA, hans⟩ := sequential_words hseq
  have hnew : s.done = new := by rw [hdone]; exact List.append_nil new
  refine ⟨hnew ▸ hans, fun hnone => ?_, fun t u => hinv.exclusive, fun t ht => ?_, ?_⟩
  · cases hb with
    | free hmem _ _ => rw [hmem, hA, bucket_words, hnew]
    | held t hway _ => exact absurd (hnone t) hway.op_ne_none
  · obtain ⟨n, s', hrun, hfree'⟩ := hinv.leaves ht
    refine ⟨n, s', hrun, ?_⟩
    rw [← words_bucket s'.mem, taken_words] at hfree'
    exact Bool.eq_false_of_not_eq_true hfree'
  · exact (seenWell_of_run answers_look (fun _ _ => trivial) hq seenWell_start h).seen

/-- Two CPUs insert one address; the second finds the lock taken and puts it off. -/
theorem insertions_serialize_pair : ∃ s : System BucketWord u32 (Fin 2) Call Op (Option Slot),
    run (step client) (System.start (Fin 2) Call Op (Option Slot) (words HtBucket.zero))
      [.call 0 (.insert 5 0 1), .turn 0, .turn 0, .turn 0, .call 1 (.insert 5 0 2), .turn 1,
        .turn 1] = .ok s
    ∧ ∀ c r, (c, r) ∈ s.seen → Unlocked c r := by
  obtain ⟨s, h⟩ : ∃ s, run (step client) (System.start (Fin 2) Call Op (Option Slot)
      (words HtBucket.zero)) [.call 0 (.insert 5 0 1), .turn 0, .turn 0, .turn 0,
        .call 1 (.insert 5 0 2), .turn 1, .turn 1] = .ok s := ⟨_, rfl⟩
  exact ⟨s, h, (insertions_serialize (by decide) h).2.2.2.2⟩

/-! ## What a reader without the lock can rely on -/

theorem Guarantee.of_atomic (o : Op) (A : Memory BucketWord u32) :
    Guarantee o A (client.atomic o A).2 := by
  have hlast := (always_body o (bucket A)).last.2
  obtain ⟨b, hrun, hb⟩ := run_body o (bucket A)
  rw [hrun, words_bucket] at hlast
  rw [← words_bucket A, atomic_words, ← hb, words_bucket]
  refine ⟨fun k h0 hp => ?_, fun k h => hlast.single k h, fun k hp => ?_⟩
  · rw [bucket_words, HtBucket.setLocked_saddr, HtBucket.setLocked_pri]
    exact hlast.kept k h0 hp
  · rw [bucket_words, HtBucket.setLocked_pri] at hp
    rw [bucket_words, HtBucket.setLocked_saddr, HtBucket.setLocked_pri]
    exact hlast.origin k hp

omit [DecidableEq T] in
/-- **What every section hands on holds at every moment** of a run: between the accesses, too. -/
theorem inv_induction {S : List Op → Memory BucketWord u32 → Prop} (h0 : S [] (words htb))
    (hstep : ∀ ops o A m, S ops A → Guarantee o A m → S (o :: ops) m)
    (hinv : Inv client (System.start T Call Op (Option Slot) (words htb)) s) :
    S (s.done.map Prod.fst) s.mem
    ∨ ∃ t o, (s.phase t).op = some o ∧ S (o :: s.done.map Prod.fst) s.mem := by
  have hseq : ∀ {done A}, Sequential client (words htb) done A → S (done.map Prod.fst) A := by
    intro done A h
    induction h with
    | nil => exact h0
    | cons o h ih => exact hstep _ o _ _ ih (Guarantee.of_atomic o _)
  obtain ⟨new, A, hdone, hnew, hb⟩ := hinv
  have hS := hseq hnew
  rw [show s.done = new from hdone.trans (List.append_nil new)]
  cases hb with
  | free hmem _ _ => exact .inl (hmem ▸ hS)
  | held t hway _ =>
      obtain ⟨o, ho, -, hg⟩ := hway.spec
      exact .inr ⟨t, o, ho, hstep _ o A _ hS hg⟩

/-- The entry of the slot is there, in no other slot and not lowered. -/
structure Stays (htb : HtBucket) (k : Slot) (m : Memory BucketWord u32) : Prop where
  saddr : (bucket m).saddr k = htb.saddr k
  pri : htb.pri k ≤ (bucket m).pri k
  single : ∀ j, j ≠ k → (bucket m).saddr j ≠ htb.saddr k

theorem Stays.guarantee {k : Slot} {o : Op} {A m : Memory BucketWord u32} (h : Stays htb k A)
    (hk : htb.saddr k ≠ 0) (hp : htb.pri k ≠ 0) (hg : Guarantee o A m) : Stays htb k m := by
  have hpA := h.pri
  obtain ⟨hs, hle⟩ := hg.kept k (by rwa [h.saddr]) (by omega)
  have hsingle := hg.single k hs (by rw [h.saddr]; exact h.single)
  rw [h.saddr] at hs hsingle
  exact ⟨hs, Nat.le_trans hpA hle, hsingle⟩

/-- **An authorised host is never lost**, whatever the CPUs do to its bucket: at every moment its
slot shows its address with at least its priority, and every lookup of it finds the slot. -/
theorem authorized_stays (hfree : htb.locked = false) {k : Slot} (hk : htb.saddr k ≠ 0)
    (hp : htb.pri k ≠ 0) (hsingle : ∀ j, j ≠ k → htb.saddr j ≠ htb.saddr k)
    (h : run (step client) (System.start T Call Op (Option Slot) (words htb)) es = .ok s) :
    (bucket s.mem).saddr k = htb.saddr k ∧ htb.pri k ≤ (bucket s.mem).pri k
    ∧ ∀ r, (.lookup (htb.saddr k), r) ∈ s.seen → r = some k := by
  have hq : Quiet bucketLock (System.start T Call Op (Option Slot) (words htb)) :=
    quiet_words hfree
  have hstays : ∀ s : System BucketWord u32 T Call Op (Option Slot),
      Inv client (System.start T Call Op (Option Slot) (words htb)) s → Stays htb k s.mem := by
    intro s hinv
    rcases inv_induction (S := fun _ => Stays htb k) ⟨rfl, Nat.le_refl _, hsingle⟩
      (fun _ o A m hA hg => hA.guarantee hk hp hg) hinv with hS | ⟨-, -, -, hS⟩
    · exact hS
    · exact hS
  have hlooks : ∀ c, (look c).Answers (Stays htb k)
      fun r => c = .lookup (htb.saddr k) → r = some k := by
    intro c
    cases c with
    | lookup a =>
        refine answers_lookup a fun b hb ha => ?_
        cases ha
        -- Each lane is loaded at its own moment, and at each of them the slot is the only one.
        refine probeBucket_eq_some_of_unique ?_ fun j hj => ?_
        · obtain ⟨m, hm, hlane⟩ := hb k
          rw [hlane, hm.saddr]
        · by_contra hne
          obtain ⟨m, hm, hlane⟩ := hb j
          exact hm.single j hne (hlane ▸ hj)
    | insert a tsec ptr => exact Prog.answers_of_forall (fun _ hc => by cases hc) _
    | insertAuthorized a p tsec => exact Prog.answers_of_forall (fun _ hc => by cases hc) _
  have hs := hstays s (atomicity h hq)
  exact ⟨hs.saddr, hs.pri, fun r hr =>
    (seenWell_of_run hlooks hstays hq seenWell_start h).seen _ r hr rfl⟩

/-- A lookup of an authorised host while another CPU is about to enter a new one. -/
theorem authorized_stays_lookup : ∃ s : System BucketWord u32 (Fin 2) Call Op (Option Slot),
    run (step client) (System.start (Fin 2) Call Op (Option Slot)
        (words ((HtBucket.zero.setSaddr 3 7).setCtrl 3 (HostCtrl.setPri 0 2))))
      ([.call 0 (.insertAuthorized 5 ⟨2, by decide⟩ 0), .call 1 (.lookup 7), .turn 0, .turn 0]
        ++ List.replicate 9 (.turn 1)) = .ok s
    ∧ ∀ r, (Call.lookup 7, r) ∈ s.seen → r = some 3 := by
  obtain ⟨s, h⟩ : ∃ s, run (step client) (System.start (Fin 2) Call Op (Option Slot)
        (words ((HtBucket.zero.setSaddr 3 7).setCtrl 3 (HostCtrl.setPri 0 2))))
      ([.call 0 (.insertAuthorized 5 ⟨2, by decide⟩ 0), .call 1 (.lookup 7), .turn 0, .turn 0]
        ++ List.replicate 9 (.turn 1)) = .ok s := ⟨_, rfl⟩
  exact ⟨s, h, (authorized_stays (by decide) (k := 3) (by decide) (by decide) (by decide) h).2.2⟩

/-- Where the priority that a slot shows comes from: it was there at the start, or an operation
gave it, to the address or to a slot that was free. -/
def Origin (htb : HtBucket) (ops : List Op) (m : Memory BucketWord u32) : Prop :=
  ∀ k, (bucket m).pri k ≠ 0 → ∃ a, (a = (bucket m).saddr k ∨ a = 0)
    ∧ (htb.saddr k = a ∧ htb.pri k = (bucket m).pri k
      ∨ ∃ o ∈ ops, o.Authorizes a ((bucket m).pri k))

theorem Origin.guarantee {ops : List Op} {o : Op} {A m : Memory BucketWord u32}
    (h : Origin htb ops A) (hg : Guarantee o A m) : Origin htb (o :: ops) m := by
  intro k hp
  rcases hg.origin k hp with ho | ⟨hpri, hs⟩
  · exact ⟨_, .inl rfl, .inr ⟨o, List.mem_cons_self, ho⟩⟩
  · obtain ⟨a, ha, hfrom⟩ := h k (by rwa [hpri])
    rw [hpri] at hfrom
    refine ⟨a, ?_, ?_⟩
    · rcases ha with rfl | rfl
      · exact hs
      · exact .inr rfl
    · rcases hfrom with hstart | ⟨o', ho', hauth⟩
      · exact .inl hstart
      · exact .inr ⟨o', List.mem_cons_of_mem o ho', hauth⟩

/-- **No priority out of nowhere**: at every moment of every run, the priority that a slot shows
was given by an authorisation that is done or under way, or was in the slot before; and it was
given to the address the slot shows, unless it was given to a free slot. -/
theorem authorized_origin (hfree : htb.locked = false)
    (h : run (step client) (System.start T Call Op (Option Slot) (words htb)) es = .ok s) :
    Origin htb (s.done.map Prod.fst) s.mem
    ∨ ∃ t o, (s.phase t).op = some o ∧ Origin htb (o :: s.done.map Prod.fst) s.mem := by
  refine inv_induction (S := Origin htb) (fun k hp => ?_) (fun _ o A m hA hg => hA.guarantee hg)
    (atomicity h (quiet_words hfree))
  exact ⟨_, .inl rfl, .inl ⟨rfl, rfl⟩⟩

/-- In the middle of an authorisation. -/
theorem authorized_origin_under_way :
    ∃ s : System BucketWord u32 (Fin 2) Call Op (Option Slot),
    run (step client) (System.start (Fin 2) Call Op (Option Slot) (words HtBucket.zero))
      (.call 0 (.insertAuthorized 5 ⟨2, by decide⟩ 0) :: List.replicate 20 (.turn 0)) = .ok s
    ∧ (Origin HtBucket.zero (s.done.map Prod.fst) s.mem ∨ ∃ t o, (s.phase t).op = some o
      ∧ Origin HtBucket.zero (o :: s.done.map Prod.fst) s.mem) := by
  obtain ⟨s, h⟩ : ∃ s, run (step client) (System.start (Fin 2) Call Op (Option Slot)
      (words HtBucket.zero)) (.call 0 (.insertAuthorized 5 ⟨2, by decide⟩ 0)
        :: List.replicate 20 (.turn 0)) = .ok s := ⟨_, rfl⟩
  exact ⟨s, h, authorized_origin (by decide) h⟩

end

end Ntfw.Locking
