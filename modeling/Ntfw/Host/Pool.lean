import Ntfw.Host.Exhausted

set_option autoImplicit false

/-! # Whose state is it

The pool index of an entry is the value of a 32-bit counter, cut to the 18 bits of the `ptr`
field. The counter counts the unauthorised hosts ever entered and is never set back, while
the pool has room for 2^21 of them. The file computes the index every operation leaves in
every slot, and from that when two hosts come to share a pool element. -/

namespace Ntfw

/-! ## The index of a slot -/

namespace HtBucket

variable (htb : HtBucket) (k j : Slot)

theorem setCtrl_state (c : HostCtrl) :
    getHostState (htb.setCtrl k c) j = if j = k then c.ptr.toNat else getHostState htb j := by
  by_cases h : j = k
  · subst h
    simp [getHostState]
  · simp [getHostState, h]

theorem setCtrl_state_of_ptr {c : HostCtrl} (h : c.ptr = (htb.ctrl k).ptr) :
    getHostState (htb.setCtrl k c) j = getHostState htb j := by
  rw [setCtrl_state]
  by_cases hj : j = k
  · rw [if_pos hj, h, hj]
    rfl
  · rw [if_neg hj]

@[simp] theorem setSaddr_state (a : be32) :
    getHostState (htb.setSaddr k a) j = getHostState htb j := rfl

@[simp] theorem setLocked_state (b : Bool) :
    getHostState (htb.setLocked b) j = getHostState htb j :=
  setCtrl_state_of_ptr htb 0 j (HostCtrl.ptr_setReserved _ _)

@[simp] theorem setExhausted_state (b : Bool) :
    getHostState (htb.setExhausted b) j = getHostState htb j :=
  setCtrl_state_of_ptr htb 1 j (HostCtrl.ptr_setReserved _ _)

@[simp] theorem initEntry_state (a : be32) (tsec : u16) (p : u32) :
    getHostState (htb.initEntry k a tsec p) j = getHostState htb j := by
  rw [initEntry, setCtrl_state_of_ptr _ _ _ (HostCtrl.ptr_setPri _ _),
    setCtrl_state_of_ptr _ _ _ (HostCtrl.ptr_setAge _ _), setSaddr_state]

theorem initPtr_state (ptr : u32) :
    getHostState (htb.initPtr k ptr) j
      = if j = k then ptr.toNat % 2 ^ 18 else getHostState htb j := by
  rw [initPtr, setCtrl_state, HostCtrl.ptr_setPtr]
  by_cases h : j = k
  · rw [if_pos h, if_pos h, BitVec.toNat_setWidth, BitVec.toNat_setWidth]
    omega
  · rw [if_neg h, if_neg h]

/-- Raising a priority writes the control word, but not its pointer. -/
@[simp] theorem raisePri_state (p : u32) :
    getHostState (htb.raisePri k p) j = getHostState htb j := by
  unfold raisePri
  split
  · exact setCtrl_state_of_ptr htb k j (HostCtrl.ptr_setPri _ _)
  · rfl

@[simp] theorem take_state : getHostState (htb.take k) j = getHostState htb j := by
  unfold take
  split
  · exact htb.setExhausted_state j true
  · rfl

end HtBucket

/-- The section under the lock writes the index of the slot it enters, and no other. -/
theorem lockedInsert_state (htb : HtBucket) (tsec : u16) (a : be32) (p ptr : u32) (j : Slot) :
    getHostState (lockedInsert htb tsec a p ptr).2 j
      = if probeBucket htb a = none ∧ allocSlot htb tsec = some j then ptr.toNat % 2 ^ 18
        else getHostState htb j := by
  unfold lockedInsert
  cases hk : probeBucket htb a with
  | some k =>
      rw [if_neg (by simp), HtBucket.setLocked_state, HtBucket.raisePri_state,
        HtBucket.setLocked_state]
  | none =>
      cases ha : allocSlot htb tsec with
      | none => rw [if_neg (by simp), HtBucket.setLocked_state, HtBucket.setLocked_state]
      | some k =>
          rw [HtBucket.setLocked_state, HtBucket.initPtr_state, HtBucket.initEntry_state,
            HtBucket.take_state, HtBucket.setLocked_state]
          by_cases hj : j = k
          · rw [if_pos hj, if_pos ⟨rfl, congrArg some hj.symm⟩]
          · rw [if_neg hj, if_neg fun hc => hj (Option.some.inj hc.2).symm]

/-! ## The index every operation leaves -/

/-- The slot a call of `host_insert` will enter the address in, if it will. -/
def insertSlot (env : Env) (gs : Gs) (b : Fin HTBL_SIZE) (a : be32) : Option Slot :=
  if htbTestLock env (gs.host_tbl b) then none
  else
    match probeBucket (gs.host_tbl b) a with
    | some _ => none
    | none => allocSlot (gs.host_tbl b) (insertTsec gs env.cpu)

section

variable {env : Env} {gs : Gs} {b : Fin HTBL_SIZE} {a : be32} {k : Slot}

theorem insertSlot_of_held (hlock : htbTestLock env (gs.host_tbl b) = true) :
    insertSlot env gs b a = none := if_pos hlock

theorem insertSlot_of_found (hlock : htbTestLock env (gs.host_tbl b) = false)
    (hk : probeBucket (gs.host_tbl b) a = some k) : insertSlot env gs b a = none := by
  rw [insertSlot, if_neg (by simp [hlock]), hk]

theorem insertSlot_of_absent (hlock : htbTestLock env (gs.host_tbl b) = false)
    (hk : probeBucket (gs.host_tbl b) a = none) :
    insertSlot env gs b a = allocSlot (gs.host_tbl b) (insertTsec gs env.cpu) := by
  rw [insertSlot, if_neg (by simp [hlock]), hk]

theorem insertSlot_eq_some : insertSlot env gs b a = some k ↔
    htbTestLock env (gs.host_tbl b) = false ∧ probeBucket (gs.host_tbl b) a = none
      ∧ allocSlot (gs.host_tbl b) (insertTsec gs env.cpu) = some k := by
  refine ⟨fun h => ?_, fun ⟨hlock, hk, ha⟩ => (insertSlot_of_absent hlock hk).trans ha⟩
  cases hlock : htbTestLock env (gs.host_tbl b) with
  | true =>
      rw [insertSlot_of_held hlock] at h
      cases h
  | false =>
      cases hk : probeBucket (gs.host_tbl b) a with
      | some l =>
          rw [insertSlot_of_found hlock hk] at h
          cases h
      | none => exact ⟨rfl, rfl, (insertSlot_of_absent hlock hk).symm.trans h⟩

end

/-- **`host_insert`** gives the slot it enters the next value of the counter, cut to 18 bits,
and leaves every other slot its index. -/
theorem hostInsert_state {env : Env} {gs gs' : Gs} {b : Fin HTBL_SIZE} {a : be32}
    {r : Option Slot} (h : hostInsert env gs b a = .ok (r, gs')) :
    gs'.hp_size = (if (insertSlot env gs b a).isSome then gs.hp_size + 1 else gs.hp_size)
    ∧ ∀ j, getHostState (gs'.host_tbl b) j
        = if insertSlot env gs b a = some j then (gs.hp_size + 1).toNat % 2 ^ 18
          else getHostState (gs.host_tbl b) j := by
  obtain ⟨-, ⟨hlock, rfl, hb⟩ | ⟨hlock, hr, hb, hsize⟩, hrest⟩ := hostInsert_section h
  · rw [insertSlot_of_held hlock, hb]
    exact ⟨(hrest rfl).hp_size, fun _ => rfl⟩
  · refine ⟨?_, fun j => ?_⟩
    · rw [hsize, hr]
      unfold lockedInsert
      cases hk : probeBucket (gs.host_tbl b) a with
      | some k =>
          rw [insertSlot_of_found hlock hk]
          rfl
      | none =>
          rw [insertSlot_of_absent hlock hk]
          cases allocSlot (gs.host_tbl b) (insertTsec gs env.cpu) <;> simp
    · rw [hb, lockedInsert_state]
      simp only [insertSlot_eq_some, hlock, true_and]

/-- **`host_insert_authorized`** leaves every slot but the one it returns its index, and the
counter its value. -/
theorem hostInsertAuthorized_state (env : Env) (gs : Gs) (b : Fin HTBL_SIZE) (a : be32) (p : u32) :
    (hostInsertAuthorized env gs b a p).2.hp_size = gs.hp_size
    ∧ ∀ j, (hostInsertAuthorized env gs b a p).1 ≠ some j →
        getHostState ((hostInsertAuthorized env gs b a p).2.host_tbl b) j
          = getHostState (gs.host_tbl b) j := by
  obtain ⟨-, hr, hb, hsize, -⟩ := hostInsertAuthorized_section env gs b a p
  refine ⟨hsize, fun j hj => ?_⟩
  rw [hb, lockedInsert_state]
  refine if_neg fun hc => hj ?_
  rw [hr]
  simp [lockedInsert, hc.1, hc.2]

/-- The counter and the index of every slot are the same in both states. -/
structure SameStates (gs gs' : Gs) : Prop where
  hp_size : gs'.hp_size = gs.hp_size
  state : ∀ i j, getHostState (gs'.host_tbl i) j = getHostState (gs.host_tbl i) j

theorem SameStates.trans {gs gs' gs'' : Gs} (h : SameStates gs gs') (h' : SameStates gs' gs'') :
    SameStates gs gs'' :=
  ⟨h'.hp_size.trans h.hp_size, fun i j => (h'.state i j).trans (h.state i j)⟩

theorem foldl_sameStates {α : Type} {f : Gs → α → Gs} (hf : ∀ gs x, SameStates gs (f gs x))
    (xs : List α) (gs : Gs) : SameStates gs (xs.foldl f gs) := by
  induction xs generalizing gs with
  | nil => exact ⟨rfl, fun _ _ => rfl⟩
  | cons x xs ih => exact (hf gs x).trans (ih (f gs x))

theorem clearSlot_state (i : Fin HTBL_SIZE) (gs : Gs) (k : Slot) :
    SameStates gs (clearSlot i gs k) := by
  refine ⟨?_, fun l j => ?_⟩
  · simp only [clearSlot]
    split <;> rfl
  · by_cases hl : l = i
    · subst hl
      rw [clearSlot_self]
      split
      · rw [HtBucket.setExhausted_state, HtBucket.setSaddr_state]
      · rfl
    · rw [clearSlot_of_ne gs k hl]

/-- The sweep leaves every slot its index, also those it frees. -/
theorem hostClear_state (gs : Gs) : SameStates gs (hostClearStaticallyAuthorized gs) :=
  foldl_sameStates (fun gs i => foldl_sameStates (clearSlot_state i) _ gs) _ gs

/-! ## Ownership -/

/-- A slot of the table, by its bucket. -/
abbrev Entry := Fin HTBL_SIZE × Slot

/-- The slot holds a live entry of class `HOST_PRI_NONE`. -/
def Unauthorised (gs : Gs) (e : Entry) : Prop :=
  (gs.host_tbl e.1).saddr e.2 ≠ 0 ∧ (gs.host_tbl e.1).pri e.2 = 0

/-- The pool element the slot resolves to. -/
def poolIndex (gs : Gs) (e : Entry) : Nat := getHostState (gs.host_tbl e.1) e.2

/-- **Host state is owned by one host**: no two unauthorised entries share an element, and
none uses the reserved one. -/
structure StatesOwned (gs : Gs) : Prop where
  distinct : ∀ e f, Unauthorised gs e → Unauthorised gs f → e ≠ f → poolIndex gs e ≠ poolIndex gs f
  reserved : ∀ e, Unauthorised gs e → poolIndex gs e ≠ 0

/-- What is written for one host, a charge or the wipe of an eviction, no other host sees. -/
theorem StatesOwned.isolated {gs : Gs} (h : StatesOwned gs) {e f : Entry}
    (he : Unauthorised gs e) (hf : Unauthorised gs f) (hne : e ≠ f) (host : HostState) :
    Function.update gs.pool (poolIndex gs e) host (poolIndex gs f) = gs.pool (poolIndex gs f) :=
  Function.update_of_ne (h.distinct e f he hf hne).symm host gs.pool

/-! ## What a step does to the entries -/

/-- Nothing is entered: whoever is unauthorised was so before, with the same index. -/
structure Kept (gs gs' : Gs) : Prop where
  hp_size : gs'.hp_size = gs.hp_size
  entry : ∀ e, Unauthorised gs' e → Unauthorised gs e ∧ poolIndex gs' e = poolIndex gs e

/-- The address `a` is entered at `e₀`, with the counter's next value for an index. -/
structure Entered (gs gs' : Gs) (e₀ : Entry) (a : be32) : Prop where
  hp_size : gs'.hp_size = gs.hp_size + 1
  live : Unauthorised gs' e₀ ↔ a ≠ 0
  index : poolIndex gs' e₀ = (gs.hp_size + 1).toNat % 2 ^ 18
  other : ∀ e, e ≠ e₀ →
    (Unauthorised gs' e ↔ Unauthorised gs e) ∧ poolIndex gs' e = poolIndex gs e

/-- What `host_insert` makes of its bucket, by the slot it enters. -/
theorem hostInsert_entries {env : Env} {gs gs' : Gs} {b : Fin HTBL_SIZE} {a : be32}
    {r : Option Slot} (h : hostInsert env gs b a = .ok (r, gs')) :
    (insertSlot env gs b a = none → ∀ j, (gs'.host_tbl b).saddr j = (gs.host_tbl b).saddr j
      ∧ (gs'.host_tbl b).pri j = (gs.host_tbl b).pri j)
    ∧ ∀ k, insertSlot env gs b a = some k → r = some k
        ∧ Written (gs.host_tbl b) (gs'.host_tbl b) k a 0
        ∧ (gs'.host_tbl b).exhausted = ((gs.host_tbl b).exhausted || decide (k = 7)) := by
  obtain ⟨-, ⟨hlock, -, hb⟩ | ⟨hlock, hplaced⟩⟩ := hostInsert_spec h
  · -- A deferred call enters nobody.
    rw [insertSlot_of_held hlock]
    exact ⟨fun _ j => by rw [hb]; exact ⟨rfl, rfl⟩, fun k hk => by cases hk⟩
  · -- Otherwise the slot is the one that the section allocates, if it has to.
    cases hplaced with
    | @found _ k hk hs hp he =>
        rw [insertSlot_of_found hlock hk]
        refine ⟨fun _ j => ⟨by rw [hs], ?_⟩, fun k hk => by cases hk⟩
        rw [hp j]
        split
        · rename_i hj
          rw [hj, Nat.max_zero]
        · rfl
    | full hk ha hsame =>
        rw [insertSlot_of_absent hlock hk, ha]
        exact ⟨fun _ j => ⟨by rw [hsame.saddr], hsame.pri j⟩, fun k hk => by cases hk⟩
    | @entered _ k hk ha hs hp he =>
        rw [insertSlot_of_absent hlock hk, ha]
        refine ⟨fun hc => (by cases hc), fun j hj => ?_⟩
        cases hj
        exact ⟨rfl, .of_update hs hp, he⟩

theorem unauthorised_congr {gs gs' : Gs} {e : Entry}
    (hs : (gs'.host_tbl e.1).saddr e.2 = (gs.host_tbl e.1).saddr e.2)
    (hp : (gs'.host_tbl e.1).pri e.2 = (gs.host_tbl e.1).pri e.2) :
    Unauthorised gs' e ↔ Unauthorised gs e := by
  unfold Unauthorised
  rw [hs, hp]

/-- An entry that is not in slot `k` of bucket `b` is in another bucket or another slot. -/
theorem entry_ne {b : Fin HTBL_SIZE} {k : Slot} {e : Entry} (h : e ≠ (b, k)) :
    e.1 ≠ b ∨ e.1 = b ∧ e.2 ≠ k := by
  by_cases hb : e.1 = b
  · exact Or.inr ⟨hb, fun hk => h (Prod.ext hb hk)⟩
  · exact Or.inl hb

/-- **The effect of `host_insert`.** -/
theorem hostInsert_effect {env : Env} {gs gs' : Gs} {b : Fin HTBL_SIZE} {a : be32}
    {r : Option Slot} (h : hostInsert env gs b a = .ok (r, gs')) :
    (insertSlot env gs b a = none → Kept gs gs')
    ∧ ∀ k, insertSlot env gs b a = some k → Entered gs gs' (b, k) a := by
  obtain ⟨⟨-, hother⟩, -⟩ := hostInsert_spec h
  obtain ⟨hsize, hstate⟩ := hostInsert_state h
  obtain ⟨hnone, hsome⟩ := hostInsert_entries h
  constructor
  · intro hslot
    rw [hslot, if_neg (by simp)] at hsize
    refine ⟨hsize, fun e he => ?_⟩
    unfold poolIndex
    by_cases hb : e.1 = b
    · obtain ⟨hs, hp⟩ := hnone hslot e.2
      refine ⟨(unauthorised_congr (by rw [hb]; exact hs) (by rw [hb]; exact hp)).mp he, ?_⟩
      rw [hb, hstate e.2, hslot, if_neg (by simp)]
    · rw [hother _ hb]
      exact ⟨(unauthorised_congr (by rw [hother _ hb]) (by rw [hother _ hb])).mp he, rfl⟩
  · intro k hslot
    -- The new entry has the next index of the pool; every other entry keeps its own.
    obtain ⟨-, hw, -⟩ := hsome k hslot
    rw [hslot, if_pos (by simp)] at hsize
    refine ⟨hsize, ?_, ?_, fun e he => ?_⟩
    · show (gs'.host_tbl b).saddr k ≠ 0 ∧ (gs'.host_tbl b).pri k = 0 ↔ a ≠ 0
      rw [hw.saddr, hw.pri]
      exact and_iff_left rfl
    · show getHostState (gs'.host_tbl b) k = _
      rw [hstate k, hslot, if_pos rfl]
    · unfold poolIndex
      rcases entry_ne he with h1 | ⟨h1, h2⟩
      · rw [hother _ h1]
        exact ⟨unauthorised_congr (by rw [hother _ h1]) (by rw [hother _ h1]), rfl⟩
      · refine ⟨unauthorised_congr (by rw [h1]; exact hw.saddr_of_ne _ h2)
          (by rw [h1]; exact hw.pri_of_ne _ h2), ?_⟩
        rw [h1, hstate e.2, hslot, if_neg fun hc => h2 (Option.some.inj hc).symm]

/-- **The effect of `host_insert_authorized`**: it takes an entry out of the unauthorised ones,
or leaves them alone. -/
theorem hostInsertAuthorized_effect {env : Env} {gs gs' : Gs} {b : Fin HTBL_SIZE} {a : be32}
    {p : Priority} {r : Option Slot} (h : hostInsertAuthorized env gs b a p.word = (r, gs')) :
    Kept gs gs' := by
  obtain ⟨⟨-, hother⟩, hplaced⟩ := hostInsertAuthorized_ok p.word_le h
  obtain ⟨hsize, hstate⟩ := hostInsertAuthorized_state env gs b a p.word
  rw [h] at hsize hstate
  rw [p.word_toNat] at hplaced
  refine ⟨hsize, fun e he => ?_⟩
  by_cases hb : e.1 = b
  · -- The slot the call returns has a priority now, so `e` is another one.
    have hp1 := p.2.1
    have hpri : (gs'.host_tbl b).pri e.2 = 0 := hb ▸ he.2
    have hne : r ≠ some e.2 ∧ (gs'.host_tbl b).saddr e.2 = (gs.host_tbl b).saddr e.2
        ∧ (gs'.host_tbl b).pri e.2 = (gs.host_tbl b).pri e.2 := by
      cases hplaced with
      | @found _ k hk hs hp hexh =>
          rw [hp] at hpri
          by_cases hek : e.2 = k
          · rw [if_pos hek] at hpri
            omega
          · exact ⟨fun hc => hek (Option.some.inj hc).symm, by rw [hs], by rw [hp, if_neg hek]⟩
      | full hk ha hsame => exact ⟨by simp, by rw [hsame.saddr], hsame.pri _⟩
      | @entered _ k hk ha hs hp hexh =>
          have hw := Written.of_update hs hp
          by_cases hek : e.2 = k
          · rw [hek, hw.pri] at hpri
            omega
          · exact ⟨fun hc => hek (Option.some.inj hc).symm, hw.saddr_of_ne _ hek,
              hw.pri_of_ne _ hek⟩
    refine ⟨(unauthorised_congr (by rw [hb]; exact hne.2.1) (by rw [hb]; exact hne.2.2)).mp he, ?_⟩
    unfold poolIndex
    rw [hb]
    exact hstate e.2 hne.1
  · unfold poolIndex
    rw [hother _ hb]
    exact ⟨(unauthorised_congr (by rw [hother _ hb]) (by rw [hother _ hb])).mp he, rfl⟩

/-- **The effect of the sweep**: it frees authorised slots only. -/
theorem hostClear_effect (gs : Gs) : Kept gs (hostClearStaticallyAuthorized gs) := by
  have hsame := hostClear_state gs
  obtain ⟨-, hswept⟩ := hostClear_spec gs
  generalize hostClearStaticallyAuthorized gs = gs' at hsame hswept ⊢
  refine ⟨hsame.hp_size, fun e he => ⟨?_, hsame.state e.1 e.2⟩⟩
  have hs := (hswept e.1).saddr e.2
  have hp := (hswept e.1).pri e.2
  have h3 : (gs.host_tbl e.1).pri e.2 ≠ 3 := by
    intro h3
    rw [if_pos h3] at hs
    exact he.1 hs
  rw [if_neg h3] at hs
  exact (unauthorised_congr hs hp).mp he

/-- Where a step enters an address, and which. -/
def enters (gs : Gs) : HostOp → Option (Entry × be32)
  | .insert env a =>
      (insertSlot env gs (hostFetchBucket a) a).map fun k => ((hostFetchBucket a, k), a)
  | _ => none

/-- **A step enters one address or none.** -/
theorem hostStep_effect {gs gs' : Gs} {op : HostOp} {r : Option Slot}
    (h : hostStep gs op = .ok (r, gs')) :
    (enters gs op = none → Kept gs gs')
    ∧ ∀ e a, enters gs op = some (e, a) → Entered gs gs' e a := by
  cases op with
  | insert env a =>
      obtain ⟨hkept, hentered⟩ := hostInsert_effect h
      refine ⟨fun hnone => hkept (Option.map_eq_none_iff.mp hnone), fun e x hsome => ?_⟩
      obtain ⟨k, hk, heq⟩ := Option.map_eq_some_iff.mp hsome
      cases heq
      exact hentered k hk
  | insertAuthorized env a p =>
      exact ⟨fun _ => hostInsertAuthorized_effect (Except.ok.inj h), fun _ _ hc => by cases hc⟩
  | clearStatic =>
      have heq : (none, hostClearStaticallyAuthorized gs) = (r, gs') := Except.ok.inj h
      obtain ⟨-, rfl⟩ := Prod.mk.inj heq
      exact ⟨fun _ => hostClear_effect gs, fun _ _ hc => by cases hc⟩
  | prepare cpu hpc =>
      cases h
      exact ⟨fun _ => ⟨rfl, fun e he => ⟨he, rfl⟩⟩, fun _ _ hc => by cases hc⟩

/-! ## One step -/

theorem StatesOwned.kept {gs gs' : Gs} (h : StatesOwned gs) (hk : Kept gs gs') :
    StatesOwned gs' := by
  refine ⟨fun e f he hf hef => ?_, fun e he => ?_⟩
  · obtain ⟨he', hie⟩ := hk.entry e he
    obtain ⟨hf', hif⟩ := hk.entry f hf
    rw [hie, hif]
    exact h.distinct e f he' hf' hef
  · obtain ⟨he', hie⟩ := hk.entry e he
    rw [hie]
    exact h.reserved e he'

/-- The index `n` is neither the reserved one nor that of an unauthorised host beside `e₀`. -/
def IndexFree (gs : Gs) (e₀ : Entry) (n : Nat) : Prop :=
  n ≠ 0 ∧ ∀ e, Unauthorised gs e → e ≠ e₀ → poolIndex gs e ≠ n

/-- Entering an address decides about its own index only. -/
theorem StatesOwned.entered_iff {gs gs' : Gs} {e₀ : Entry} {a : be32} (h : StatesOwned gs)
    (he₀ : Entered gs gs' e₀ a) :
    StatesOwned gs' ↔ (a ≠ 0 → IndexFree gs e₀ ((gs.hp_size + 1).toNat % 2 ^ 18)) := by
  rw [← he₀.live, ← he₀.index]
  constructor
  · intro h' hlive
    refine ⟨h'.reserved e₀ hlive, fun e he hne => ?_⟩
    obtain ⟨hiff, hindex⟩ := he₀.other e hne
    rw [← hindex]
    exact h'.distinct e e₀ (hiff.mpr he) hlive hne
  · intro hnew
    refine ⟨fun e f he hf hef => ?_, fun e he => ?_⟩
    · by_cases h1 : e = e₀
      · subst h1
        have hfe : f ≠ e := fun hc => hef hc.symm
        obtain ⟨hiff, hindex⟩ := he₀.other f hfe
        rw [hindex]
        exact ((hnew he).2 f (hiff.mp hf) hfe).symm
      · obtain ⟨hiff, hindex⟩ := he₀.other e h1
        rw [hindex]
        by_cases h2 : f = e₀
        · subst h2
          exact (hnew hf).2 e (hiff.mp he) h1
        · obtain ⟨hiff', hindex'⟩ := he₀.other f h2
          rw [hindex']
          exact h.distinct e f (hiff.mp he) (hiff'.mp hf) hef
    · by_cases h1 : e = e₀
      · subst h1
        exact (hnew he).1
      · obtain ⟨hiff, hindex⟩ := he₀.other e h1
        rw [hindex]
        exact h.reserved e (hiff.mp he)

/-- The condition, of a step: if it enters a host, the low 18 bits of the counter's next value
are neither 0 nor the index of another unauthorised host. -/
def StepOwns (gs : Gs) (op : HostOp) : Prop :=
  ∀ e a, enters gs op = some (e, a) → a ≠ 0 → IndexFree gs e ((gs.hp_size + 1).toNat % 2 ^ 18)

/-- **A step keeps every host's state its own exactly when it meets the condition.** -/
theorem statesOwned_step {gs gs' : Gs} {op : HostOp} {r : Option Slot} (hown : StatesOwned gs)
    (h : hostStep gs op = .ok (r, gs')) : StatesOwned gs' ↔ StepOwns gs op := by
  obtain ⟨hkept, hentered⟩ := hostStep_effect h
  cases henter : enters gs op with
  | none =>
      refine iff_of_true (hown.kept (hkept henter)) ?_
      intro e a hsome
      rw [henter] at hsome
      cases hsome
  | some ea =>
      obtain ⟨e, a⟩ := ea
      rw [hown.entered_iff (hentered e a henter)]
      constructor
      · intro hfree e' a' hsome
        rw [henter] at hsome
        cases hsome
        exact hfree
      · intro hstep
        exact hstep e a henter

end Ntfw
