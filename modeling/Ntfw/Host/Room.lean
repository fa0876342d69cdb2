import Ntfw.Host.Authorisation
import Ntfw.Lib.Counting

set_option autoImplicit false

/-! # Room for authorised hosts

Whether a list of hosts can be authorised one after another depends, bucket by bucket, on
numbers only: how many of its hosts still need a slot, and how many slots can be had. A slot
can be had if it is free or, once the bucket is exhausted, if its entry has no priority. Which
entries are evicted does not matter, for a host of the list that is evicted before its turn
needs a slot as much as one that was not there. -/

namespace Ntfw

open Counting

/-! ## What a bucket has to offer -/

/-- The number of free slots. -/
def HtBucket.free (htb : HtBucket) : Nat := count fun k => htb.saddr k = 0

/-- The number of entries that can be evicted. -/
def HtBucket.spare (htb : HtBucket) : Nat := count fun k => htb.saddr k ≠ 0 ∧ htb.pri k = 0

/-- The bucket has no authorised slot for the address. -/
def HtBucket.Needy (htb : HtBucket) (a : be32) : Prop := ∀ k, htb.saddr k = a → htb.pri k = 0

/-- The address is a host's and not in the bucket. -/
def HtBucket.New (htb : HtBucket) (a : be32) : Prop := a ≠ 0 ∧ ∀ k, htb.saddr k ≠ a

instance (htb : HtBucket) : DecidablePred htb.Needy := fun a =>
  inferInstanceAs (Decidable (∀ k, htb.saddr k = a → htb.pri k = 0))

instance (htb : HtBucket) : DecidablePred htb.New := fun a =>
  inferInstanceAs (Decidable (a ≠ 0 ∧ ∀ k, htb.saddr k ≠ a))

/-- The address 0 turns up in the list when the free slots have been used up. -/
def LateZero (htb : HtBucket) (hs : List be32) : Prop :=
  ∃ pre post, hs = pre ++ 0 :: post ∧ htb.free ≤ distinct htb.New pre

/-- **The hosts find room in the bucket.** In an exhausted bucket, every host that needs a slot
has one that can be evicted for it. In a bucket whose slot 7 is free, the free slots count too,
for the flag goes up when they have been used up; address 0 needs a slot of its own if it
comes late. In another bucket the flag never goes up, and there is nothing but free slots. -/
def HostsFit (htb : HtBucket) (hs : List be32) : Prop :=
  if htb.exhausted then distinct htb.Needy hs ≤ htb.spare
  else if htb.saddr 7 = 0 then
    distinct (fun a => a ≠ 0 ∧ htb.Needy a) hs ≤ htb.free + htb.spare
      ∧ (LateZero htb hs → distinct (fun a => a ≠ 0 ∧ htb.Needy a) hs < htb.free + htb.spare)
  else distinct htb.New hs ≤ htb.free ∧ ¬ LateZero htb hs

theorem hostsFit_nil (htb : HtBucket) : HostsFit htb [] := by
  have hlate : ¬ LateZero htb [] := by
    rintro ⟨pre, post, h, -⟩
    cases pre <;> cases h
  unfold HostsFit
  split
  · exact Nat.zero_le _
  · split
    · exact ⟨Nat.zero_le _, fun h => absurd h hlate⟩
    · exact ⟨Nat.zero_le _, hlate⟩

/-! ## The invariant of reachable buckets -/

/-- A bucket the engine can produce: a host is in it once, and an exhausted one has at most
one free slot, which is held by an authorisation of address 0. -/
structure WellKept (htb : HtBucket) : Prop where
  unique : htb.Unique
  oneFree : htb.exhausted = true → ∀ j k, htb.saddr j = 0 → htb.saddr k = 0 → j = k
  heldFree : htb.exhausted = true → ∀ k, htb.saddr k = 0 → htb.pri k ≠ 0

theorem wellKept_zero : WellKept HtBucket.zero :=
  ⟨fun _ _ _ h => absurd rfl h, fun h => by simp at h, fun h => by simp at h⟩

/-- In an exhausted bucket any address, 0 included, is in one slot at most. -/
theorem WellKept.slot_unique {htb : HtBucket} (h : WellKept htb) (he : htb.exhausted = true)
    {j k : Slot} (hjk : htb.saddr j = htb.saddr k) : j = k := by
  by_cases h0 : htb.saddr j = 0
  · exact h.oneFree he j k h0 (hjk ▸ h0)
  · exact h.unique j k hjk h0

/-- A bucket that is full whenever it is exhausted is well kept. -/
theorem WellKept.of_full {htb : HtBucket} (hu : htb.Unique)
    (h : htb.exhausted = true → ∀ j, htb.saddr j ≠ 0) : WellKept htb :=
  ⟨hu, fun he i _ hi => absurd hi (h he i), fun he j hj => absurd hj (h he j)⟩

/-- A new entry in an exhausted bucket; for address 0 it is the one slot that is free then. -/
theorem WellKept.written {htb htb' : HtBucket} {k : Slot} {a : be32} {p : Nat}
    (h : Written htb htb' k a p) (hw : WellKept htb) (hexh : htb.exhausted = true)
    (habs : ∀ j, htb.saddr j ≠ a) (hap : a ≠ 0 ∨ p ≠ 0) : WellKept htb' := by
  refine ⟨h.unique hw.unique habs, ?_, ?_⟩
  · intro _ i j hi hj
    by_cases hik : i = k
    · by_cases hjk : j = k
      · rw [hik, hjk]
      · -- Slot `j` was free before, so the new entry is not of address 0.
        rw [hik, h.saddr] at hi
        rw [h.saddr_of_ne j hjk] at hj
        exact absurd (hj.trans hi.symm) (habs j)
    · rw [h.saddr_of_ne i hik] at hi
      by_cases hjk : j = k
      · rw [hjk, h.saddr] at hj
        exact absurd (hi.trans hj.symm) (habs i)
      · rw [h.saddr_of_ne j hjk] at hj
        exact hw.oneFree hexh i j hi hj
  · intro _ j hj
    by_cases hjk : j = k
    · rw [hjk, h.saddr] at hj
      rw [hjk, h.pri]
      exact hap.resolve_left (not_not.mpr hj)
    · rw [h.saddr_of_ne j hjk] at hj
      rw [h.pri_of_ne j hjk]
      exact hw.heldFree hexh j hj

theorem WellKept.placed {htb htb' : HtBucket} {tsec : u16} {a : be32} {p : Nat}
    {r : Option Slot} (hap : a ≠ 0 ∨ p ≠ 0) (h : Placed htb tsec a p r htb') (hw : WellKept htb) :
    WellKept htb' := by
  have hu : htb'.Unique := h.unique hw.unique
  cases h with
  | @found _ k hk hs hp he =>
      refine ⟨hu, ?_, ?_⟩
      · rw [he, hs]
        exact hw.oneFree
      · intro hexh j hj
        rw [he] at hexh
        rw [hs] at hj
        have hj0 := hw.heldFree hexh j hj
        rw [hp]
        -- A priority is only ever raised.
        by_cases hjk : j = k
        · subst hjk
          rw [if_pos rfl]
          omega
        · rwa [if_neg hjk]
  | full hk ha hsame =>
      refine ⟨hu, ?_, ?_⟩
      · rw [hsame.exhausted, hsame.saddr]
        exact hw.oneFree
      · intro hexh j hj
        rw [hsame.exhausted] at hexh
        rw [hsame.saddr] at hj
        rw [hsame.pri]
        exact hw.heldFree hexh j hj
  | @entered _ k hk ha hs hp he =>
      have hwr := Written.of_update hs hp
      have habs := (probeBucket_eq_none htb a).mp hk
      cases hexh0 : htb.exhausted with
      | true => exact hw.written hwr hexh0 habs hap
      | false =>
          -- The flag goes up only with the last free slot, and then none is left.
          rw [allocSlot_of_not_exhausted hexh0] at ha
          have hfirst := probeBucket_isFirst ha
          refine WellKept.of_full hu fun hexh j hj => ?_
          rw [he, hexh0, Bool.false_or, decide_eq_true_eq] at hexh
          by_cases hjk : j = k
          · rw [hjk, hwr.saddr] at hj
            exact habs k (hfirst.1.trans hj.symm)
          · rw [hwr.saddr_of_ne j hjk] at hj
            subst hexh
            exact hfirst.ne_of_seven hjk hj

theorem WellKept.swept {htb htb' : HtBucket} (h : Swept htb htb') (hw : WellKept htb) :
    WellKept htb' := by
  have hkeep : htb'.exhausted = true → htb.exhausted = true ∧ ∀ k, htb'.saddr k = htb.saddr k := by
    intro hexh
    rw [h.exhausted, Bool.and_eq_true, decide_eq_true_eq] at hexh
    exact ⟨hexh.1, fun k => by rw [h.saddr, if_neg (hexh.2 k)]⟩
  refine ⟨h.unique hw.unique, ?_, ?_⟩
  · intro hexh j k hj hk
    obtain ⟨hexh0, hs⟩ := hkeep hexh
    rw [hs] at hj hk
    exact hw.oneFree hexh0 j k hj hk
  · intro hexh k hk
    obtain ⟨hexh0, hs⟩ := hkeep hexh
    rw [hs] at hk
    rw [h.pri]
    exact hw.heldFree hexh0 k hk

/-! ## What one insertion uses up -/

section

variable {htb htb' : HtBucket} {a : be32} {p : Nat} {k : Slot}

/-- The new entry is in slot `k`, as an authorised one; the other slots stay. -/
structure Held (htb htb' : HtBucket) (a : be32) (k : Slot) : Prop where
  saddr : htb'.saddr k = a
  pri : htb'.pri k ≠ 0
  other : ∀ j, j ≠ k → htb'.saddr j = htb.saddr j ∧ htb'.pri j = htb.pri j

/-- What the slot held before goes with it, so nothing else becomes needy. -/
theorem Held.needy_iff (h : Held htb htb' a k) {x : be32} (hold : htb.saddr k = x → x ≠ a →
    htb.pri k = 0) : htb'.Needy x ↔ x ≠ a ∧ htb.Needy x := by
  constructor
  · intro hx
    have hxa : x ≠ a := by
      rintro rfl
      exact h.pri (hx k h.saddr)
    refine ⟨hxa, fun j hj => ?_⟩
    by_cases hjk : j = k
    · subst hjk
      exact hold hj hxa
    · obtain ⟨hsj, hpj⟩ := h.other j hjk
      rw [← hpj]
      exact hx j (hsj.trans hj)
  · rintro ⟨hxa, hx⟩ j hj
    by_cases hjk : j = k
    · subst hjk
      exact absurd (hj.symm.trans h.saddr) hxa
    · obtain ⟨hsj, hpj⟩ := h.other j hjk
      rw [hpj]
      exact hx j (hsj.symm.trans hj)

theorem Held.free (h : Held htb htb' a k) :
    htb.free + ind (a = 0) = htb'.free + ind (htb.saddr k = 0) := by
  have hoff := count_of_eq_off (P := fun j => htb.saddr j = 0) (Q := fun j => htb'.saddr j = 0) k
    fun j hj => by rw [(h.other j hj).1]
  rw [h.saddr] at hoff
  exact hoff

/-- The number of slots that can be evicted goes down if this one could be. -/
theorem Held.spare (h : Held htb htb' a k) :
    htb.spare = htb'.spare + ind (htb.saddr k ≠ 0 ∧ htb.pri k = 0) := by
  have hoff := count_of_eq_off (P := fun j => htb.saddr j ≠ 0 ∧ htb.pri j = 0)
    (Q := fun j => htb'.saddr j ≠ 0 ∧ htb'.pri j = 0) k
    fun j hj => by rw [(h.other j hj).1, (h.other j hj).2]
  rw [ind_of_not fun hc => h.pri hc.2, Nat.add_zero] at hoff
  exact hoff

/-- An address that was new and one that held the slot are not new any more. -/
theorem Held.new_iff (h : Held htb htb' a k) (hold : htb.saddr k = a ∨ htb.saddr k = 0) (x : be32) :
    htb'.New x ↔ x ≠ a ∧ htb.New x := by
  constructor
  · rintro ⟨hx0, hx⟩
    have hxa : x ≠ a := fun hc => hx k (h.saddr.trans hc.symm)
    refine ⟨hxa, hx0, fun j hj => ?_⟩
    by_cases hjk : j = k
    · subst hjk
      rcases hold with hold | hold
      · exact hxa (hj.symm.trans hold)
      · exact hx0 (hj.symm.trans hold)
    · exact hx j ((h.other j hjk).1.trans hj)
  · rintro ⟨hxa, hx0, hx⟩
    refine ⟨hx0, fun j hj => ?_⟩
    by_cases hjk : j = k
    · subst hjk
      exact hxa (hj.symm.trans h.saddr)
    · exact hx j ((h.other j hjk).1.symm.trans hj)

/-- Outside an exhausted bucket a new address takes a free slot, and another one takes none. -/
theorem Held.free_of_new (h : Held htb htb' a k)
    (hcase : htb.saddr k = a ∨ htb.saddr k = 0 ∧ htb.New a) :
    htb.free = htb'.free + ind (htb.New a) := by
  have hfree := h.free
  rcases hcase with hk | ⟨hk, hnew⟩
  · rw [ind_of_not (fun hnew => hnew.2 k hk)]
    rw [hk] at hfree
    omega
  · rw [ind_of_not hnew.1, ind_of hk] at hfree
    rw [ind_of hnew]
    omega

/-- Reading one host off the list leaves it open whether address 0 comes late. -/
theorem Held.lateZero_iff (h : Held htb htb' a k)
    (hcase : htb.saddr k = a ∨ htb.saddr k = 0 ∧ htb.New a) (hs : List be32) :
    LateZero htb (a :: hs) ↔ LateZero htb' hs := by
  have hnew := fun l => distinct_cons (h.new_iff (hcase.imp id And.left)) l
  have hfree := h.free_of_new hcase
  constructor
  · rintro ⟨pre, post, hsplit, hle⟩
    cases pre with
    | nil =>
        -- Address 0 comes first, so it holds the slot, which is free then.
        obtain ⟨rfl, -⟩ := List.cons.inj hsplit
        have hk0 : htb.saddr k = 0 := hcase.elim id And.left
        have hpos : htb.free ≠ 0 := fun hc => count_eq_zero.mp hc k hk0
        rw [distinct_nil] at hle
        omega
    | cons x pre =>
        obtain ⟨rfl, hrest⟩ := List.cons.inj hsplit
        refine ⟨pre, post, hrest, ?_⟩
        rw [hnew] at hle
        omega
  · rintro ⟨pre, post, rfl, hle⟩
    refine ⟨a :: pre, post, rfl, ?_⟩
    rw [hnew]
    omega

/-! ## One insertion and the hosts that follow -/

/-- In an exhausted bucket. -/
theorem Held.hostsFit_exhausted (h : Held htb htb' a k) (hw : WellKept htb)
    (he : htb.exhausted = true) (he' : htb'.exhausted = true)
    (hcase : htb.saddr k = a ∨ htb.pri k = 0 ∧ ∀ j, htb.saddr j ≠ a) (hs : List be32) :
    HostsFit htb (a :: hs) ↔ HostsFit htb' hs := by
  -- A host that needs a slot takes one that can be evicted, any other host takes none.
  have hneedy := fun x => h.needy_iff (x := x) fun hx hxa =>
    hcase.elim (fun hk => absurd (hx.symm.trans hk) hxa) And.left
  have hind : ind (htb.Needy a) = ind (htb.saddr k ≠ 0 ∧ htb.pri k = 0) := by
    refine ind_congr ⟨fun hn => ?_, fun hk j hj => ?_⟩
    · have hk0 : htb.pri k = 0 := hcase.elim (hn k) And.left
      exact ⟨fun hc => hw.heldFree he k hc hk0, hk0⟩
    · rcases hcase with hka | ⟨-, habs⟩
      · rw [hw.slot_unique he (hj.trans hka.symm)]
        exact hk.2
      · exact absurd hj (habs j)
  have hspare := h.spare
  unfold HostsFit
  rw [if_pos he, if_pos he', distinct_cons hneedy, hind]
  omega

/-- In a bucket with free slots, while some are left. -/
theorem Held.hostsFit_free (h : Held htb htb' a k) (hw : WellKept htb)
    (he : htb.exhausted = false) (he' : htb'.exhausted = false)
    (h7 : htb'.saddr 7 = 0 ↔ htb.saddr 7 = 0)
    (hcase : htb.saddr k = a ∨ htb.saddr k = 0 ∧ htb.New a) (hs : List be32) :
    HostsFit htb (a :: hs) ↔ HostsFit htb' hs := by
  have hfree := h.free_of_new hcase
  have hlate := h.lateZero_iff hcase hs
  have hne : ¬ htb.exhausted = true := by simp [he]
  have hne' : ¬ htb'.exhausted = true := by simp [he']
  unfold HostsFit
  rw [if_neg hne, if_neg hne']
  by_cases h70 : htb.saddr 7 = 0
  · rw [if_pos h70, if_pos (h7.mpr h70), hlate]
    have hneedy : ∀ x, (x ≠ 0 ∧ htb'.Needy x) ↔ x ≠ a ∧ x ≠ 0 ∧ htb.Needy x := by
      intro x
      rw [and_left_comm]
      refine and_congr_right fun hx0 => h.needy_iff fun hx hxa => ?_
      rcases hcase with hk | ⟨hk, -⟩
      · exact absurd (hx.symm.trans hk) hxa
      · exact absurd (hx.symm.trans hk) hx0
    -- A new host takes a free slot; an old one without priority takes its own.
    have hind : ind (a ≠ 0 ∧ htb.Needy a) + htb'.free + htb'.spare = htb.free + htb.spare := by
      have hspare := h.spare
      rcases hcase with hk | ⟨hk, hnew⟩
      · have hsame : ind (a ≠ 0 ∧ htb.Needy a) = ind (htb.saddr k ≠ 0 ∧ htb.pri k = 0) := by
          rw [hk]
          refine ind_congr (and_congr_right fun ha0 => ⟨fun hn => hn k hk, fun hk0 j hj => ?_⟩)
          rw [hw.unique j k (hj.trans hk.symm) (hj ▸ ha0)]
          exact hk0
        rw [ind_of_not fun hnew => hnew.2 k hk] at hfree
        omega
      · rw [ind_of_not fun hc => hc.1 hk] at hspare
        rw [ind_of hnew] at hfree
        rw [ind_of ⟨hnew.1, fun j hj => absurd hj (hnew.2 j)⟩]
        omega
    rw [distinct_cons hneedy]
    refine and_congr (by omega) (imp_congr_right fun _ => by omega)
  · rw [if_neg h70, if_neg fun hc => h70 (h7.mp hc), hlate,
      distinct_cons (h.new_iff (hcase.imp id And.left))]
    refine and_congr_left fun _ => by omega

/-- When the last free slot is taken and it is slot 7. -/
theorem Held.hostsFit_last (h : Held htb htb' a 7) (he : htb.exhausted = false)
    (he' : htb'.exhausted = true) (hfirst : IsFirst htb 0 7) (hnew : htb.New a)
    (hs : List be32) : HostsFit htb (a :: hs) ↔ HostsFit htb' hs := by
  have hfree : htb.free = 1 := by
    refine count_eq_one hfirst.1 fun j hj => ?_
    by_contra hj7
    exact hfirst.ne_of_seven hj7 hj
  have hfull : ∀ j, htb'.saddr j ≠ 0 := by
    intro j hj
    by_cases hj7 : j = 7
    · rw [hj7, h.saddr] at hj
      exact hnew.1 hj
    · rw [(h.other j hj7).1] at hj
      exact hfirst.ne_of_seven hj7 hj
  have hspare : htb.spare = htb'.spare := by
    have := h.spare
    rwa [ind_of_not fun hc => hc.1 hfirst.1] at this
  have hneedy : ∀ x, (x ≠ 0 ∧ htb'.Needy x) ↔ x ≠ a ∧ x ≠ 0 ∧ htb.Needy x := by
    intro x
    rw [and_left_comm]
    exact and_congr_right fun hx0 => h.needy_iff fun hx _ => absurd (hx.symm.trans hfirst.1) hx0
  have hlate : LateZero htb (a :: hs) ↔ 0 ∈ hs := by
    constructor
    · rintro ⟨pre, post, hsplit, hle⟩
      cases pre with
      | nil => exact absurd (List.cons.inj hsplit).1 hnew.1
      | cons x pre =>
          rw [(List.cons.inj hsplit).2]
          simp
    · intro h0
      obtain ⟨pre, post, rfl⟩ := List.append_of_mem h0
      refine ⟨a :: pre, post, rfl, ?_⟩
      rw [distinct_cons (h.new_iff (Or.inr hfirst.1)), ind_of hnew]
      omega
  have hzero : htb'.Needy 0 := fun j hj => absurd hj (hfull j)
  have hsplit := distinct_split (Q := htb'.Needy) 0 hs
  have hne : ¬ htb.exhausted = true := by simp [he]
  unfold HostsFit
  rw [if_neg hne, if_pos hfirst.1, if_pos he', hlate, distinct_cons hneedy,
    ind_of ⟨hnew.1, fun j hj => absurd hj (hnew.2 j)⟩, hsplit]
  -- From now on address 0 is a host like any other.
  by_cases h0 : 0 ∈ hs
  · rw [ind_of ⟨h0, hzero⟩]
    simp only [h0, true_implies]
    omega
  · rw [ind_of_not fun hc => h0 hc.1]
    simp only [h0, false_implies, and_true]
    omega

end

/-- A host that is not in the bucket and gets no slot. -/
theorem HostsFit.needs_slot {htb : HtBucket} {tsec : u16} {a : be32} {hs : List be32}
    (habs : ∀ j, htb.saddr j ≠ a) (ha : allocSlot htb tsec = none) :
    ¬ HostsFit htb (a :: hs) := by
  have hneedy : htb.Needy a := fun j hj => absurd hj (habs j)
  unfold HostsFit
  cases he : htb.exhausted with
  | true =>
      -- No slot to spare, and one address in need of it.
      have hspare : htb.spare = 0 := count_eq_zero.mpr fun j hj =>
        (allocSlot_eq_none_of_exhausted he tsec).mp ha j hj.2
      rw [if_pos rfl, distinct_cons fun _ => Iff.rfl, ind_of hneedy]
      omega
  | false =>
      rw [allocSlot_of_not_exhausted he, probeBucket_eq_none] at ha
      have hfree : htb.free = 0 := count_eq_zero.mpr ha
      rw [if_neg (by simp), if_neg (ha 7)]
      rintro ⟨hle, hlate⟩
      by_cases ha0 : a = 0
      · exact hlate ⟨[], hs, by rw [ha0]; rfl, by rw [hfree]; exact Nat.zero_le _⟩
      · rw [distinct_cons fun _ => Iff.rfl, ind_of ⟨ha0, habs⟩] at hle
        omega

/-- **One insertion.** The hosts find room exactly when the first of them is placed and the
others find room in the bucket that results. -/
theorem hostsFit_cons {htb htb' : HtBucket} {tsec : u16} {a : be32} {p : Nat} {r : Option Slot}
    (hw : WellKept htb) (hp : p ≠ 0) (h : Placed htb tsec a p r htb') (hs : List be32) :
    HostsFit htb (a :: hs) ↔ r ≠ none ∧ HostsFit htb' hs := by
  cases h with
  | @found _ k hk hsaddr hpri he =>
      have hka := (probeBucket_isFirst hk).1
      -- The host keeps the slot it has, with a higher priority.
      have hheld : Held htb htb' a k := by
        refine ⟨by rw [hsaddr, hka], ?_, fun j hj => ⟨by rw [hsaddr], by rw [hpri, if_neg hj]⟩⟩
        rw [hpri, if_pos rfl]
        omega
      rw [and_iff_right (Option.some_ne_none k)]
      cases hexh : htb.exhausted with
      | true => exact hheld.hostsFit_exhausted hw hexh (he.trans hexh) (Or.inl hka) hs
      | false =>
          exact hheld.hostsFit_free hw hexh (he.trans hexh) (by rw [hsaddr]) (Or.inl hka) hs
  | full hk ha hsame =>
      have habs := (probeBucket_eq_none htb a).mp hk
      exact iff_of_false (HostsFit.needs_slot habs ha) (by simp)
  | @entered _ k hk ha hsaddr hpri he =>
      have habs := (probeBucket_eq_none htb a).mp hk
      have hwr := Written.of_update hsaddr hpri
      have hheld : Held htb htb' a k :=
        ⟨hwr.saddr, by rwa [hwr.pri], fun j hj => ⟨hwr.saddr_of_ne j hj, hwr.pri_of_ne j hj⟩⟩
      rw [and_iff_right (Option.some_ne_none k)]
      cases hexh : htb.exhausted with
      | true =>
          have hexh' : htb'.exhausted = true := by rw [he, hexh, Bool.true_or]
          exact hheld.hostsFit_exhausted hw hexh hexh' (Or.inr ⟨pri_of_allocSlot hexh ha, habs⟩) hs
      | false =>
          rw [allocSlot_of_not_exhausted hexh] at ha
          have hfirst := probeBucket_isFirst ha
          have hnew : htb.New a := ⟨fun hc => habs k (hfirst.1.trans hc.symm), habs⟩
          -- The last slot raises the flag, and the rules for room change with it.
          by_cases hk7 : k = 7
          · subst hk7
            exact hheld.hostsFit_last hexh (by rw [he]; simp) hfirst hnew hs
          · have hexh' : htb'.exhausted = false := by rw [he, hexh]; simp [hk7]
            refine hheld.hostsFit_free hw hexh hexh' ?_ (Or.inr ⟨hfirst.1, hnew⟩) hs
            rw [(hheld.other 7 (Ne.symm hk7)).1]

/-! ## The bucket the sweep leaves -/

/-- Whether hosts find room depends on the addresses, the priorities and the flag. -/
theorem HostsFit.congr {htb htb' : HtBucket} (h : SameEntries htb htb') (hs : List be32) :
    HostsFit htb' hs ↔ HostsFit htb hs := by
  have hfree : htb'.free = htb.free := count_congr fun k => by rw [h.saddr]
  have hspare : htb'.spare = htb.spare := count_congr fun k => by rw [h.saddr, h.pri]
  have hneedy : ∀ a, htb'.Needy a ↔ htb.Needy a := fun a => by
    simp only [HtBucket.Needy, h.saddr, h.pri]
  have hnew : ∀ a, htb'.New a ↔ htb.New a := fun a => by
    simp only [HtBucket.New, h.saddr]
  have hlate : LateZero htb' hs ↔ LateZero htb hs := by
    simp only [LateZero, hfree, distinct_congr hnew]
  simp only [HostsFit, hlate, hfree, hspare, h.saddr, h.exhausted, distinct_congr hneedy,
    distinct_congr hnew, distinct_congr fun a => and_congr_right fun _ : a ≠ 0 => hneedy a]

end Ntfw
