import Ntfw.Host.Churn
import Ntfw.Host.Frame

set_option autoImplicit false

/-! # Who is evicted, and for whom

The eviction key puts the class of an entry above the complement of its age, so the least key
is that of the oldest entry of the lowest class. The policy is to evict it for any entry that
is not of a lower class. `allocate` does so; but `host_insert_authorized` asks it for an entry
of class `HOST_PRI_NONE`, whatever the class of the entry it then writes. -/

namespace Ntfw

/-! ## The key -/

/-- How long ago an entry was stamped, on a clock of 11 bits. -/
def elapsed (tsec : u16) (c : HostCtrl) : Nat :=
  (((tsec.toNat : Int) - c.age.toNat) % 2 ^ 11).toNat

theorem elapsed_lt (tsec : u16) (c : HostCtrl) : elapsed tsec c < 2 ^ 11 := by
  unfold elapsed
  omega

/-- The low bits of the eviction key are the complement of the age. -/
theorem evictionDist_mod (tsec : u16) (c : HostCtrl) :
    (evictionDist tsec c).toNat % 2 ^ 11 = 2 ^ 11 - 1 - elapsed tsec c := by
  have hbits : (evictionDist tsec c).setWidth 11
      = ~~~ ((tsec.setWidth 32 - c.age).setWidth 11) := by
    apply BitVec.eq_of_getLsbD_eq
    intro i hi
    simp only [evictionDist, HTB_AGE_MASK_eq, HTB_PRI_MASK_eq, BitVec.getLsbD_setWidth,
      BitVec.getLsbD_or, BitVec.getLsbD_and, BitVec.getLsbD_not, BitField.Field.getLsbD_mask,
      HostCtrl.ageField, HostCtrl.priField]
    have h16 : i < 16 := by omega
    have h32 : i < 32 := by omega
    have hpri : ¬ 11 ≤ i := by omega
    simp [hi, h16, h32, hpri]
  have hage : c.age.toNat < 2 ^ 32 := c.age.isLt
  have htsec : tsec.toNat < 2 ^ 16 := tsec.isLt
  rw [← BitVec.toNat_setWidth, hbits, BitVec.toNat_not, BitVec.toNat_setWidth, BitVec.toNat_sub,
    BitVec.toNat_setWidth, elapsed]
  omega

theorem evictionDist_toNat (tsec : u16) (htb : HtBucket) (k : Slot) :
    (evictionDist tsec (htb.ctrl k)).toNat
      = 2 ^ 11 * htb.pri k + (2 ^ 11 - 1 - elapsed tsec (htb.ctrl k)) := by
  rw [← evictionDist_mod, HtBucket.pri, ← evictionDist_div tsec]
  exact (Nat.div_add_mod _ _).symm

/-! ## The policy -/

/-- Slot `v` holds the oldest entry of the lowest class, the first of them on a tie. -/
structure OldestOfLowest (htb : HtBucket) (tsec : u16) (v : Slot) : Prop where
  lowest : ∀ j, htb.pri v ≤ htb.pri j
  oldest : ∀ j, htb.pri j = htb.pri v →
    elapsed tsec (htb.ctrl j) ≤ elapsed tsec (htb.ctrl v)
  first : ∀ j, j < v → htb.pri j = htb.pri v →
    elapsed tsec (htb.ctrl j) < elapsed tsec (htb.ctrl v)

theorem evictionCandidate_oldestOfLowest (htb : HtBucket) (tsec : u16) :
    OldestOfLowest htb tsec (evictionCandidate htb tsec) := by
  obtain ⟨hmajor, hminor, hfirst⟩ := (evictionCandidate_isFirstMin htb tsec).lex htb.pri
    (fun k => 2 ^ 11 - 1 - elapsed tsec (htb.ctrl k)) (2 ^ 11)
    (fun j _ => evictionDist_toNat tsec htb j) (fun j _ => by omega)
  have hlt := fun k => elapsed_lt tsec (htb.ctrl k)
  refine ⟨fun j => hmajor j (List.mem_finRange j), fun j hj => ?_, fun j hjv hj => ?_⟩
  · -- The minor key is the complement, so least is oldest.
    have h := hminor j (List.mem_finRange j) hj
    have h1 := hlt j
    have h2 := hlt (evictionCandidate htb tsec)
    omega
  · have h := hfirst j (List.mem_finRange j) hjv hj
    have h1 := hlt j
    have h2 := hlt (evictionCandidate htb tsec)
    omega

/-- On a clock that has not gone round since, the age is the time passed. -/
theorem elapsed_eq_sub {tsec : u16} {c : HostCtrl} {now stamp : Nat}
    (hnow : tsec.toNat = now % 2 ^ 11) (hstamp : c.age.toNat = stamp % 2 ^ 11)
    (hle : stamp ≤ now) (hrecent : now ≤ stamp + 2047) : elapsed tsec c = now - stamp := by
  rw [elapsed, hnow, hstamp]
  omega

/-- **Eviction picks the oldest entry of the lowest class.** In an exhausted bucket with any
control words, the candidate of `allocate` is the oldest entry of the lowest class; it is
given up exactly for a priority not below that class, and otherwise nothing changes. If the
entries of that class were all stamped within the last 2047 ticks, none of them was stamped
before it. -/
theorem allocate_evicts_oldest_of_lowest (htb : HtBucket) (pool : Nat → HostState) (tsec : u16)
    (priority : u32) (hexh : htb.exhausted = true) :
    OldestOfLowest htb tsec (evictionCandidate htb tsec)
    ∧ allocate htb pool tsec priority
        = (if htb.pri (evictionCandidate htb tsec) ≤ priority.toNat then
            (some (evictionCandidate htb tsec), htb,
              zeroHostState pool (getHostState htb (evictionCandidate htb tsec)))
          else (none, htb, pool))
    ∧ ∀ (now : Nat) (stamp : Slot → Nat), tsec.toNat = now % 2 ^ 11 →
        (∀ j, htb.pri j = htb.pri (evictionCandidate htb tsec) →
          (htb.ctrl j).age.toNat = stamp j % 2 ^ 11 ∧ stamp j ≤ now ∧ now ≤ stamp j + 2047) →
        ∀ j, htb.pri j = htb.pri (evictionCandidate htb tsec) →
          stamp (evictionCandidate htb tsec) ≤ stamp j := by
  have hvictim := evictionCandidate_oldestOfLowest htb tsec
  refine ⟨hvictim, ?_, ?_⟩
  · have hlt : priority < (htb.ctrl (evictionCandidate htb tsec)).pri
        ↔ ¬ htb.pri (evictionCandidate htb tsec) ≤ priority.toNat := by
      show priority.toNat < htb.pri _ ↔ _
      omega
    by_cases h : htb.pri (evictionCandidate htb tsec) ≤ priority.toNat
    · simp [allocate, hexh, hlt, h]
    · simp [allocate, hexh, hlt, h]
  · -- Within one round of the clock, the age of an entry is the time since its stamp.
    intro now stamp hnow hstamps j hj
    obtain ⟨hav, hlev, hrv⟩ := hstamps _ rfl
    obtain ⟨haj, hlej, hrj⟩ := hstamps j hj
    have hold := hvictim.oldest j hj
    rw [elapsed_eq_sub hnow hav hlev hrv, elapsed_eq_sub hnow haj hlej hrj] at hold
    omega

/-- Eviction in a bucket of eight hosts of one class, stamped one after another. -/
theorem allocate_evicts_oldest_of_lowest_stamps :
    let htb : HtBucket := HtBucket.setExhausted
      ⟨fun _ => 1, fun k => HostCtrl.setAge 0 (BitVec.ofNat 32 (2040 + 2 * k.val))⟩ true
    htb.exhausted = true
    ∧ OldestOfLowest htb 9 (evictionCandidate htb 9)
    ∧ allocate htb (fun _ => HostState.zero) 9 0
        = (if htb.pri (evictionCandidate htb 9) ≤ (0 : u32).toNat then
            (some (evictionCandidate htb 9), htb, zeroHostState (fun _ => HostState.zero)
              (getHostState htb (evictionCandidate htb 9)))
          else (none, htb, fun _ => HostState.zero))
    ∧ ∀ (now : Nat) (stamp : Slot → Nat), (9 : u16).toNat = now % 2 ^ 11 →
        (∀ j, htb.pri j = htb.pri (evictionCandidate htb 9) →
          (htb.ctrl j).age.toNat = stamp j % 2 ^ 11 ∧ stamp j ≤ now ∧ now ≤ stamp j + 2047) →
        ∀ j, htb.pri j = htb.pri (evictionCandidate htb 9) →
          stamp (evictionCandidate htb 9) ≤ stamp j := by
  intro htb
  have hexh : htb.exhausted = true := HtBucket.setExhausted_exhausted _ true
  exact ⟨hexh, allocate_evicts_oldest_of_lowest htb (fun _ => HostState.zero) 9 0 hexh⟩

/-! ## Priority insertions -/

/-- A bucket with nothing free: eight addresses, the exhausted flag up, the lock not held. -/
structure FullBucket (htb : HtBucket) : Prop where
  live : ∀ k, htb.saddr k ≠ 0
  exhausted : htb.exhausted = true
  unlocked : htb.locked = false

/-- What the policy promises a priority insertion that returns `r`: it fails only if every
entry is of a higher class; otherwise it replaces one that is not, and only that. -/
structure PolicyKept (htb : HtBucket) (a : be32) (p : Nat) (r : Option Slot) (htb' : HtBucket) :
    Prop where
  failed : r = none → ∀ k, p < htb.pri k
  stored : ∀ k, r = some k → htb'.saddr k = a ∧ htb'.pri k = p ∧ htb.pri k ≤ p
    ∧ ∀ j, j ≠ k → SameEntry htb htb' j

/-- A full bucket gives an absent address a slot exactly when it has an unauthorised entry. -/
theorem hostInsertAuthorized_full (env : Env) {gs : Gs} {b : Fin HTBL_SIZE} {a : be32} (p : u32)
    (hfull : FullBucket (gs.host_tbl b)) (habs : ∀ k, (gs.host_tbl b).saddr k ≠ a) :
    (hostInsertAuthorized env gs b a p).1 = none ↔ ∀ k, (gs.host_tbl b).pri k ≠ 0 := by
  obtain ⟨-, hr, -, -, -⟩ := hostInsertAuthorized_section env gs b a p
  rw [hr, ← allocSlot_eq_none_of_exhausted hfull.exhausted (insertTsec gs env.cpu)]
  unfold lockedInsert
  rw [(probeBucket_eq_none _ a).mpr habs]
  cases allocSlot (gs.host_tbl b) (insertTsec gs env.cpu) with
  | none => simp
  | some k => simp

/-- **When a priority insertion keeps the policy**: a full bucket must have an entry without
authorisation to give up, or no entry the policy would let it give up. -/
theorem priorityInsert_policy_iff (env : Env) (gs : Gs) (b : Fin HTBL_SIZE) (a : be32)
    (p : Priority) (hfull : FullBucket (gs.host_tbl b))
    (habs : ∀ k, (gs.host_tbl b).saddr k ≠ a) :
    PolicyKept (gs.host_tbl b) a p.1 (hostInsertAuthorized env gs b a p.word).1
        ((hostInsertAuthorized env gs b a p.word).2.host_tbl b)
      ↔ (∃ k, (gs.host_tbl b).pri k = 0) ∨ ∀ k, p.1 < (gs.host_tbl b).pri k := by
  have hnone := hostInsertAuthorized_full env p.word hfull habs
  have htouch := (hostInsertAuthorized_frame env gs b a p.word hfull.unlocked).touches
  obtain ⟨-, hplaced⟩ := hostInsertAuthorized_spec env gs b a p.word_le
  rw [p.word_toNat] at hplaced
  constructor
  · intro hkept
    by_cases hfree : ∃ k, (gs.host_tbl b).pri k = 0
    · exact Or.inl hfree
    · -- No entry is without authorisation, so the call failed.
      exact Or.inr (hkept.failed (hnone.mpr (not_exists.mp hfree)))
  · intro hcond
    refine ⟨fun hr => ?_, fun k hk => ?_⟩
    · rcases hcond with ⟨k, hk⟩ | hall
      · exact absurd hk (hnone.mp hr k)
      · exact hall
    · rw [hk] at hplaced htouch
      cases hplaced with
      | found hprobe hs hp he => exact absurd (probeBucket_isFirst hprobe).1 (habs k)
      | entered hprobe ha hs hp he =>
          refine ⟨?_, ?_, ?_, fun j hj => htouch.entry j fun hc => hj (Option.some.inj hc).symm⟩
          · rw [hs, Function.update_self]
          · rw [hp, if_pos rfl]
          · rw [pri_of_allocSlot hfull.exhausted ha]
            exact Nat.zero_le p.1

/-- Eight hosts of one bucket, authorised by inference one after another. -/
def inferredHosts : Gs :=
  (List.finRange 8).foldl
    (fun gs i => (hostInsertAuthorized ⟨0, false, 0⟩ gs churnBucket (churnAddr i.castSucc)
      HOST_PRI_OUTAUTH).2) Gs.zero

theorem inferredHosts_full : FullBucket (inferredHosts.host_tbl churnBucket) := by
  refine ⟨?_, ?_, ?_⟩ <;> decide +kernel

theorem inferredHosts_absent :
    ∀ k, (inferredHosts.host_tbl churnBucket).saddr k ≠ churnAddr 8 := by decide +kernel

theorem inferredHosts_pri : ∀ k, (inferredHosts.host_tbl churnBucket).pri k = 1 := by
  decide +kernel

/-- The condition at a bucket of inferred hosts: a ninth host the configuration names. -/
theorem priorityInsert_policy_iff_inferred :
    PolicyKept (inferredHosts.host_tbl churnBucket) (churnAddr 8) 3
        (hostInsertAuthorized ⟨0, false, 0⟩ inferredHosts churnBucket (churnAddr 8)
          (Priority.word ⟨3, by decide⟩)).1
        ((hostInsertAuthorized ⟨0, false, 0⟩ inferredHosts churnBucket (churnAddr 8)
          (Priority.word ⟨3, by decide⟩)).2.host_tbl churnBucket)
      ↔ (∃ k, (inferredHosts.host_tbl churnBucket).pri k = 0)
        ∨ ∀ k, 3 < (inferredHosts.host_tbl churnBucket).pri k :=
  priorityInsert_policy_iff ⟨0, false, 0⟩ inferredHosts churnBucket (churnAddr 8)
    ⟨3, by decide⟩ inferredHosts_full inferredHosts_absent

/-- **A named host is turned away** by a bucket of hosts that are only inferred to be
authorised, any of which the policy would evict for it. -/
theorem priorityInsert_policy_fails :
    ¬ ∀ (env : Env) (gs : Gs) (b : Fin HTBL_SIZE) (a : be32) (p : Priority),
      FullBucket (gs.host_tbl b) → (∀ k, (gs.host_tbl b).saddr k ≠ a) →
      PolicyKept (gs.host_tbl b) a p.1 (hostInsertAuthorized env gs b a p.word).1
        ((hostInsertAuthorized env gs b a p.word).2.host_tbl b) := by
  intro hall
  have hkept := hall ⟨0, false, 0⟩ inferredHosts churnBucket (churnAddr 8) ⟨3, by decide⟩
    inferredHosts_full inferredHosts_absent
  have hnone : (hostInsertAuthorized ⟨0, false, 0⟩ inferredHosts churnBucket (churnAddr 8)
      (Priority.word ⟨3, by decide⟩)).1 = none := by
    rw [hostInsertAuthorized_full _ _ inferredHosts_full inferredHosts_absent]
    intro k
    rw [inferredHosts_pri k]
    decide
  have hlt := hkept.failed hnone 0
  rw [inferredHosts_pri 0] at hlt
  exact absurd hlt (by decide)

end Ntfw
