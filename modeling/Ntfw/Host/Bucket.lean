import Ntfw.Host.Probe
import Ntfw.Lib.FirstMin

set_option autoImplicit false

/-! # What the bucket operations do

Which fields each write to a bucket changes, the eviction distance of a slot (`evictionDist_div`),
and the slot that `allocate` chooses (`allocSlot`): a function of the bucket and the time alone, as
`allocate_eq` shows, and of least distance when the bucket is full. -/

namespace Ntfw

/-! ## The fields a bucket operation can change -/

namespace HtBucket

/-- The priority field of a slot. -/
def pri (htb : HtBucket) (k : Slot) : Nat := (htb.ctrl k).pri.toNat

theorem pri_le (htb : HtBucket) (k : Slot) : htb.pri k ≤ 3 := HostCtrl.pri_le (htb.ctrl k)

@[simp] theorem zero_saddr (k : Slot) : zero.saddr k = 0 := rfl
@[simp] theorem zero_pri (k : Slot) : zero.pri k = 0 := by
  show (HostCtrl.pri 0).toNat = 0
  decide
@[simp] theorem zero_exhausted : zero.exhausted = false := by decide

@[simp] theorem setSaddr_saddr (htb : HtBucket) (k : Slot) (a : be32) :
    (htb.setSaddr k a).saddr = Function.update htb.saddr k a := rfl
@[simp] theorem setSaddr_ctrl (htb : HtBucket) (k : Slot) (a : be32) :
    (htb.setSaddr k a).ctrl = htb.ctrl := rfl
@[simp] theorem setSaddr_pri (htb : HtBucket) (k : Slot) (a : be32) (j : Slot) :
    (htb.setSaddr k a).pri j = htb.pri j := rfl
@[simp] theorem setSaddr_exhausted (htb : HtBucket) (k : Slot) (a : be32) :
    (htb.setSaddr k a).exhausted = htb.exhausted := rfl
@[simp] theorem setCtrl_saddr (htb : HtBucket) (k : Slot) (c : HostCtrl) :
    (htb.setCtrl k c).saddr = htb.saddr := rfl

@[simp] theorem setCtrl_ctrl (htb : HtBucket) (k : Slot) (c : HostCtrl) :
    (htb.setCtrl k c).ctrl = Function.update htb.ctrl k c := rfl

theorem setCtrl_pri (htb : HtBucket) (k : Slot) (c : HostCtrl) (j : Slot) :
    (htb.setCtrl k c).pri j = if j = k then c.pri.toNat else htb.pri j := by
  by_cases h : j = k
  · subst h
    simp [pri]
  · simp [pri, h]

/-- A write to a control word that keeps its bit 31 keeps the exhausted flag. -/
theorem setCtrl_exhausted {htb : HtBucket} {k : Slot} {c : HostCtrl}
    (h : c.reserved = (htb.ctrl k).reserved) : (htb.setCtrl k c).exhausted = htb.exhausted := by
  by_cases hk : k = 1
  · subst hk
    simp [exhausted, h]
  · have hk' : (1 : Slot) ≠ k := fun h1 => hk h1.symm
    simp [exhausted, hk']

@[simp] theorem setLocked_saddr (htb : HtBucket) (b : Bool) :
    (htb.setLocked b).saddr = htb.saddr := rfl
@[simp] theorem setExhausted_saddr (htb : HtBucket) (b : Bool) :
    (htb.setExhausted b).saddr = htb.saddr := rfl

@[simp] theorem setLocked_pri (htb : HtBucket) (b : Bool) (j : Slot) :
    (htb.setLocked b).pri j = htb.pri j := by
  rw [setLocked, setCtrl_pri]
  by_cases h : j = 0
  · simp [h, pri]
  · simp [h]

@[simp] theorem setExhausted_pri (htb : HtBucket) (b : Bool) (j : Slot) :
    (htb.setExhausted b).pri j = htb.pri j := by
  rw [setExhausted, setCtrl_pri]
  by_cases h : j = 1
  · simp [h, pri]
  · simp [h]

@[simp] theorem setLocked_exhausted (htb : HtBucket) (b : Bool) :
    (htb.setLocked b).exhausted = htb.exhausted := by
  have h : (1 : Slot) ≠ 0 := by decide
  simp [setLocked, exhausted, h]

@[simp] theorem setLocked_locked (htb : HtBucket) (b : Bool) : (htb.setLocked b).locked = b := by
  cases b <;> simp [setLocked, locked]

@[simp] theorem setExhausted_exhausted (htb : HtBucket) (b : Bool) :
    (htb.setExhausted b).exhausted = b := by
  cases b <;> simp [setExhausted, exhausted]

end HtBucket

/-- The two buckets hold the same addresses with the same priorities and the same flag: all
that lookups and allocations read, ages apart. -/
structure SameEntries (htb htb' : HtBucket) : Prop where
  saddr : htb'.saddr = htb.saddr
  pri : ∀ k, htb'.pri k = htb.pri k
  exhausted : htb'.exhausted = htb.exhausted

/-! ## Allocation -/

theorem HTB_AGE_MASK_eq : HTB_AGE_MASK = HostCtrl.ageField.mask := by decide
theorem HTB_PRI_MASK_eq : HTB_PRI_MASK = HostCtrl.priField.mask := by decide

/-- The class bits lead the eviction key. -/
theorem evictionDist_div (tsec : u16) (c : HostCtrl) :
    (evictionDist tsec c).toNat / 2 ^ 11 = c.pri.toNat := by
  rw [← Nat.shiftRight_eq_div_pow, ← BitVec.toNat_ushiftRight]
  have h : (evictionDist tsec c) >>> 11 = c.pri.setWidth 16 := by
    apply BitVec.eq_of_getLsbD_eq
    intro i hi
    simp only [evictionDist, HTB_AGE_MASK_eq, HTB_PRI_MASK_eq, BitVec.getLsbD_ushiftRight,
      BitVec.getLsbD_setWidth, BitVec.getLsbD_or, BitVec.getLsbD_and,
      BitField.Field.getLsbD_mask, HostCtrl.pri, BitField.Field.getLsbD_get,
      HostCtrl.ageField, HostCtrl.priField]
    by_cases h2 : i < 2
    · have h1 : 11 + i < 16 := by omega
      have h3 : 11 + i < 13 := by omega
      have h4 : i < 32 := by omega
      simp [h1, h2, h3, h4, hi]
    · have h3 : ¬ 11 + i < 13 := by omega
      simp [h2, h3]
  rw [h, BitVec.toNat_setWidth]
  have := c.pri_le
  have hle : c.pri.toNat ≤ 3 := this
  omega

/-- The eviction key is a function of the age and the class. -/
theorem evictionDist_congr (tsec : u16) {c c' : HostCtrl} (hage : c.age = c'.age)
    (hpri : c.pri = c'.pri) : evictionDist tsec c = evictionDist tsec c' := by
  have hget : HostCtrl.priField.get c = HostCtrl.priField.get c' := by
    have h := congrArg BitVec.toNat hpri
    simp only [HostCtrl.pri, BitVec.toNat_setWidth] at h
    have h1 := (HostCtrl.priField.get c).isLt
    have h2 := (HostCtrl.priField.get c').isLt
    simp only [HostCtrl.priField] at h h1 h2
    exact BitVec.eq_of_toNat_eq (by simp only [HostCtrl.priField]; omega)
  have hmask : c &&& HTB_PRI_MASK = c' &&& HTB_PRI_MASK := by
    rw [HTB_PRI_MASK_eq]
    exact HostCtrl.priField.and_mask_congr hget
  simp only [evictionDist, hage, hmask]

theorem evictionDist_lt (tsec : u16) (c : HostCtrl) : evictionDist tsec c < 0xFFFF := by
  have h := evictionDist_div tsec c
  have hle : c.pri.toNat ≤ 3 := c.pri_le
  show (evictionDist tsec c).toNat < 65535
  omega

/-- **The eviction candidate** is the first slot with the least key. -/
theorem evictionCandidate_isFirstMin (htb : HtBucket) (tsec : u16) :
    FirstMin.IsFirstMin (fun k => (evictionDist tsec (htb.ctrl k)).toNat)
      (List.finRange HTBL_BKT_SZ) (evictionCandidate htb tsec) := by
  have hscan := FirstMin.scan_map BitVec.toNat (fun x y => Iff.rfl)
    (fun k => evictionDist tsec (htb.ctrl k)) ((0xFFFF : u16), (0 : Slot))
    (List.finRange HTBL_BKT_SZ)
  rcases FirstMin.scan_spec (fun k => (evictionDist tsec (htb.ctrl k)).toNat)
    ((0xFFFF : u16).toNat, (0 : Slot)) (List.pairwise_lt_finRange HTBL_BKT_SZ)
    with ⟨-, hle⟩ | ⟨k, hk, -, heq⟩
  · -- Every key is below the scan's start value, so the scan does move.
    have hlt : (evictionDist tsec (htb.ctrl 0)).toNat < 65535 := evictionDist_lt tsec (htb.ctrl 0)
    exact absurd (hle 0 (List.mem_finRange 0)) (Nat.not_le.mpr hlt)
  · have hcand : evictionCandidate htb tsec = k := by
      rw [evictionCandidate, hscan, heq]
    rw [hcand]
    exact hk

/-- The eviction candidate is of the lowest class in the bucket. -/
theorem evictionCandidate_pri_le (htb : HtBucket) (tsec : u16) (j : Slot) :
    htb.pri (evictionCandidate htb tsec) ≤ htb.pri j := by
  have hle := (evictionCandidate_isFirstMin htb tsec).le j (List.mem_finRange j)
  calc htb.pri (evictionCandidate htb tsec)
      = (evictionDist tsec (htb.ctrl (evictionCandidate htb tsec))).toNat / 2 ^ 11 :=
        (evictionDist_div tsec _).symm
    _ ≤ (evictionDist tsec (htb.ctrl j)).toNat / 2 ^ 11 := Nat.div_le_div_right hle
    _ = htb.pri j := evictionDist_div tsec (htb.ctrl j)

/-- The slot `allocate` chooses for a new entry of class `HOST_PRI_NONE`. -/
def allocSlot (htb : HtBucket) (tsec : u16) : Option Slot :=
  if !htb.exhausted then probeBucket htb 0
  else if htb.pri (evictionCandidate htb tsec) = 0 then some (evictionCandidate htb tsec)
  else none

/-- Take a slot: the last free one raises the flag. -/
def HtBucket.take (htb : HtBucket) (k : Slot) : HtBucket :=
  if !htb.exhausted ∧ k = 7 then htb.setExhausted true else htb

/-- **`allocate`** as all its callers use it: it takes the slot, and wipes the state of an
evicted host, or changes nothing. -/
theorem allocate_eq (htb : HtBucket) (pool : Nat → HostState) (tsec : u16) : ∃ pool',
    allocate htb pool tsec HOST_PRI_NONE
      = match allocSlot htb tsec with
        | none => (none, htb, pool)
        | some k => (some k, htb.take k, pool') := by
  have hlt : ∀ k : Slot, HOST_PRI_NONE < (htb.ctrl k).pri ↔ htb.pri k ≠ 0 := by
    intro k
    show 0 < htb.pri k ↔ _
    omega
  cases he : htb.exhausted with
  | false =>
      refine ⟨pool, ?_⟩
      cases hk : probeBucket htb 0#32 with
      | none => simp [allocate, allocSlot, he, hk]
      | some k => simp [allocate, allocSlot, he, hk, HtBucket.take]
  | true =>
      refine ⟨zeroHostState pool (getHostState htb (evictionCandidate htb tsec)), ?_⟩
      by_cases hk : htb.pri (evictionCandidate htb tsec) = 0
      · simp [allocate, allocSlot, he, hlt, hk, HtBucket.take]
      · simp [allocate, allocSlot, he, hlt, hk]

theorem allocSlot_of_not_exhausted {htb : HtBucket} (h : htb.exhausted = false) (tsec : u16) :
    allocSlot htb tsec = probeBucket htb 0 := by
  simp [allocSlot, h]

/-- An exhausted bucket gives up an unauthorised entry and nothing else. -/
theorem pri_of_allocSlot {htb : HtBucket} {tsec : u16} {k : Slot} (he : htb.exhausted = true)
    (h : allocSlot htb tsec = some k) : htb.pri k = 0 := by
  by_cases hk : htb.pri (evictionCandidate htb tsec) = 0
  · simp [allocSlot, he, hk] at h
    exact h ▸ hk
  · simp [allocSlot, he, hk] at h

/-- **Allocation fails** in an exhausted bucket exactly when every entry is authorised. -/
theorem allocSlot_eq_none_of_exhausted {htb : HtBucket} (he : htb.exhausted = true)
    (tsec : u16) : allocSlot htb tsec = none ↔ ∀ k, htb.pri k ≠ 0 := by
  by_cases hk : htb.pri (evictionCandidate htb tsec) = 0
  · simp only [allocSlot, he, hk]
    constructor
    · intro h
      simp at h
    · intro h
      exact absurd hk (h _)
  · simp only [allocSlot, he, hk]
    refine ⟨fun _ k hk0 => ?_, fun _ => by simp⟩
    have := evictionCandidate_pri_le htb tsec k
    omega

end Ntfw
