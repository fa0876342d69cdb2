import Ntfw.Lib.SpinLock
import Ntfw.Ntfe.Host

set_option autoImplicit false

/-! # Insertion by its accesses (`ntfe/host.cpp`, `ntfe/helper.cpp`)

The bucket lock is bit 31 of a word that the entry of slot 0 lives in, and nothing but
`spin_acquire` writes it in one access. Here every load and every store to the words of a bucket
is a step of its own, of any number of CPUs. The time and the pool index of an entry come from
elsewhere, and are any; the state of an evicted host, which `allocate` wipes, is no part of the
bucket. -/

namespace Ntfw

open SpinLock

/-! ## The bit spinlock -/

/-- `u32(1) << bit`. -/
def lockMask (bit : Fin 32) : u32 := 1 <<< bit.val

theorem getLsbD_lockMask (bit : Fin 32) (i : Nat) :
    (lockMask bit).getLsbD i = decide (i = bit.val) := by
  have hmask : lockMask bit = BitVec.twoPow 32 bit.val := rfl
  have hbit := bit.isLt
  rw [hmask, BitVec.getLsbD_twoPow]
  simp only [hbit, decide_true, Bool.true_and, eq_comm]

/-- Somebody else has the lock. -/
def lockHeld (bit : Fin 32) (w : u32) : Bool := w &&& lockMask bit ≠ 0

theorem lockHeld_eq (bit : Fin 32) (w : u32) : lockHeld bit w = w.getLsbD bit.val := by
  rw [lockHeld, Bool.eq_iff_iff, decide_eq_true_iff]
  constructor
  · intro h
    by_contra hc
    refine h (BitVec.eq_of_getLsbD_eq fun i _ => ?_)
    show (w &&& lockMask bit).getLsbD i = (0#32).getLsbD i
    rw [BitVec.getLsbD_and, getLsbD_lockMask, BitVec.getLsbD_zero]
    by_cases hi : i = bit.val
    · simp only [hi, Bool.eq_false_of_not_eq_true hc, Bool.false_and]
    · simp only [hi, decide_false, Bool.and_false]
  · intro h hz
    have hb : (w &&& lockMask bit).getLsbD bit.val = false := by
      rw [hz]
      exact BitVec.getLsbD_zero
    rw [BitVec.getLsbD_and, getLsbD_lockMask, h] at hb
    simp at hb

/-- `spin_acquire` and `spin_release`, of the word and the bit. -/
def bitLock {Loc : Type} (lock : Loc) (bit : Fin 32) : Lock Loc u32 where
  loc := lock
  held := lockHeld bit
  take w := w ||| lockMask bit
  drop w := w &&& ~~~lockMask bit
  held_take w := by simp [lockHeld_eq, getLsbD_lockMask]
  held_drop w := by simp [lockHeld_eq, getLsbD_lockMask]

namespace Locking

/-! ## The words of a bucket -/

/-- Where a bucket can be accessed: `saddr.m256i_u32[k]` and `ctrl[k]`. `lock` is `ctrl[0]`. -/
inductive BucketWord where
  | saddr (k : Slot)
  | ctrl (k : Slot)
  deriving DecidableEq

def HTB_LOCK_BIT : Fin 32 := 31

def bucketLock : Lock BucketWord u32 := bitLock (.ctrl 0) HTB_LOCK_BIT

abbrev BucketProg (ρ : Type) := Prog BucketWord u32 ρ

/-- A bucket as the memory it occupies. -/
def words (htb : HtBucket) : Memory BucketWord u32
  | .saddr k => htb.saddr k
  | .ctrl k => htb.ctrl k

/-- The bucket that a memory holds. -/
def bucket (m : Memory BucketWord u32) : HtBucket := ⟨fun k => m (.saddr k), fun k => m (.ctrl k)⟩

/-! ## Sections -/

/-- `probe_bucket`. -/
def probe (saddr : be32) : BucketProg (Option Slot) := do
  let lanes ← Prog.gather HTBL_BKT_SZ .saddr
  return probeBucket { HtBucket.zero with saddr := lanes } saddr

/-- `allocate` in a bucket that has free entries. -/
def allocateFree : BucketProg (Option Slot) := do
  let idx ← probe 0
  if idx = some 7 then
    Prog.modify (.ctrl 1) (HostCtrl.setReserved · 1)
    return idx
  else return idx

/-- `allocate` in an exhausted bucket. The scan for a candidate loads every control word. -/
def allocateEvict (tsec : u16) (priority : u32) : BucketProg (Option Slot) := do
  let ctrl ← Prog.gather HTBL_BKT_SZ .ctrl
  let idx := evictionCandidate { HtBucket.zero with ctrl := ctrl } tsec
  let c ← Prog.fetch (.ctrl idx)
  return if priority < HostCtrl.pri c then none else some idx

/-- `allocate`. -/
def allocate (tsec : u16) (priority : u32) : BucketProg (Option Slot) := do
  let flags ← Prog.fetch (.ctrl 1)
  if HostCtrl.reserved flags = 1 then allocateEvict tsec priority else allocateFree

/-- Key, age, priority and pool pointer of a new entry. -/
def initEntry (idx : Slot) (saddr : be32) (tsec : u16) (priority ptr : u32) :
    BucketProg Unit := do
  Prog.put (.saddr idx) saddr
  Prog.modify (.ctrl idx) (HostCtrl.setAge · (tsec.setWidth 32))
  Prog.modify (.ctrl idx) (HostCtrl.setPri · priority)
  Prog.modify (.ctrl idx) (HostCtrl.setPtr · ptr)

/-- A priority class. -/
abbrev Pri := { p : u32 // p ≤ HOST_PRI_STATIC }

/-- What an insertion does under the lock, with what it has from elsewhere. -/
inductive Op where
  | insert (saddr : be32) (tsec : u16) (ptr : u32)
  | insertAuthorized (saddr : be32) (priority : Pri) (tsec : u16)

/-- The new entry of `saddr`, where `allocate` finds room for one. -/
def enter (saddr : be32) (tsec : u16) (priority ptr : u32) : BucketProg (Option Slot) := do
  match ← allocate tsec HOST_PRI_NONE with
  | none => return none
  | some idx => do
      initEntry idx saddr tsec priority ptr
      return some idx

/-- Raise the priority of an entry that is there. -/
def raisePri (idx : Slot) (priority : u32) : BucketProg Unit := do
  let c ← Prog.fetch (.ctrl idx)
  if HostCtrl.pri c < priority then Prog.modify (.ctrl idx) (HostCtrl.setPri · priority)
  else return ()

/-- From `spin_acquire` to `spin_release`. -/
def body : Op → BucketProg (Option Slot)
  | .insert saddr tsec ptr => do
      match ← probe saddr with
      | some idx => return some idx
      | none => enter saddr tsec HOST_PRI_NONE ptr
  | .insertAuthorized saddr priority tsec => do
      match ← probe saddr with
      | some idx => do
          raisePri idx priority.val
          return some idx
      | none => enter saddr tsec priority.val 0

/-! ## Calls -/

inductive Call where
  | lookup (saddr : be32)
  | insert (saddr : be32) (tsec : u16) (ptr : u32)
  | insertAuthorized (saddr : be32) (priority : Pri) (tsec : u16)

/-- What a call does without the lock. `host_lookup` never takes it, and `host_insert` returns
if it sees somebody else have it; to `host_insert_authorized` that makes no difference but for
a counter. -/
def look : Call → BucketProg (Option Slot ⊕ Op)
  | .lookup saddr => do
      let idx ← probe saddr
      return .inl idx
  | .insert saddr tsec ptr => do
      let w ← Prog.fetch bucketLock.loc
      return if bucketLock.held w then .inl none else .inr (.insert saddr tsec ptr)
  | .insertAuthorized saddr priority tsec => do
      let _ ← Prog.fetch bucketLock.loc
      return .inr (.insertAuthorized saddr priority tsec)

end Locking

end Ntfw
