import Ntfw.Ntfe.Ntfeusr

set_option autoImplicit false

/-! # Engine state (`ntfe/ntfe.h`)

The global state `gs`: a part that only an engine (re)start writes and a part the data path
writes. The host control words are kept as words; their bit-fields, the bucket lock (bit 31
of the first) and the exhausted flag (bit 31 of the second) are fields of them. -/

namespace Ntfw

/-! ## Configuration -/

def HTBL_SIZE : Nat := 0x40000
def HTBL_BKT_SZ : Nat := 8
def HPOOL_SIZE : Nat := HTBL_SIZE * 8
def HPOOL_GROW : u32 := 64

/-- The acceptability window of NTFP messages, in NTFT (100 ns). -/
def AUTH_TWND : u64 := 4 * 60 * 10000000

def MAX_METERS : Nat := NTFE_MAX_METERS
def MAX_CPUS : Nat := NTFE_MAX_CPUS
def MAX_RULES : Nat := NTFE_MAX_RULES

instance : NeZero MAX_CPUS := ⟨by decide⟩

/-! ## Meters and rules -/

structure TBucket where
  tokens : u32
  last : u32
  deriving DecidableEq

structure TBucketDesc where
  rate : u32
  capacity : u32
  level : u32
  deriving DecidableEq

/-- A compiled rule; the meter indices are 3-bit fields. -/
structure Rule where
  fsig : FlowSig
  in_byte_scale : u16
  in_packet_scale : u16
  in_syn_scale : u16
  in_byte_tb : BitVec 3
  in_packet_tb : BitVec 3
  in_syn_tb : BitVec 3
  deriving DecidableEq

def TBucket.zero : TBucket := ⟨0, 0⟩
def TBucketDesc.zero : TBucketDesc := ⟨0, 0, 0⟩
def Rule.zero : Rule := ⟨0, 0, 0, 0, 0, 0, 0⟩

/-! ## Host control words -/

def HOST_PRI_NONE : u32 := 0
def HOST_PRI_OUTAUTH : u32 := 1
def HOST_PRI_DYNAUTH : u32 := 2
def HOST_PRI_STATIC : u32 := 3

def HTB_AGE_MASK : u32 := ((1 : u32) <<< 11) - 1
def HTB_PRI_MASK : u32 := (((1 : u32) <<< 2) - 1) <<< 11

/-- `host_ctrl`, by its word `v`. -/
abbrev HostCtrl := u32

namespace HostCtrl

def ageField : BitField.Field 32 := ⟨0, 11, by decide⟩
def priField : BitField.Field 32 := ⟨11, 2, by decide⟩
def ptrField : BitField.Field 32 := ⟨13, 18, by decide⟩

/-- Bit 31, "do not touch": the lock bit or the exhausted flag in the first two words. -/
def reservedField : BitField.Field 32 := ⟨31, 1, by decide⟩

def age (c : HostCtrl) : u32 := (ageField.get c).setWidth 32
def pri (c : HostCtrl) : u32 := (priField.get c).setWidth 32
def ptr (c : HostCtrl) : u32 := (ptrField.get c).setWidth 32
def reserved (c : HostCtrl) : BitVec 1 := reservedField.get c

def setAge (c : HostCtrl) (x : u32) : HostCtrl := ageField.set c (x.setWidth 11)
def setPri (c : HostCtrl) (x : u32) : HostCtrl := priField.set c (x.setWidth 2)
def setPtr (c : HostCtrl) (x : u32) : HostCtrl := ptrField.set c (x.setWidth 18)
def setReserved (c : HostCtrl) (x : BitVec 1) : HostCtrl := reservedField.set c x

section

variable (c : HostCtrl) (x : u32) (r : BitVec 1)

@[simp] theorem age_setAge : (c.setAge x).age = (x.setWidth 11).setWidth 32 :=
  congrArg (BitVec.setWidth 32) (ageField.get_set c (x.setWidth 11))
@[simp] theorem pri_setPri : (c.setPri x).pri = (x.setWidth 2).setWidth 32 :=
  congrArg (BitVec.setWidth 32) (priField.get_set c (x.setWidth 2))
@[simp] theorem ptr_setPtr : (c.setPtr x).ptr = (x.setWidth 18).setWidth 32 :=
  congrArg (BitVec.setWidth 32) (ptrField.get_set c (x.setWidth 18))
@[simp] theorem reserved_setReserved : (c.setReserved r).reserved = r :=
  reservedField.get_set c r

@[simp] theorem pri_setAge : (c.setAge x).pri = c.pri :=
  congrArg (BitVec.setWidth 32) (priField.get_set_of_disjoint ageField
    (by decide) c (x.setWidth 11))
@[simp] theorem ptr_setAge : (c.setAge x).ptr = c.ptr :=
  congrArg (BitVec.setWidth 32) (ptrField.get_set_of_disjoint ageField
    (by decide) c (x.setWidth 11))
@[simp] theorem reserved_setAge : (c.setAge x).reserved = c.reserved :=
  reservedField.get_set_of_disjoint ageField (by decide) c (x.setWidth 11)
@[simp] theorem age_setPri : (c.setPri x).age = c.age :=
  congrArg (BitVec.setWidth 32) (ageField.get_set_of_disjoint priField (by decide) c (x.setWidth 2))
@[simp] theorem ptr_setPri : (c.setPri x).ptr = c.ptr :=
  congrArg (BitVec.setWidth 32) (ptrField.get_set_of_disjoint priField (by decide) c (x.setWidth 2))
@[simp] theorem reserved_setPri : (c.setPri x).reserved = c.reserved :=
  reservedField.get_set_of_disjoint priField (by decide) c (x.setWidth 2)
@[simp] theorem age_setPtr : (c.setPtr x).age = c.age :=
  congrArg (BitVec.setWidth 32) (ageField.get_set_of_disjoint ptrField
    (by decide) c (x.setWidth 18))
@[simp] theorem pri_setPtr : (c.setPtr x).pri = c.pri :=
  congrArg (BitVec.setWidth 32) (priField.get_set_of_disjoint ptrField
    (by decide) c (x.setWidth 18))
@[simp] theorem reserved_setPtr : (c.setPtr x).reserved = c.reserved :=
  reservedField.get_set_of_disjoint ptrField (by decide) c (x.setWidth 18)
@[simp] theorem age_setReserved : (c.setReserved r).age = c.age :=
  congrArg (BitVec.setWidth 32) (ageField.get_set_of_disjoint reservedField (by decide) c r)
@[simp] theorem pri_setReserved : (c.setReserved r).pri = c.pri :=
  congrArg (BitVec.setWidth 32) (priField.get_set_of_disjoint reservedField (by decide) c r)
@[simp] theorem ptr_setReserved : (c.setReserved r).ptr = c.ptr :=
  congrArg (BitVec.setWidth 32) (ptrField.get_set_of_disjoint reservedField (by decide) c r)

/-- A priority class survives the truncation to its two bits. -/
theorem pri_setPri_of_le (h : x ≤ 3) : (c.setPri x).pri = x := by
  rw [pri_setPri]
  apply BitVec.eq_of_toNat_eq
  have hx : x.toNat ≤ 3 := h
  simp only [BitVec.toNat_setWidth]
  omega

theorem pri_le : c.pri ≤ 3 := by
  have h := (priField.get c).isLt
  have hlt : (priField.get c).toNat < 4 := h
  show ((priField.get c).setWidth 32).toNat ≤ 3
  rw [BitVec.toNat_setWidth]
  omega

end

end HostCtrl

/-! ## Buckets and host state -/

/-- A slot of a bucket. -/
abbrev Slot := Fin HTBL_BKT_SZ

instance : NeZero HTBL_BKT_SZ := ⟨by decide⟩

structure HtBucket where
  saddr : Slot → be32
  ctrl : Slot → HostCtrl

namespace HtBucket

def zero : HtBucket := ⟨fun _ => 0, fun _ => 0⟩

def setSaddr (htb : HtBucket) (k : Slot) (a : be32) : HtBucket :=
  { htb with saddr := Function.update htb.saddr k a }

def setCtrl (htb : HtBucket) (k : Slot) (c : HostCtrl) : HtBucket :=
  { htb with ctrl := Function.update htb.ctrl k c }

/-- `lock` bit 31, shared with `ctrl[0].reserved`. -/
def locked (htb : HtBucket) : Bool := (htb.ctrl 0).reserved == 1

def setLocked (htb : HtBucket) (b : Bool) : HtBucket :=
  htb.setCtrl 0 ((htb.ctrl 0).setReserved (BitVec.ofBool b))

/-- `exhausted`, shared with `ctrl[1].reserved`. -/
def exhausted (htb : HtBucket) : Bool := (htb.ctrl 1).reserved == 1

def setExhausted (htb : HtBucket) (b : Bool) : HtBucket :=
  htb.setCtrl 1 ((htb.ctrl 1).setReserved (BitVec.ofBool b))

end HtBucket

structure HostState where
  tb : Fin MAX_METERS → TBucket
  lock : u32

def HostState.zero : HostState := ⟨fun _ => TBucket.zero, 0⟩

/-! ## Counters and per-CPU state -/

/-- The statistics counters the modelled functions write. -/
structure Counters where
  rx_malformed : u32
  rx_dropped : u32
  rx_drop_priv : u32
  rx_drop_policed : u32
  tx_malformed : u32
  htb_conflicts : u32
  htb_deferred : u32
  htb_collisions : u32
  htb_ins_fails : u32
  hpl_grow_stall : u32
  deriving DecidableEq

structure CpuLocal where
  ts_hpc : u64
  ts_msec : u64
  sc : Counters
  deriving DecidableEq

def CpuLocal.zero : CpuLocal := ⟨0, 0, ⟨0, 0, 0, 0, 0, 0, 0, 0, 0, 0⟩⟩

/-! ## Global state -/

/-- The part of `gs` that is "effectively ROM; only written at engine (re)start". The pool
pointer is kept as whether it is non-null. -/
structure GsRom where
  hpool : Bool
  hpc_hz : u64
  rule_seed : u32
  rule_hashsz : u8
  tbdesc : Fin MAX_METERS → TBucketDesc
  rules : Fin MAX_RULES → Rule
  pkey : NtfePkey

/-- `_gs`, with the memory the pool pointer points to. -/
structure Gs extends GsRom where
  hp_size : u32
  hp_true_sz : u32
  pool : Nat → HostState
  cpuls : Fin MAX_CPUS → CpuLocal
  host_tbl : Fin HTBL_SIZE → HtBucket

/-- The state the loader leaves: static storage is zeroed. -/
def Gs.zero : Gs where
  hpool := false
  hpc_hz := 0
  rule_seed := 0
  rule_hashsz := 0
  tbdesc := fun _ => TBucketDesc.zero
  rules := fun _ => Rule.zero
  pkey := NtfePkey.zero
  hp_size := 0
  hp_true_sz := 0
  pool := fun _ => HostState.zero
  cpuls := fun _ => CpuLocal.zero
  host_tbl := fun _ => HtBucket.zero

/-! ## Calls that do not return, and what a call reads from outside -/

/-- Why a call yields no result here: it indexes an array out of bounds, where the code goes on
with whatever memory it finds there and nothing is said of it; or it waits for something nobody
does. -/
inductive Stuck where
  | outOfBounds
  | spin
  deriving DecidableEq

abbrev Exec := Except Stuck

/-- What a call reads from its environment: the CPU it runs on, whether a lock test in it
sees the bucket lock held by another CPU, and the system time. -/
structure Env where
  cpu : Fin MAX_CPUS
  contended : Bool
  time : u64

namespace Gs

/-- Bump statistics counters of a CPU. -/
def count (gs : Gs) (cpu : Fin MAX_CPUS) (f : Counters → Counters) : Gs :=
  { gs with cpuls := Function.update gs.cpuls cpu { gs.cpuls cpu with sc := f (gs.cpuls cpu).sc } }

/-- Write a bucket of the host table. -/
def setBucket (gs : Gs) (b : Fin HTBL_SIZE) (htb : HtBucket) : Gs :=
  { gs with host_tbl := Function.update gs.host_tbl b htb }

def timeMsec (gs : Gs) (cpu : Fin MAX_CPUS) : u64 := (gs.cpuls cpu).ts_msec

@[simp] theorem count_toGsRom (gs : Gs) (cpu : Fin MAX_CPUS) (f : Counters → Counters) :
    (gs.count cpu f).toGsRom = gs.toGsRom := rfl
@[simp] theorem count_host_tbl (gs : Gs) (cpu : Fin MAX_CPUS) (f : Counters → Counters) :
    (gs.count cpu f).host_tbl = gs.host_tbl := rfl
@[simp] theorem setBucket_toGsRom (gs : Gs) (b : Fin HTBL_SIZE) (htb : HtBucket) :
    (gs.setBucket b htb).toGsRom = gs.toGsRom := rfl
@[simp] theorem setBucket_self (gs : Gs) (b : Fin HTBL_SIZE) (htb : HtBucket) :
    (gs.setBucket b htb).host_tbl b = htb := by simp [setBucket]
theorem setBucket_of_ne (gs : Gs) {b c : Fin HTBL_SIZE} (htb : HtBucket) (h : c ≠ b) :
    (gs.setBucket b htb).host_tbl c = gs.host_tbl c := by simp [setBucket, h]

end Gs

end Ntfw
