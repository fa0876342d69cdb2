import Ntfw.Lib.Lanes
import Ntfw.Ntfe.State

set_option autoImplicit false

/-! # Host table (`ntfe/host.cpp`)

A bucket is named by its index. The sections a bucket lock protects are atomic, so between
two calls every lock bit is clear; that another CPU may hold the lock when a call tests it
is `Env.contended`. -/

namespace Ntfw

/-! ## Lookup -/

def inetHashfn (saddr : be32) : u32 :=
  let s := saddr * 0x32583499
  s ^^^ (s >>> 16)

/-- `_mm256_movemask_epi8(_mm256_cmpeq_epi32(..))`: four mask bits for each equal lane. -/
def cmpeqMask (lanes : Slot → be32) (key : be32) : u32 :=
  (List.finRange HTBL_BKT_SZ).foldl
    (fun m k => if lanes k = key then m ||| ((0xF : u32) <<< (4 * k.val)) else m) 0

/-- The index of the first entry that holds the key. -/
def probeBucket (htb : HtBucket) (saddr : be32) : Option Slot :=
  let idx := cmpeqMask htb.saddr saddr
  if idx = 0 then none else some (Fin.ofNat HTBL_BKT_SZ (idx.ctz.toNat >>> 2))

/-! ## The compiled forms of `probe_bucket`

The source has one for AVX2 and one for AVX. `_mm_movemask_epi8` yields an `int`, of which a
register of 16 bytes fills the low half; `_tzcnt_u32` is not asked about zero. -/

abbrev m128i := BitVec (4 * 32)
abbrev m256i := BitVec (8 * 32)

/-- `_mm_set1_epi32`, `_mm256_set1_epi32`. -/
def set1Epi32 (n : Nat) (a : u32) : BitVec (n * 32) := Lanes.pack fun _ => a

/-- `_mm_cmpeq_epi32`, `_mm256_cmpeq_epi32`. -/
def cmpeqEpi32 {n : Nat} (a b : BitVec (n * 32)) : BitVec (n * 32) := Lanes.cmpeq a b

/-- `_mm_movemask_epi8`, `_mm256_movemask_epi8`. -/
def movemaskEpi8 {n : Nat} (v : BitVec (n * 32)) : u32 := Lanes.movemask 32 v

/-- The addresses of a bucket, as the register they are declared as. -/
def HtBucket.load (htb : HtBucket) : m256i := Lanes.pack htb.saddr

/-- One of its halves, `((__m128i*) &htb->saddr)[i]`. -/
def HtBucket.loadHalf (htb : HtBucket) (i : Nat) : m128i := htb.load.extractLsb' (i * 128) 128

/-- The index that either form returns. -/
def maskIndex (idx : u32) : s8 := (if idx ≠ 0 then idx.ctz >>> 2 else -1).setWidth 8

/-- `probe_bucket` under `__AVX2__`. -/
def probeBucketAvx2 (htb : HtBucket) (saddr : be32) : s8 :=
  let idx := movemaskEpi8 (cmpeqEpi32 htb.load (set1Epi32 8 saddr))
  maskIndex idx

/-- `probe_bucket` under `__AVX__`. -/
def probeBucketAvx (htb : HtBucket) (saddr : be32) : s8 :=
  let a := set1Epi32 4 saddr
  let idx := movemaskEpi8 (cmpeqEpi32 (htb.loadHalf 0) a)
  let idx := idx ||| (movemaskEpi8 (cmpeqEpi32 (htb.loadHalf 1) a) <<< 16)
  maskIndex idx

/-! ## The buckets -/

/-- `host_fetch_bucket`. -/
def hostFetchBucket (saddr : be32) : Fin HTBL_SIZE :=
  ⟨(inetHashfn saddr &&& 0x3FFFF).toNat, by
    have h : (inetHashfn saddr &&& 0x3FFFF).toNat ≤ (0x3FFFF : u32).toNat := by
      rw [BitVec.toNat_and]
      exact Nat.and_le_right
    have h2 : (0x3FFFF : u32).toNat < HTBL_SIZE := by decide
    omega⟩

def hostLookup (htb : HtBucket) (saddr : be32) : Option Slot := probeBucket htb saddr

/-- The pool index `get_host_state` resolves a slot to. -/
def getHostState (htb : HtBucket) (hidx : Slot) : Nat := (htb.ctrl hidx).ptr.toNat

/-- `memzero` of one pool element. -/
def zeroHostState (pool : Nat → HostState) (i : Nat) : Nat → HostState :=
  Function.update pool i HostState.zero

/-! ## The host-state pool -/

/-- `host_pool_grow`; whether `RegionCommit` succeeds is not looked at. -/
def hostPoolGrow (gs : Gs) : Gs := { gs with hp_true_sz := gs.hp_true_sz + HPOOL_GROW }

/-- `host_allocate`. The wait for another CPU's growth ends only if the pool is already
large enough: inside an atomic section no other CPU runs. -/
def hostAllocate (gs : Gs) (cpu : Fin MAX_CPUS) : Exec (u32 × Gs) :=
  let idx := gs.hp_size + 1
  let gs := { gs with hp_size := idx }
  if (idx - HPOOL_GROW / 2) &&& (HPOOL_GROW - 1) = 0 then .ok (idx, hostPoolGrow gs)
  else if gs.hp_true_sz ≤ idx then
    let gs := gs.count cpu fun sc => { sc with hpl_grow_stall := sc.hpl_grow_stall + 1 }
    if gs.hp_true_sz ≤ idx then .error .spin else .ok (idx, gs)
  else .ok (idx, gs)

/-! ## Slot allocation -/

/-- The key of an eviction candidate: its class above the complement of its age. -/
def evictionDist (tsec : u16) (c : HostCtrl) : u16 :=
  ((~~~(tsec.setWidth 32 - c.age) &&& HTB_AGE_MASK) ||| (c &&& HTB_PRI_MASK)).setWidth 16

/-- The scan for the slot with the least key, the first of them on a tie. -/
def evictionCandidate (htb : HtBucket) (tsec : u16) : Slot :=
  ((List.finRange HTBL_BKT_SZ).foldl
    (fun (top : u16 × Slot) i =>
      if evictionDist tsec (htb.ctrl i) < top.1 then (evictionDist tsec (htb.ctrl i), i) else top)
    (0xFFFF, 0)).2

/-- `allocate`: the next free slot, or, in an exhausted bucket, the oldest entry of the
lowest class, if that class is not above `priority`. -/
def allocate (htb : HtBucket) (pool : Nat → HostState) (tsec : u16) (priority : u32) :
    Option Slot × HtBucket × (Nat → HostState) :=
  if !htb.exhausted then
    let idx := probeBucket htb 0
    (idx, if idx = some 7 then htb.setExhausted true else htb, pool)
  else
    let idx := evictionCandidate htb tsec
    if priority < (htb.ctrl idx).pri then (none, htb, pool)
    else (some idx, htb, zeroHostState pool (getHostState htb idx))

/-! ## Insertion -/

/-- `HTB_TEST_LOCK`. -/
def htbTestLock (env : Env) (htb : HtBucket) : Bool := htb.locked || env.contended

/-- `spin_acquire` of a bucket lock. -/
def lockBucket (gs : Gs) (b : Fin HTBL_SIZE) : Gs := gs.setBucket b ((gs.host_tbl b).setLocked true)

/-- `spin_release` of a bucket lock. -/
def unlockBucket (gs : Gs) (b : Fin HTBL_SIZE) : Gs :=
  gs.setBucket b ((gs.host_tbl b).setLocked false)

/-- The entry timestamp of an insertion, at about second precision. -/
def insertTsec (gs : Gs) (cpu : Fin MAX_CPUS) : u16 :=
  ((gs.timeMsec cpu >>> 10).setWidth 32 &&& HTB_AGE_MASK).setWidth 16

/-- Key, age and priority of a new entry. -/
def HtBucket.initEntry (htb : HtBucket) (idx : Slot) (saddr : be32) (tsec : u16)
    (priority : u32) : HtBucket :=
  let htb := htb.setSaddr idx saddr
  let htb := htb.setCtrl idx ((htb.ctrl idx).setAge (tsec.setWidth 32))
  htb.setCtrl idx ((htb.ctrl idx).setPri priority)

/-- The pool pointer of a new entry. -/
def HtBucket.initPtr (htb : HtBucket) (idx : Slot) (ptr : u32) : HtBucket :=
  htb.setCtrl idx ((htb.ctrl idx).setPtr ptr)

/-- `host_insert`. -/
def hostInsert (env : Env) (gs : Gs) (b : Fin HTBL_SIZE) (saddr : be32) :
    Exec (Option Slot × Gs) :=
  if htbTestLock env (gs.host_tbl b) then
    .ok (none, gs.count env.cpu fun sc =>
      { sc with htb_conflicts := sc.htb_conflicts + 1, htb_deferred := sc.htb_deferred + 1 })
  else
    let gs := lockBucket gs b
    match probeBucket (gs.host_tbl b) saddr with
    | some idx =>
        let gs := gs.count env.cpu fun sc => { sc with htb_collisions := sc.htb_collisions + 1 }
        .ok (some idx, unlockBucket gs b)
    | none =>
        let tsec := insertTsec gs env.cpu
        match allocate (gs.host_tbl b) gs.pool tsec HOST_PRI_NONE with
        | (none, htb, pool) =>
            let gs := { gs.setBucket b htb with pool := pool }
            let gs := gs.count env.cpu fun sc => { sc with htb_ins_fails := sc.htb_ins_fails + 1 }
            .ok (none, unlockBucket gs b)
        | (some idx, htb, pool) =>
            let gs := { gs.setBucket b (htb.initEntry idx saddr tsec HOST_PRI_NONE) with
              pool := pool }
            hostAllocate gs env.cpu >>= fun (ptr, gs) =>
            let gs := gs.setBucket b ((gs.host_tbl b).initPtr idx ptr)
            .ok (some idx, unlockBucket gs b)

/-- `host_insert_authorized`. A new entry is allocated as for an unauthorised host. -/
def hostInsertAuthorized (env : Env) (gs : Gs) (b : Fin HTBL_SIZE) (saddr : be32)
    (priority : u32) : Option Slot × Gs :=
  let gs :=
    if htbTestLock env (gs.host_tbl b) then
      gs.count env.cpu fun sc => { sc with htb_conflicts := sc.htb_conflicts + 1 }
    else gs
  let gs := lockBucket gs b
  match probeBucket (gs.host_tbl b) saddr with
  | some idx =>
      let gs := gs.count env.cpu fun sc => { sc with htb_collisions := sc.htb_collisions + 1 }
      let htb := gs.host_tbl b
      let gs :=
        if (htb.ctrl idx).pri < priority then
          gs.setBucket b (htb.setCtrl idx ((htb.ctrl idx).setPri priority))
        else gs
      (some idx, unlockBucket gs b)
  | none =>
      let tsec := insertTsec gs env.cpu
      match allocate (gs.host_tbl b) gs.pool tsec HOST_PRI_NONE with
      | (none, htb, pool) =>
          (none, unlockBucket { gs.setBucket b htb with pool := pool } b)
      | (some idx, htb, pool) =>
          let htb := (htb.initEntry idx saddr tsec priority).initPtr idx 0
          (some idx, unlockBucket { gs.setBucket b htb with pool := pool } b)

/-! ## The sweep of a restart -/

/-- One iteration of the inner loop of `host_clear_statically_authorized`. -/
def clearSlot (i : Fin HTBL_SIZE) (gs : Gs) (k : Slot) : Gs :=
  let htb := gs.host_tbl i
  if (htb.ctrl k).pri = HOST_PRI_STATIC then
    let htb := (htb.setSaddr k 0).setExhausted false
    { gs.setBucket i htb with pool := zeroHostState gs.pool (getHostState htb k) }
  else gs

/-- One iteration of the outer loop. -/
def clearBucket (gs : Gs) (i : Fin HTBL_SIZE) : Gs :=
  (List.finRange HTBL_BKT_SZ).foldl (clearSlot i) gs

/-- `host_clear_statically_authorized`. -/
def hostClearStaticallyAuthorized (gs : Gs) : Gs :=
  (List.finRange HTBL_SIZE).foldl clearBucket gs

end Ntfw
