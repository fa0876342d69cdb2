import Ntfw.Ntfe.Ntfeusr

set_option autoImplicit false

/-! # Search for a perfect hash (`ntfw/phash.cpp`)

`FindRuleMagic` starts worker threads, waits for one of them or for its time to run out,
tells them to quit, waits for them all, and returns the record they have left. A worker draws
seeds and tries them for one bit less than the record. The two variables of the record are
shared and are read and written one at a time: a step of the model is one such access, with
the local work that follows it. -/

namespace Ntfw.Tool

/-! ## xoroshiro128+ -/

abbrev XoroState := u64 × u64

def rotl (x : u64) (k : Nat) : u64 := (x <<< k) ||| (x >>> (64 - k))

/-- `splitmix64`; the second component is the value it leaves in its argument. -/
def splitmix64 (x : u64) : u64 × u64 :=
  let x := x + 0x9E3779B97F4A7C15
  let z := (x ^^^ (x >>> 30)) * 0xBF58476D1CE4E5B9
  let z := (z ^^^ (z >>> 27)) * 0x94D049BB133111EB
  (z ^^^ (z >>> 31), x)

def xoroSeed (seed : u64) : XoroState :=
  let r := splitmix64 seed
  (r.1, (splitmix64 r.2).1)

def xoroRand (state : XoroState) : u64 × XoroState :=
  let s0 := state.1
  let s1 := state.2 ^^^ s0
  (s0 + state.2, rotl s0 55 ^^^ s1 ^^^ (s1 <<< 14), rotl s1 36)

/-! ## One attempt -/

/-- `_bsr`, the position of the highest bit that is set. -/
def bsr (x : u32) : u32 := BitVec.ofNat 32 (Nat.log2 x.toNat)

/-- The slot of a rule under a seed, in a table of `bits` bits. -/
def slotOf (seed bits : u32) (rl : NtfeRule) : u16 :=
  ((ntfeRuleHashfn seed rl.ether rl.dport rl.proto).setWidth 32
    &&& (shl32 1 bits.toNat - 1)).setWidth 16

/-- No two rules go to one slot. -/
def CollisionFree (rules : List NtfeRule) (seed bits : u32) : Prop :=
  rules.Pairwise fun a b => slotOf seed bits a ≠ slotOf seed bits b

instance (rules : List NtfeRule) (seed bits : u32) : Decidable (CollisionFree rules seed bits) :=
  inferInstanceAs (Decidable (List.Pairwise _ _))

/-- Why a step is not taken: a slot is out of the table, or the thread waits or has ended. -/
inductive Blocked where
  | outOfBounds
  | refused
  deriving DecidableEq

/-- The slots that are taken. -/
abbrev Table := Fin NTFE_MAX_RULES → Bool

/-- The loop over the rules: whether it gets to the end without a collision. -/
def tryRules (seed bits : u32) : List NtfeRule → Table → Except Blocked Bool
  | [], _ => .ok true
  | rl :: rls, table =>
      if h : (slotOf seed bits rl).toNat < NTFE_MAX_RULES then
        let slot : Fin NTFE_MAX_RULES := ⟨(slotOf seed bits rl).toNat, h⟩
        if table slot then .ok false
        else tryRules seed bits rls (Function.update table slot true)
      else .error .outOfBounds

/-! ## The threads -/

/-- Where a worker is: before its reads of `quit_signal` and of `record_bits` in the loop
condition, before the second read of `record_bits`, before the compare-exchange, or before
the store to `record_seed`. -/
inductive Pc where
  | testQuit
  | testBits
  | attempt
  | exchange (seed bits : u32)
  | store (seed bits : u32)
  | done
  deriving DecidableEq

/-- Where `FindRuleMagic` is, from its first wait on. -/
inductive MainPc where
  | waiting
  | joining
  | readSeed
  | readBits (seed : u32)
  | returned (result : Option (u32 × u32))
  deriving DecidableEq

/-- The record, the signal, and `n` workers. -/
structure Search (n : Nat) where
  recordBits : u32
  recordSeed : u32
  quitSignal : Bool
  xoro : Fin n → XoroState
  pc : Fin n → Pc
  main : MainPc

/-- `cfg.target_bits`. -/
def targetBits (rules : List NtfeRule) : u32 := bsr (BitVec.ofNat 32 rules.length) + 1

/-- The search once the threads are created, with these identifiers. -/
def Search.start {n : Nat} (threadId : Fin n → u32) : Search n where
  recordBits := bsr (BitVec.ofNat 32 NTFE_MAX_RULES) + 1
  recordSeed := 0
  quitSignal := false
  xoro := fun i => xoroSeed ((threadId i).setWidth 64)
  pc := fun _ => .testQuit
  main := .waiting

def Search.goto {n : Nat} (s : Search n) (i : Fin n) (pc : Pc) : Search n :=
  { s with pc := Function.update s.pc i pc }

/-- One step of `ThreadEntry`. -/
def threadEntry (rules : List NtfeRule) {n : Nat} (s : Search n) (i : Fin n) :
    Except Blocked (Search n) :=
  match s.pc i with
  | .testQuit => .ok (s.goto i (if s.quitSignal then .done else .testBits))
  | .testBits => .ok (s.goto i (if targetBits rules < s.recordBits then .attempt else .done))
  | .attempt =>
      let r := xoroRand (s.xoro i)
      let seed : u32 := r.1.setWidth 32
      let bits := s.recordBits - 1
      tryRules seed bits rules (fun _ => false) >>= fun free =>
      .ok ({ s with xoro := Function.update s.xoro i r.2 }.goto i
        (if free then .exchange seed bits else .testQuit))
  | .exchange seed bits =>
      if s.recordBits = bits + 1 then .ok ({ s with recordBits := bits }.goto i (.store seed bits))
      else .ok (s.goto i .testQuit)
  | .store seed _ => .ok ({ s with recordSeed := seed }.goto i .testQuit)
  | .done => .error .refused

/-- How many handles `WaitForMultipleObjects` can wait for; for more it returns at once. -/
def MAXIMUM_WAIT_OBJECTS : Nat := 64

/-- One step of `FindRuleMagic`. The first wait may end at any time, by its timeout. -/
def findRuleMagic {n : Nat} (s : Search n) : Except Blocked (Search n) :=
  match s.main with
  | .waiting => .ok { s with quitSignal := true, main := .joining }
  | .joining =>
      if (∀ i, s.pc i = .done) ∨ MAXIMUM_WAIT_OBJECTS < n then
        if bsr (BitVec.ofNat 32 NTFE_MAX_RULES) < s.recordBits then
          .ok { s with main := .returned none }
        else .ok { s with main := .readSeed }
      else .error .refused
  | .readSeed => .ok { s with main := .readBits s.recordSeed }
  | .readBits seed => .ok { s with main := .returned (some (seed, s.recordBits)) }
  | .returned _ => .error .refused

/-- A turn of one of the threads. -/
inductive Turn (n : Nat) where
  | worker (i : Fin n)
  | main

def step (rules : List NtfeRule) {n : Nat} (s : Search n) :
    Turn n → Except Blocked (Unit × Search n)
  | .worker i => threadEntry rules s i >>= fun s => .ok ((), s)
  | .main => findRuleMagic s >>= fun s => .ok ((), s)

end Ntfw.Tool
