import Ntfw.Ntfe.Host

set_option autoImplicit false

/-! # Pool allocation by its accesses (`ntfe/host.cpp`)

`host_allocate` takes no lock. Here each of its accesses to what the CPUs share is a step of its
own, and a CPU is as far in the function as its program counter says. `hostAllocate` is the call
that nobody interrupts. -/

namespace Ntfw.Growth

abbrev Cpu := Fin MAX_CPUS

/-- `((idx - HPOOL_GROW/2) & (HPOOL_GROW-1)) == 0`: the call that draws this index grows the
pool. -/
def growthIndex (idx : u32) : Bool := (idx - HPOOL_GROW / 2) &&& (HPOOL_GROW - 1) == 0

/-- The next access of a CPU. In `host_pool_grow` it reads the size, commits the range there,
reads the size again and stores what it adds up to; in the other branch it tests its index, and
tests it again until the pool has it. -/
inductive Pc where
  | idle
  | readBase (idx : u32)
  | commit (idx base : u32)
  | readSize (idx : u32)
  | store (idx size : u32)
  | test (idx : u32)
  | wait (idx : u32)
  deriving DecidableEq

/-- The range is committed and the new size not yet stored. -/
def Pc.growing : Pc → Bool
  | .readSize _ => true
  | .store _ _ => true
  | _ => false

/-- The index that is drawn and not yet returned. -/
def Pc.index : Pc → Option u32
  | .idle => none
  | .readBase idx => some idx
  | .commit idx _ => some idx
  | .readSize idx => some idx
  | .store idx _ => some idx
  | .test idx => some idx
  | .wait idx => some idx

/-- The shared counter and size, the stall counters, where every CPU is; and what has been done
so far: the ranges committed, by their first index, the growths finished and the indices handed
out. -/
structure Pool where
  hp_size : u32
  hp_true_sz : u32
  hpl_grow_stall : Cpu → u32
  pc : Cpu → Pc
  committed : List u32
  grown : Nat
  handed : List u32

/-- After `ntfe_init`, which has grown the pool once. -/
def Pool.init : Pool where
  hp_size := 0
  hp_true_sz := HPOOL_GROW
  hpl_grow_stall := fun _ => 0
  pc := fun _ => .idle
  committed := [0]
  grown := 0
  handed := []

namespace Pool

def setPc (s : Pool) (c : Cpu) (pc : Pc) : Pool := { s with pc := Function.update s.pc c pc }

/-- `host_allocate` returns. -/
def handOut (s : Pool) (c : Cpu) (idx : u32) : Pool :=
  { s.setPc c .idle with handed := idx :: s.handed }

end Pool

/-- The next step of a CPU, and the index if it returns with it. An idle one calls
`host_allocate`. -/
def step (s : Pool) (c : Cpu) : Exec (Option u32 × Pool) :=
  match s.pc c with
  | .idle =>
      let idx := s.hp_size + 1
      let s := { s with hp_size := idx }
      .ok (none, s.setPc c (if growthIndex idx then .readBase idx else .test idx))
  | .readBase idx => .ok (none, s.setPc c (.commit idx s.hp_true_sz))
  | .commit idx base =>
      .ok (none, { s.setPc c (.readSize idx) with committed := base :: s.committed })
  | .readSize idx => .ok (none, s.setPc c (.store idx (s.hp_true_sz + HPOOL_GROW)))
  | .store idx size =>
      .ok (some idx, { s.handOut c idx with hp_true_sz := size, grown := s.grown + 1 })
  | .test idx =>
      if s.hp_true_sz ≤ idx then
        .ok (none, { s.setPc c (.wait idx) with
          hpl_grow_stall := Function.update s.hpl_grow_stall c (s.hpl_grow_stall c + 1) })
      else .ok (some idx, s.handOut c idx)
  | .wait idx =>
      if s.hp_true_sz ≤ idx then .ok (none, s) else .ok (some idx, s.handOut c idx)

end Ntfw.Growth
