import Ntfw.Lib.Memory

set_option autoImplicit false

/-! # Programs that read a memory

A `Reader` is a program over a byte memory that it can only look at by asking for one byte
after the other: what it asks for next may depend on the answers so far. `value` is what it
returns and `trace` are the offsets it has asked for, in order. That a parser stays inside its
buffer is a statement about its trace, and `value_congr` says what it is worth: a program
cannot tell two memories apart that agree on the bytes it reads.
-/

inductive Reader (α : Type) where
  | done (a : α)
  | ask (o : Nat) (k : BitVec 8 → Reader α)

namespace Reader

variable {α β : Type}

/-- What the program returns. -/
def value : Reader α → Mem → α
  | done a, _ => a
  | ask o k, m => (k (m o)).value m

/-- The offsets the program reads. -/
def trace : Reader α → Mem → List Nat
  | done _, _ => []
  | ask o k, m => o :: (k (m o)).trace m

def bind : Reader α → (α → Reader β) → Reader β
  | done a, f => f a
  | ask o k, f => ask o fun b => (k b).bind f

instance : Monad Reader where
  pure := done
  bind := bind

/-! ## Composition -/

@[simp] theorem value_pure (a : α) (m : Mem) : (pure a : Reader α).value m = a := rfl
@[simp] theorem trace_pure (a : α) (m : Mem) : (pure a : Reader α).trace m = [] := rfl

@[simp] theorem value_bind (p : Reader α) (f : α → Reader β) (m : Mem) :
    (p >>= f).value m = (f (p.value m)).value m := by
  induction p with
  | done a => rfl
  | ask o k ih => exact ih (m o)

@[simp] theorem trace_bind (p : Reader α) (f : α → Reader β) (m : Mem) :
    (p >>= f).trace m = p.trace m ++ (f (p.value m)).trace m := by
  induction p with
  | done a => rfl
  | ask o k ih => exact congrArg (o :: ·) (ih (m o))

@[simp] theorem value_ite (c : Prop) [Decidable c] (p q : Reader α) (m : Mem) :
    (if c then p else q).value m = if c then p.value m else q.value m := by
  split <;> rfl

/-- **A program sees what it reads and nothing else**: memories that agree on the trace are
read alike. -/
theorem congr (p : Reader α) {m m' : Mem} (h : ∀ o ∈ p.trace m, m' o = m o) :
    p.value m' = p.value m ∧ p.trace m' = p.trace m := by
  induction p with
  | done a => exact ⟨rfl, rfl⟩
  | ask o k ih =>
      -- The first answer is the same, so both runs go on with the same program.
      have ho : m' o = m o := h o List.mem_cons_self
      obtain ⟨hv, ht⟩ := ih (m o) fun q hq => h q (List.mem_cons_of_mem o hq)
      refine ⟨?_, ?_⟩
      · show (k (m' o)).value m' = _
        rw [ho]
        exact hv
      · show o :: (k (m' o)).trace m' = _
        rw [ho]
        exact congrArg (o :: ·) ht

theorem value_congr (p : Reader α) {m m' : Mem} (h : ∀ o ∈ p.trace m, m' o = m o) :
    p.value m' = p.value m := (p.congr h).1

/-! ## Loads -/

def byte (o : Nat) : Reader (BitVec 8) := ask o done

def le16 (o : Nat) : Reader (BitVec 16) := do
  let lo ← byte o
  let hi ← byte (o + 1)
  pure (hi ++ lo)

def le32 (o : Nat) : Reader (BitVec 32) := do
  let lo ← le16 o
  let hi ← le16 (o + 2)
  pure (hi ++ lo)

def le64 (o : Nat) : Reader (BitVec 64) := do
  let lo ← le32 o
  let hi ← le32 (o + 4)
  pure (hi ++ lo)

/-- The `n` bytes from offset `o` on. -/
def bytes (o : Nat) : Nat → Reader (List (BitVec 8))
  | 0 => pure []
  | n + 1 => do
      let bs ← bytes o n
      let b ← byte (o + n)
      pure (bs ++ [b])

section

variable (o n : Nat) (m : Mem)

@[simp] theorem value_byte : (byte o).value m = m o := rfl
@[simp] theorem value_le16 : (le16 o).value m = m.le16 o := rfl
@[simp] theorem value_le32 : (le32 o).value m = m.le32 o := rfl
@[simp] theorem value_le64 : (le64 o).value m = m.le64 o := rfl

@[simp] theorem value_bytes : (bytes o n).value m = m.bytes o n := by
  induction n with
  | zero => rfl
  | succ n ih =>
      rw [bytes, value_bind, value_bind, value_pure, ih, value_byte, Mem.bytes, Mem.bytes,
        List.range_succ, List.map_append, List.map_singleton]

/-- The `n` offsets from `o` on. -/
def span (o n : Nat) : List Nat := (List.range n).map (o + ·)

theorem mem_span {o n q : Nat} : q ∈ span o n ↔ o ≤ q ∧ q < o + n := by
  rw [span, List.mem_map]
  constructor
  · rintro ⟨i, hi, rfl⟩
    have := List.mem_range.mp hi
    omega
  · rintro ⟨hlo, hhi⟩
    exact ⟨q - o, List.mem_range.mpr (by omega), by omega⟩

theorem span_succ (o n : Nat) : span o (n + 1) = span o n ++ [o + n] := by
  rw [span, span, List.range_succ, List.map_append, List.map_singleton]

@[simp] theorem trace_byte : (byte o).trace m = span o 1 := rfl
@[simp] theorem trace_le16 : (le16 o).trace m = span o 2 := rfl
@[simp] theorem trace_le32 : (le32 o).trace m = span o 4 := rfl
@[simp] theorem trace_le64 : (le64 o).trace m = span o 8 := rfl

@[simp] theorem trace_bytes : (bytes o n).trace m = span o n := by
  induction n with
  | zero => rfl
  | succ n ih =>
      rw [bytes, trace_bind, trace_bind, trace_pure, ih, trace_byte, List.append_nil,
        span_succ o n]
      rfl

end

/-! ## Programs that stay within a region -/

/-- Every offset the program reads satisfies `P`. -/
def Within (P : Nat → Prop) (p : Reader α) (m : Mem) : Prop := ∀ o ∈ p.trace m, P o

/-- The offsets from `lo` up to `hi`. -/
def Inside (lo hi : Nat) (o : Nat) : Prop := lo ≤ o ∧ o < hi

section

variable {P Q : Nat → Prop} {m : Mem}

theorem Within.mono {p : Reader α} (h : p.Within P m) (hPQ : ∀ o, P o → Q o) :
    p.Within Q m := fun o ho => hPQ o (h o ho)

theorem Within.widen {p : Reader α} {lo hi lo' hi' : Nat} (h : p.Within (Inside lo hi) m)
    (hlo : lo' ≤ lo) (hhi : hi ≤ hi') : p.Within (Inside lo' hi') m :=
  h.mono fun _ hq => ⟨Nat.le_trans hlo hq.1, Nat.lt_of_lt_of_le hq.2 hhi⟩

@[simp] theorem within_pure (a : α) : (pure a : Reader α).Within P m := fun _ ho => by cases ho

@[simp] theorem within_bind {p : Reader α} {f : α → Reader β} :
    (p >>= f).Within P m ↔ p.Within P m ∧ (f (p.value m)).Within P m := by
  unfold Within
  rw [trace_bind]
  exact List.forall_mem_append

theorem Within.bind {p : Reader α} {f : α → Reader β} (hp : p.Within P m)
    (hf : (f (p.value m)).Within P m) : (p >>= f).Within P m := within_bind.mpr ⟨hp, hf⟩

@[simp] theorem within_ite {c : Prop} [Decidable c] {p q : Reader α} :
    (if c then p else q).Within P m ↔ (c → p.Within P m) ∧ (¬ c → q.Within P m) := by
  by_cases hc : c
  · simp [hc]
  · simp [hc]

theorem Within.ite {c : Prop} [Decidable c] {p q : Reader α} (hp : c → p.Within P m)
    (hq : ¬ c → q.Within P m) : (if c then p else q).Within P m := within_ite.mpr ⟨hp, hq⟩

/-- A span of at least one offset lies in a region if its ends do. -/
theorem forall_mem_span {lo hi o n : Nat} :
    (∀ q ∈ span o n, Inside lo hi q) ↔ n = 0 ∨ (lo ≤ o ∧ o + n ≤ hi) := by
  simp only [mem_span, Inside]
  constructor
  · intro h
    by_cases hn : n = 0
    · exact Or.inl hn
    · -- The first and the last offset of the span.
      have h1 := h o (by omega)
      have h2 := h (o + (n - 1)) (by omega)
      exact Or.inr (by omega)
  · rintro h q hq
    omega

section

variable {lo hi : Nat} (o n : Nat)

@[simp] theorem inside_byte : (byte o).Within (Inside lo hi) m ↔ lo ≤ o ∧ o + 1 ≤ hi := by
  rw [Within, trace_byte, forall_mem_span]
  simp

@[simp] theorem inside_le16 : (le16 o).Within (Inside lo hi) m ↔ lo ≤ o ∧ o + 2 ≤ hi := by
  rw [Within, trace_le16, forall_mem_span]
  simp

@[simp] theorem inside_le32 : (le32 o).Within (Inside lo hi) m ↔ lo ≤ o ∧ o + 4 ≤ hi := by
  rw [Within, trace_le32, forall_mem_span]
  simp

@[simp] theorem inside_le64 : (le64 o).Within (Inside lo hi) m ↔ lo ≤ o ∧ o + 8 ≤ hi := by
  rw [Within, trace_le64, forall_mem_span]
  simp

@[simp] theorem inside_bytes :
    (bytes o n).Within (Inside lo hi) m ↔ n = 0 ∨ (lo ≤ o ∧ o + n ≤ hi) := by
  rw [Within, trace_bytes, forall_mem_span]

end

end

/-! ## Pointers into the memory -/

/-- The program run on what lies behind the offset `base`. -/
def shift (base : Nat) : Reader α → Reader α
  | done a => done a
  | ask o k => ask (base + o) fun b => (k b).shift base

@[simp] theorem value_shift (base : Nat) (p : Reader α) (m : Mem) :
    (p.shift base).value m = p.value fun i => m (base + i) := by
  induction p with
  | done a => rfl
  | ask o k ih => exact ih (m (base + o))

@[simp] theorem trace_shift (base : Nat) (p : Reader α) (m : Mem) :
    (p.shift base).trace m = (p.trace fun i => m (base + i)).map (base + ·) := by
  induction p with
  | done a => rfl
  | ask o k ih => exact congrArg ((base + o) :: ·) (ih (m (base + o)))

/-- Behind `base` there is as much of the region as it reaches beyond it. -/
theorem inside_shift {base hi : Nat} {p : Reader α} {m : Mem} :
    (p.shift base).Within (Inside 0 hi) m
      ↔ p.Within (Inside 0 (hi - base)) fun i => m (base + i) := by
  unfold Within
  rw [trace_shift, List.forall_mem_map]
  refine forall₂_congr fun o _ => ?_
  unfold Inside
  omega

/-! ## Programs that can fail -/

section

variable {ε : Type} {P : Nat → Prop} {m : Mem}

@[simp] theorem value_run_pure (a : α) : (pure a : ExceptT ε Reader α).run.value m = .ok a := rfl

@[simp] theorem value_run_throw (e : ε) :
    (throw e : ExceptT ε Reader α).run.value m = .error e := rfl

@[simp] theorem value_run_lift (p : Reader α) :
    (liftM p : ExceptT ε Reader α).run.value m = .ok (p.value m) := value_bind p _ m

theorem value_run_bind (x : ExceptT ε Reader α) (f : α → ExceptT ε Reader β) :
    (x >>= f).run.value m = x.run.value m >>= fun a => (f a).run.value m := by
  rw [ExceptT.run_bind, value_bind]
  cases x.run.value m <;> rfl

theorem value_run_lift_bind (p : Reader α) (f : α → ExceptT ε Reader β) :
    ((liftM p : ExceptT ε Reader α) >>= f).run.value m = (f (p.value m)).run.value m := by
  rw [value_run_bind, value_run_lift]
  rfl

@[simp] theorem value_run_ite (c : Prop) [Decidable c] (x y : ExceptT ε Reader α) :
    (if c then x else y).run.value m = if c then x.run.value m else y.run.value m := by
  split <;> rfl

@[simp] theorem value_run_dite (c : Prop) [Decidable c] (x : c → ExceptT ε Reader α)
    (y : ¬ c → ExceptT ε Reader α) : (if h : c then x h else y h).run.value m
      = if h : c then (x h).run.value m else (y h).run.value m := by
  split <;> rfl

theorem trace_run_lift (p : Reader α) :
    (liftM p : ExceptT ε Reader α).run.trace m = p.trace m := by
  show (p >>= fun a => pure (Except.ok a) : Reader (Except ε α)).trace m = _
  rw [trace_bind, trace_pure, List.append_nil]

theorem trace_run_lift_bind (p : Reader α) (f : α → ExceptT ε Reader β) :
    ((liftM p : ExceptT ε Reader α) >>= f).run.trace m
      = p.trace m ++ (f (p.value m)).run.trace m := by
  rw [ExceptT.run_bind, trace_bind, trace_run_lift, value_run_lift]

theorem trace_run_bind_ok {x : ExceptT ε Reader α} {f : α → ExceptT ε Reader β} {a : α}
    (h : x.run.value m = .ok a) :
    (x >>= f).run.trace m = x.run.trace m ++ (f a).run.trace m := by
  rw [ExceptT.run_bind, trace_bind, h]

theorem trace_run_bind_error {x : ExceptT ε Reader α} {f : α → ExceptT ε Reader β} {e : ε}
    (h : x.run.value m = .error e) : (x >>= f).run.trace m = x.run.trace m := by
  rw [ExceptT.run_bind, trace_bind, h]
  exact List.append_nil _

@[simp] theorem within_run_pure (a : α) : (pure a : ExceptT ε Reader α).run.Within P m :=
  within_pure _

@[simp] theorem within_run_throw (e : ε) : (throw e : ExceptT ε Reader α).run.Within P m :=
  within_pure _

theorem within_run_lift {p : Reader α} :
    (liftM p : ExceptT ε Reader α).run.Within P m ↔ p.Within P m := by
  rw [Within, trace_run_lift, Within]

/-- What follows a failure reads nothing. -/
theorem within_run_bind {x : ExceptT ε Reader α} {f : α → ExceptT ε Reader β} :
    (x >>= f).run.Within P m
      ↔ x.run.Within P m ∧ ∀ a, x.run.value m = .ok a → (f a).run.Within P m := by
  rw [ExceptT.run_bind, within_bind]
  -- Both sides ask for the reads of the first part; the second part depends on its outcome.
  refine and_congr_right fun _ => ?_
  cases x.run.value m with
  | error e => simp
  | ok a => simp

theorem within_run_lift_bind {p : Reader α} {f : α → ExceptT ε Reader β} :
    ((liftM p : ExceptT ε Reader α) >>= f).run.Within P m
      ↔ p.Within P m ∧ (f (p.value m)).run.Within P m := by
  rw [within_run_bind, within_run_lift, value_run_lift]
  simp

theorem within_run_ite {c : Prop} [Decidable c] {x y : ExceptT ε Reader α} :
    (if c then x else y).run.Within P m
      ↔ (c → x.run.Within P m) ∧ (¬ c → y.run.Within P m) := by
  by_cases hc : c
  · simp [hc]
  · simp [hc]

theorem within_run_dite {c : Prop} [Decidable c] {x : c → ExceptT ε Reader α}
    {y : ¬ c → ExceptT ε Reader α} : (if h : c then x h else y h).run.Within P m
      ↔ (∀ hc, (x hc).run.Within P m) ∧ (∀ hc, (y hc).run.Within P m) := by
  by_cases hc : c
  · simp [hc]
  · simp [hc]

end

end Reader
