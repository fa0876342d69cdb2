import Ntfw.Lib.Transition

set_option autoImplicit false

/-! # Sections under a spin lock, one access at a time

Threads share a memory of words. A call of a thread first looks at the memory without the lock,
and then either returns or enters a section: it sets the lock with an atomic test-and-set, spins
while somebody else has it, goes through its section access by access, and clears the lock with
a load and a store. The lock is part of a word that sections also write (`Lock`), so a section
has to keep it set (`Client.keeps`).

The result is `atomicity`: in every interleaving the sections take effect one after another, in
the order of their releases. -/

namespace SpinLock

variable {Loc Word ρ α β T : Type}

abbrev Memory (Loc Word : Type) := Loc → Word

/-! ## Programs by their accesses -/

/-- A program on a memory: it returns, or its next access is a load or a store. -/
inductive Prog (Loc Word ρ : Type) where
  | ret (r : ρ)
  | load (l : Loc) (k : Word → Prog Loc Word ρ)
  | store (l : Loc) (w : Word) (k : Prog Loc Word ρ)

namespace Prog

def bind : Prog Loc Word α → (α → Prog Loc Word β) → Prog Loc Word β
  | ret r, f => f r
  | load l k, f => load l fun w => (k w).bind f
  | store l w k, f => store l w (k.bind f)

instance : Monad (Prog Loc Word) where
  pure := ret
  bind := bind

theorem bind_assoc {γ : Type} (p : Prog Loc Word α) (f : α → Prog Loc Word β)
    (g : β → Prog Loc Word γ) : (p.bind f).bind g = p.bind fun r => (f r).bind g := by
  induction p with
  | ret r => rfl
  | load l k ih => exact congrArg (load l) (funext ih)
  | store l w k ih => exact congrArg (store l w) ih

/-- Load a word. -/
def fetch (l : Loc) : Prog Loc Word Word := load l ret

/-- Store a word. -/
def put (l : Loc) (w : Word) : Prog Loc Word Unit := store l w (ret ())

/-- Change a word, as an assignment to a field of it does: a load and a store. -/
def modify (l : Loc) (f : Word → Word) : Prog Loc Word Unit := load l fun w => put l (f w)

/-- Load the words of an array, one after another. -/
def gather : (n : Nat) → (Fin n → Loc) → Prog Loc Word (Fin n → Word)
  | 0, _ => ret Fin.elim0
  | n + 1, loc => do
      let w ← fetch (loc 0)
      let ws ← gather n fun i => loc i.succ
      return Fin.cons w ws

/-- The program loads and never stores. -/
def LoadsOnly : Prog Loc Word ρ → Prop
  | ret _ => True
  | load _ k => ∀ w, (k w).LoadsOnly
  | store _ _ _ => False

theorem LoadsOnly.bind {p : Prog Loc Word α} {f : α → Prog Loc Word β} (hp : p.LoadsOnly)
    (hf : ∀ r, (f r).LoadsOnly) : (p >>= f).LoadsOnly := by
  show (p.bind f).LoadsOnly
  induction p with
  | ret r => exact hf r
  | load l k ih => exact fun w => ih w (hp w)
  | store l w k ih => exact hp.elim

theorem loadsOnly_pure (r : ρ) : (pure r : Prog Loc Word ρ).LoadsOnly := trivial

theorem loadsOnly_fetch (l : Loc) : (fetch l : Prog Loc Word Word).LoadsOnly := fun _ => trivial

theorem loadsOnly_gather (n : Nat) (loc : Fin n → Loc) :
    (gather n loc : Prog Loc Word (Fin n → Word)).LoadsOnly := by
  induction n with
  | zero => trivial
  | succ n ih =>
      exact (loadsOnly_fetch _).bind fun w => (ih fun i => loc i.succ).bind fun ws => loadsOnly_pure _

variable [DecidableEq Loc]

/-- Run the program with nobody else at the memory. -/
def run : Prog Loc Word ρ → Memory Loc Word → ρ × Memory Loc Word
  | ret r, m => (r, m)
  | load l k, m => (k (m l)).run m
  | store l w k, m => k.run (Function.update m l w)

@[simp] theorem run_pure (r : ρ) (m : Memory Loc Word) :
    (pure r : Prog Loc Word ρ).run m = (r, m) := rfl

@[simp] theorem run_bind (p : Prog Loc Word α) (f : α → Prog Loc Word β) (m : Memory Loc Word) :
    (p >>= f).run m = (f (p.run m).1).run (p.run m).2 := by
  show (p.bind f).run m = _
  induction p generalizing m with
  | ret r => rfl
  | load l k ih => exact ih (m l) m
  | store l w k ih => exact ih (Function.update m l w)

@[simp] theorem run_fetch (l : Loc) (m : Memory Loc Word) :
    (fetch l : Prog Loc Word Word).run m = (m l, m) := rfl

@[simp] theorem run_put (l : Loc) (w : Word) (m : Memory Loc Word) :
    (put l w : Prog Loc Word Unit).run m = ((), Function.update m l w) := rfl

@[simp] theorem run_modify (l : Loc) (f : Word → Word) (m : Memory Loc Word) :
    (modify l f : Prog Loc Word Unit).run m = ((), Function.update m l (f (m l))) := rfl

@[simp] theorem run_ite (c : Prop) [Decidable c] (p q : Prog Loc Word ρ) (m : Memory Loc Word) :
    (if c then p else q).run m = if c then p.run m else q.run m := by
  split <;> rfl

@[simp] theorem run_gather (n : Nat) (loc : Fin n → Loc) (m : Memory Loc Word) :
    (gather n loc : Prog Loc Word (Fin n → Word)).run m = (fun i => m (loc i), m) := by
  induction n with
  | zero => exact congrArg (·, m) (funext fun i => i.elim0)
  | succ n ih =>
      simp only [gather, run_bind, run_fetch, ih, run_pure]
      exact congrArg (·, m) (Fin.cons_self_tail fun i => m (loc i))

end Prog

/-! ## Locks and sections -/

/-- A lock that is part of a word: how a test-and-set takes it and how it is dropped. -/
structure Lock (Loc Word : Type) where
  loc : Loc
  held : Word → Bool
  take : Word → Word
  drop : Word → Word
  held_take : ∀ w, held (take w) = true
  held_drop : ∀ w, held (drop w) = false

variable [DecidableEq Loc] {L : Lock Loc Word}

namespace Lock

/-- The lock is taken. -/
def Taken (L : Lock Loc Word) (m : Memory Loc Word) : Prop := L.held (m L.loc) = true

/-- The memory with the lock taken. -/
def acquire (L : Lock Loc Word) (m : Memory Loc Word) : Memory Loc Word :=
  Function.update m L.loc (L.take (m L.loc))

/-- The memory with the lock dropped. -/
def release (L : Lock Loc Word) (m : Memory Loc Word) : Memory Loc Word :=
  Function.update m L.loc (L.drop (m L.loc))

theorem taken_acquire (L : Lock Loc Word) (m : Memory Loc Word) : L.Taken (L.acquire m) := by
  rw [Taken, acquire, Function.update_self]
  exact L.held_take _

theorem not_taken_release (L : Lock Loc Word) (m : Memory Loc Word) :
    ¬ L.Taken (L.release m) := by
  rw [Taken, release, Function.update_self, L.held_drop]
  exact Bool.false_ne_true

end Lock

namespace Prog

/-- Run from `m`, the memory satisfies `P` before every access and at the end. -/
def Always (P : Memory Loc Word → Prop) : Prog Loc Word ρ → Memory Loc Word → Prop
  | ret _, m => P m
  | load l k, m => P m ∧ (k (m l)).Always P m
  | store l w k, m => P m ∧ k.Always P (Function.update m l w)

section

variable {P Q : Memory Loc Word → Prop}

theorem Always.head {p : Prog Loc Word ρ} {m : Memory Loc Word} (h : p.Always P m) : P m := by
  cases p with
  | ret r => exact h
  | load l k => exact h.1
  | store l w k => exact h.1

theorem Always.last {p : Prog Loc Word ρ} {m : Memory Loc Word} (h : p.Always P m) :
    P (p.run m).2 := by
  induction p generalizing m with
  | ret r => exact h
  | load l k ih => exact ih (m l) h.2
  | store l w k ih => exact ih h.2

theorem Always.imp {p : Prog Loc Word ρ} {m : Memory Loc Word} (h : p.Always P m)
    (hPQ : ∀ m, P m → Q m) : p.Always Q m := by
  induction p generalizing m with
  | ret r => exact hPQ m h
  | load l k ih => exact ⟨hPQ m h.1, ih (m l) h.2⟩
  | store l w k ih => exact ⟨hPQ m h.1, ih h.2⟩

theorem always_pure (r : ρ) (m : Memory Loc Word) :
    (pure r : Prog Loc Word ρ).Always P m ↔ P m := Iff.rfl

theorem always_bind {p : Prog Loc Word α} {f : α → Prog Loc Word β} {m : Memory Loc Word} :
    (p >>= f).Always P m ↔ p.Always P m ∧ (f (p.run m).1).Always P (p.run m).2 := by
  show (p.bind f).Always P m ↔ _
  induction p generalizing m with
  | ret r => exact ⟨fun h => ⟨h.head, h⟩, fun h => h.2⟩
  | load l k ih => exact (and_congr_right' (ih (m l))).trans and_assoc.symm
  | store l w k ih => exact (and_congr_right' ih).trans and_assoc.symm

theorem always_fetch (l : Loc) (m : Memory Loc Word) :
    (fetch l : Prog Loc Word Word).Always P m ↔ P m := and_self_iff

theorem always_put (l : Loc) (w : Word) (m : Memory Loc Word) :
    (put l w : Prog Loc Word Unit).Always P m ↔ P m ∧ P (Function.update m l w) := Iff.rfl

theorem always_modify (l : Loc) (f : Word → Word) (m : Memory Loc Word) :
    (modify l f : Prog Loc Word Unit).Always P m ↔ P m ∧ P (Function.update m l (f (m l))) := by
  show P m ∧ P m ∧ _ ↔ _
  rw [and_self_left]
  exact Iff.rfl

theorem always_gather (n : Nat) (loc : Fin n → Loc) (m : Memory Loc Word) :
    (gather n loc : Prog Loc Word (Fin n → Word)).Always P m ↔ P m := by
  induction n with
  | zero => exact Iff.rfl
  | succ n ih =>
      show (fetch (loc 0) >>= fun w => gather n (fun i => loc i.succ) >>= _).Always P m ↔ P m
      rw [always_bind, always_bind, always_fetch, run_fetch, ih, always_pure, run_gather]
      simp only [and_self]

end

end Prog

/-- The calls of the threads. A call looks at the memory without the lock, and then answers or
names the section to enter; a section keeps the lock taken, and between entry and leaving the
memory stands in the relation `G` of the section to what it was at entry. -/
structure Client (L : Lock Loc Word) (Call Op ρ : Type)
    (G : Op → Memory Loc Word → Memory Loc Word → Prop) where
  look : Call → Prog Loc Word (ρ ⊕ Op)
  loads : ∀ c, (look c).LoadsOnly
  body : Op → Prog Loc Word ρ
  keeps : ∀ o m, ¬ L.Taken m → (body o).Always (fun m' => L.Taken m' ∧ G o m m') (L.acquire m)

variable {Call Op : Type} {G : Op → Memory Loc Word → Memory Loc Word → Prop}

/-- A section as one step: the lock is taken, nobody interferes, the lock is dropped. -/
def Client.atomic (K : Client L Call Op ρ G) (o : Op) (m : Memory Loc Word) :
    ρ × Memory Loc Word :=
  (((K.body o).run (L.acquire m)).1, L.release ((K.body o).run (L.acquire m)).2)

/-- The program never stores to the word. -/
def Prog.Spares (l : Loc) : Prog Loc Word ρ → Prop
  | .ret _ => True
  | .load _ k => ∀ w, (k w).Spares l
  | .store l' _ k => l' ≠ l ∧ k.Spares l

omit [DecidableEq Loc] in
theorem Prog.Spares.bind {l : Loc} {p : Prog Loc Word α} {f : α → Prog Loc Word β}
    (hp : p.Spares l) (hf : ∀ r, (f r).Spares l) : (p >>= f).Spares l := by
  show (p.bind f).Spares l
  induction p with
  | ret r => exact hf r
  | load l' k ih => exact fun w => ih w (hp w)
  | store l' w k ih => exact ⟨hp.1, ih hp.2⟩

/-- A section that spares the word of the lock keeps it. -/
theorem Prog.Spares.always {p : Prog Loc Word ρ} {m : Memory Loc Word} (h : p.Spares L.loc)
    (hm : L.Taken m) : p.Always L.Taken m := by
  induction p generalizing m with
  | ret r => exact hm
  | load l k ih => exact ⟨hm, ih (m l) (h (m l)) hm⟩
  | store l w k ih =>
      refine ⟨hm, ih h.2 ?_⟩
      rw [Lock.Taken, Function.update_of_ne h.1.symm]
      exact hm

/-! ## The threads -/

/-- Where a thread is. -/
inductive Phase (Loc Word Call Op ρ : Type) where
  | idle
  | looking (c : Call) (q : Prog Loc Word (ρ ⊕ Op)) (h : q.LoadsOnly)
  | acquiring (o : Op)
  | spinning (o : Op)
  | inside (o : Op) (rest : Prog Loc Word ρ)
  | releasing (o : Op) (r : ρ) (w : Word)

/-- The section the thread is in: it has taken the lock and not yet dropped it. -/
def Phase.op : Phase Loc Word Call Op ρ → Option Op
  | .inside o _ => some o
  | .releasing o _ _ => some o
  | _ => none

/-- The memory, where every thread is, and with their answers the sections that were left and
the calls that entered none, the last one first. -/
structure System (Loc Word T Call Op ρ : Type) where
  mem : Memory Loc Word
  phase : T → Phase Loc Word Call Op ρ
  done : List (Op × ρ)
  seen : List (Call × ρ)

def System.start (T Call Op ρ : Type) (m : Memory Loc Word) : System Loc Word T Call Op ρ :=
  ⟨m, fun _ => .idle, [], []⟩

inductive Event (T Call : Type) where
  | call (t : T) (c : Call)
  | turn (t : T)

/-- Why an event cannot happen: a busy thread takes no call, an idle one no turn. -/
inductive Blocked where
  | busy
  | idle
  deriving DecidableEq

variable [DecidableEq T]

def System.goto (s : System Loc Word T Call Op ρ) (t : T) (ph : Phase Loc Word Call Op ρ) :
    System Loc Word T Call Op ρ :=
  { s with phase := Function.update s.phase t ph }

/-- One access of one thread. The answer is that of the call, when it returns. -/
def step (K : Client L Call Op ρ G) (s : System Loc Word T Call Op ρ) :
    Event T Call → Except Blocked (Option ρ × System Loc Word T Call Op ρ)
  | .call t c =>
      match s.phase t with
      | .idle => .ok (none, s.goto t (.looking c (K.look c) (K.loads c)))
      | _ => .error .busy
  | .turn t =>
      match s.phase t with
      | .idle => .error .idle
      | .looking c (.ret (.inl r)) _ =>
          .ok (some r, { s.goto t .idle with seen := (c, r) :: s.seen })
      | .looking _ (.ret (.inr o)) _ => .ok (none, s.goto t (.acquiring o))
      | .looking c (.load l k) h =>
          .ok (none, s.goto t (.looking c (k (s.mem l)) (h (s.mem l))))
      | .looking _ (.store _ _ _) h => h.elim
      | .acquiring o =>
          -- `lock bts`, in one access; on a lock that is held it writes back what is there.
          .ok (none, if L.held (s.mem L.loc) then s.goto t (.spinning o)
            else { s.goto t (.inside o (K.body o)) with mem := L.acquire s.mem })
      | .spinning o =>
          .ok (none, s.goto t (if L.held (s.mem L.loc) then .spinning o else .acquiring o))
      | .inside o (.ret r) => .ok (none, s.goto t (.releasing o r (s.mem L.loc)))
      | .inside o (.load l k) => .ok (none, s.goto t (.inside o (k (s.mem l))))
      | .inside o (.store l w k) =>
          .ok (none, { s.goto t (.inside o k) with mem := Function.update s.mem l w })
      | .releasing o r w =>
          .ok (some r, { s.goto t .idle with
            mem := Function.update s.mem L.loc (L.drop w)
            done := (o, r) :: s.done })

/-! ## The invariant -/

section

variable (K : Client L Call Op ρ G)

/-- The memory that sections leave when they run one after another, from `m₀`, each with nobody
else at the memory. -/
inductive Sequential (m₀ : Memory Loc Word) : List (Op × ρ) → Memory Loc Word → Prop where
  | nil : Sequential m₀ [] m₀
  | cons {done : List (Op × ρ)} {m : Memory Loc Word} (o : Op) (h : Sequential m₀ done m) :
      Sequential m₀ ((o, (K.atomic o m).1) :: done) (K.atomic o m).2

/-- How far a thread in its section, entered from `A`, has come when the memory is `m`: what is
left of it has the same end as the whole. -/
def Underway (A m : Memory Loc Word) : Phase Loc Word Call Op ρ → Prop
  | .inside o rest => rest.run m = (K.body o).run (L.acquire A)
      ∧ rest.Always (fun m' => L.Taken m' ∧ G o A m') m
  | .releasing o r w => (K.body o).run (L.acquire A) = (r, m) ∧ w = m L.loc
      ∧ L.Taken m ∧ G o A m
  | _ => False

/-- What holds between the accesses, if `A` is what the finished sections have left: either
nobody has the lock, or one thread has it and is under way. -/
inductive Between (A : Memory Loc Word) (s : System Loc Word T Call Op ρ) : Prop where
  | free (hmem : s.mem = A) (hfree : ¬ L.Taken A) (hnone : ∀ t, (s.phase t).op = none)
  | held (t : T) (hway : Underway K A s.mem (s.phase t))
      (hothers : ∀ u, u ≠ t → (s.phase u).op = none)

/-- The invariant of a run from `s₀`. -/
def Inv (s₀ s : System Loc Word T Call Op ρ) : Prop :=
  ∃ new A, s.done = new ++ s₀.done ∧ Sequential K s₀.mem new A ∧ Between K A s

end

variable {K : Client L Call Op ρ G} {A m : Memory Loc Word}
variable {s s' s₀ : System Loc Word T Call Op ρ}

theorem Underway.spec {ph : Phase Loc Word Call Op ρ} (h : Underway K A m ph) :
    ∃ o, ph.op = some o ∧ L.Taken m ∧ G o A m := by
  cases ph with
  | inside o rest => exact ⟨o, rfl, h.2.head⟩
  | releasing o r w => exact ⟨o, rfl, h.2.2⟩
  | idle => cases h
  | looking c q => cases h
  | acquiring o => cases h
  | spinning o => cases h

theorem Underway.op_ne_none {ph : Phase Loc Word Call Op ρ} (h : Underway K A m ph) :
    ph.op ≠ none := by
  obtain ⟨o, ho, -⟩ := h.spec
  rw [ho]
  exact Option.some_ne_none o

/-! ## What one step does -/

/-- Where a step leads, by what it means for the lock. -/
inductive Moved (K : Client L Call Op ρ G) (s : System Loc Word T Call Op ρ) :
    System Loc Word T Call Op ρ → Prop where
  /-- A thread without the lock moves on and stays without it. -/
  | away (t : T) (ph : Phase Loc Word Call Op ρ) (seen : List (Call × ρ))
      (hold : (s.phase t).op = none) (hnew : ph.op = none) :
      Moved K s { s.goto t ph with seen := seen }
  /-- A thread takes the lock. -/
  | enter (t : T) (o : Op) (hold : (s.phase t).op = none) (hfree : ¬ L.Taken s.mem) :
      Moved K s { s.goto t (.inside o (K.body o)) with mem := L.acquire s.mem }
  /-- The thread that has the lock makes an access of its section. -/
  | access (t : T) (ph : Phase Loc Word Call Op ρ) (m : Memory Loc Word)
      (hway : ∀ A, Underway K A s.mem (s.phase t) → Underway K A m ph)
      (hold : (s.phase t).op ≠ none) : Moved K s { s.goto t ph with mem := m }
  /-- It drops the lock. -/
  | leave (t : T) (o : Op) (r : ρ) (w : Word) (hold : s.phase t = .releasing o r w) :
      Moved K s { s.goto t .idle with
        mem := Function.update s.mem L.loc (L.drop w)
        done := (o, r) :: s.done }

theorem step_moved {e : Event T Call} {r : Option ρ} (h : step K s e = .ok (r, s')) :
    Moved K s s' := by
  cases e with
  | call t c =>
      simp only [step] at h
      split at h
      · rename_i hph
        cases h
        exact .away t _ s.seen (by rw [hph]; rfl) rfl
      · cases h
  | turn t =>
      simp only [step] at h
      split at h
      · cases h
      · rename_i hph
        cases h
        exact .away t _ _ (by rw [hph]; rfl) rfl
      · rename_i hph
        cases h
        exact .away t _ s.seen (by rw [hph]; rfl) rfl
      · rename_i hph
        cases h
        exact .away t _ s.seen (by rw [hph]; rfl) rfl
      · rename_i hl _
        exact hl.elim
      · rename_i o hph
        cases h
        split
        · exact .away t _ s.seen (by rw [hph]; rfl) rfl
        · rename_i hl
          exact .enter t o (by rw [hph]; rfl) hl
      · rename_i o hph
        cases h
        split
        · exact .away t _ s.seen (by rw [hph]; rfl) rfl
        · exact .away t _ s.seen (by rw [hph]; rfl) rfl
      · rename_i o r' hph
        cases h
        refine .access t _ s.mem (fun A hA => ?_) (by rw [hph]; exact Option.some_ne_none o)
        rw [hph] at hA
        exact ⟨hA.1.symm, rfl, hA.2⟩
      · rename_i o l k hph
        cases h
        refine .access t _ s.mem (fun A hA => ?_) (by rw [hph]; exact Option.some_ne_none o)
        rw [hph] at hA
        exact ⟨hA.1, hA.2.2⟩
      · rename_i o l w k hph
        cases h
        refine .access t _ _ (fun A hA => ?_) (by rw [hph]; exact Option.some_ne_none o)
        rw [hph] at hA
        exact ⟨hA.1, hA.2.2⟩
      · rename_i o r' w hph
        cases h
        exact .leave t o r' w hph

/-- Whoever is in a section is the one that is under way. -/
theorem Between.underway (h : Between K A s) {t : T} (ht : (s.phase t).op ≠ none) :
    Underway K A s.mem (s.phase t) ∧ ∀ u, u ≠ t → (s.phase u).op = none := by
  cases h with
  | free _ _ hnone => exact absurd (hnone t) ht
  | held u hway hothers =>
      by_cases htu : t = u
      · subst htu
        exact ⟨hway, hothers⟩
      · exact absurd (hothers t htu) ht

omit [DecidableEq Loc] in
theorem goto_op {t u : T} {ph : Phase Loc Word Call Op ρ} (hu : (s.phase u).op = none)
    (hph : ph.op = none) : ((s.goto t ph).phase u).op = none := by
  show (Function.update s.phase t ph u).op = none
  by_cases h : u = t
  · rw [h, Function.update_self]
    exact hph
  · rwa [Function.update_of_ne h]

/-- **A step keeps the invariant.** The section that is left joins those that are done. -/
theorem Moved.inv (h : Moved K s s') (hi : Inv K s₀ s) : Inv K s₀ s' := by
  obtain ⟨new, A, hdone, hseq, hb⟩ := hi
  cases h with
  | away t ph seen hold hnew =>
      refine ⟨new, A, hdone, hseq, ?_⟩
      cases hb with
      | free hmem hfree hnone => exact .free hmem hfree fun u => goto_op (hnone u) hnew
      | held u hway hothers =>
          have hut : u ≠ t := by
            rintro rfl
            exact hway.op_ne_none hold
          refine .held u ?_ fun v hv => goto_op (hothers v hv) hnew
          show Underway K A s.mem (Function.update s.phase t ph u)
          rwa [Function.update_of_ne hut]
  | enter t o hold hfree =>
      cases hb with
      | free hmem hfree' hnone =>
          subst hmem
          refine ⟨new, s.mem, hdone, hseq, .held t ?_ fun u hu => ?_⟩
          · show Underway K s.mem _ (Function.update s.phase t _ t)
            rw [Function.update_self]
            exact ⟨rfl, K.keeps o s.mem hfree⟩
          · show (Function.update s.phase t _ u).op = none
            rw [Function.update_of_ne hu]
            exact hnone u
      | held u hway hothers =>
          obtain ⟨o', -, htaken, -⟩ := hway.spec
          exact absurd htaken hfree
  | access t ph m hway hold =>
      obtain ⟨hw, hothers⟩ := hb.underway hold
      refine ⟨new, A, hdone, hseq, .held t ?_ fun u hu => ?_⟩
      · show Underway K A m (Function.update s.phase t ph t)
        rw [Function.update_self]
        exact hway A hw
      · show (Function.update s.phase t ph u).op = none
        rw [Function.update_of_ne hu]
        exact hothers u hu
  | leave t o r w hold =>
      obtain ⟨hw, hothers⟩ := hb.underway (t := t) (by rw [hold]; exact Option.some_ne_none o)
      rw [hold] at hw
      obtain ⟨hrun, rfl, -, -⟩ := hw
      have hat : K.atomic o A = (r, L.release s.mem) := by rw [Client.atomic, hrun]
      refine ⟨(o, r) :: new, L.release s.mem, congrArg ((o, r) :: ·) hdone, ?_,
        .free rfl (L.not_taken_release _) fun u => ?_⟩
      · have hcons := Sequential.cons o hseq
        rwa [hat] at hcons
      · show (Function.update s.phase t .idle u).op = none
        by_cases hu : u = t
        · rw [hu, Function.update_self]
          rfl
        · rw [Function.update_of_ne hu]
          exact hothers u hu

/-! ## Whole runs -/

open Transition

/-- Nobody is in a section and the lock is not taken. -/
structure Quiet (L : Lock Loc Word) (s : System Loc Word T Call Op ρ) : Prop where
  none : ∀ t, (s.phase t).op = none
  free : ¬ L.Taken s.mem

omit [DecidableEq T] in
theorem Quiet.inv (h : Quiet L s) : Inv K s s :=
  ⟨[], s.mem, rfl, .nil, .free rfl h.free h.none⟩

omit [DecidableEq Loc] [DecidableEq T] in
theorem quiet_start (h : ¬ L.Taken m) : Quiet L (System.start T Call Op ρ m) :=
  ⟨fun _ => rfl, h⟩

theorem Inv.of_run {es : List (Event T Call)} (h : run (step K) s es = .ok s') (hi : Inv K s₀ s) :
    Inv K s₀ s' :=
  run_invariant (fun _ _ _ _ hi hs => (step_moved hs).inv hi) hi h

/-- **Sections take effect one after another**, in the order of their releases, whatever the
interleaving. -/
theorem atomicity {es : List (Event T Call)} (h : run (step K) s es = .ok s') (hq : Quiet L s) :
    Inv K s s' := hq.inv.of_run h

/-- At most one thread is in a section. -/
theorem Inv.exclusive (h : Inv K s₀ s) {t u : T} (ht : (s.phase t).op ≠ none)
    (hu : (s.phase u).op ≠ none) : t = u := by
  obtain ⟨new, A, -, -, hb⟩ := h
  by_contra hne
  exact ht ((hb.underway hu).2 t hne)

omit [DecidableEq T] in
/-- The lock is taken exactly while somebody is in a section. -/
theorem Inv.taken_iff (h : Inv K s₀ s) : L.Taken s.mem ↔ ∃ t, (s.phase t).op ≠ none := by
  obtain ⟨new, A, -, -, hb⟩ := h
  cases hb with
  | free hmem hfree hnone =>
      rw [hmem]
      exact ⟨fun hc => absurd hc hfree, fun ⟨t, ht⟩ => absurd (hnone t) ht⟩
  | held t hway hothers =>
      obtain ⟨o, -, htaken, -⟩ := hway.spec
      exact ⟨fun _ => ⟨t, hway.op_ne_none⟩, fun _ => htaken⟩

/-- Some turns of the thread `t` alone make it idle. -/
def Leaves (K : Client L Call Op ρ G) (t : T) (s : System Loc Word T Call Op ρ) : Prop :=
  ∃ n s', run (step K) s (List.replicate n (.turn t)) = .ok s' ∧ s'.phase t = .idle
    ∧ ∀ u, u ≠ t → s'.phase u = s.phase u

theorem Leaves.of_turn {t : T} {r : Option ρ} {ph : Phase Loc Word Call Op ρ}
    (h : step K s (.turn t) = .ok (r, s')) (hph : s'.phase = Function.update s.phase t ph)
    (hl : Leaves K t s') : Leaves K t s := by
  obtain ⟨n, s'', hrun, hidle, hothers⟩ := hl
  refine ⟨n + 1, s'', run_cons_ok.mpr ⟨r, s', h, hrun⟩, hidle, fun u hu => ?_⟩
  rw [hothers u hu, hph, Function.update_of_ne hu]

theorem leaves_of_releasing {t : T} {o : Op} {r : ρ} {w : Word}
    (h : s.phase t = .releasing o r w) : Leaves K t s := by
  have hstep : step K s (.turn t) = .ok (some r, { s.goto t .idle with
      mem := Function.update s.mem L.loc (L.drop w)
      done := (o, r) :: s.done }) := by simp only [step, h]
  exact .of_turn hstep rfl ⟨0, _, rfl, Function.update_self _ _ _, fun u hu => rfl⟩

/-- What is left of a section is finite. -/
theorem leaves_of_inside {t : T} {o : Op} (rest : Prog Loc Word ρ)
    (h : s.phase t = .inside o rest) : Leaves K t s := by
  induction rest generalizing s with
  | ret r =>
      have hstep : step K s (.turn t)
          = .ok (none, s.goto t (.releasing o r (s.mem L.loc))) := by simp only [step, h]
      exact .of_turn hstep rfl (leaves_of_releasing (Function.update_self _ _ _))
  | load l k ih =>
      have hstep : step K s (.turn t) = .ok (none, s.goto t (.inside o (k (s.mem l)))) := by
        simp only [step, h]
      exact .of_turn hstep rfl (ih (s.mem l) (Function.update_self _ _ _))
  | store l w k ih =>
      have hstep : step K s (.turn t) = .ok (none, { s.goto t (.inside o k) with
          mem := Function.update s.mem l w }) := by simp only [step, h]
      exact .of_turn hstep rfl (ih (Function.update_self _ _ _))

/-- **The lock is never stuck**: by its own turns alone the thread that has it leaves its
section and drops it. -/
theorem Inv.leaves (hi : Inv K s₀ s) {t : T} (ht : (s.phase t).op ≠ none) :
    ∃ n s', run (step K) s (List.replicate n (.turn t)) = .ok s' ∧ ¬ L.Taken s'.mem := by
  have hl : Leaves K t s := by
    cases hph : s.phase t with
    | inside o rest => exact leaves_of_inside rest hph
    | releasing o r w => exact leaves_of_releasing hph
    | idle => exact absurd (by rw [hph]; rfl) ht
    | looking c q h => exact absurd (by rw [hph]; rfl) ht
    | acquiring o => exact absurd (by rw [hph]; rfl) ht
    | spinning o => exact absurd (by rw [hph]; rfl) ht
  obtain ⟨n, s', hrun, hidle, hothers⟩ := hl
  refine ⟨n, s', hrun, fun htaken => ?_⟩
  obtain ⟨u, hu⟩ := (hi.of_run hrun).taken_iff.mp htaken
  by_cases hut : u = t
  · rw [hut, hidle] at hu
    exact hu rfl
  · rw [hothers u hut] at hu
    exact hut (hi.exclusive hu ht)

/-! ## What is seen without the lock -/

/-- Whatever memory it meets at each load, if only it satisfies `R`, the program answers with
something that satisfies `Q`. -/
def Prog.Answers (R : Memory Loc Word → Prop) (Q : ρ → Prop) : Prog Loc Word (ρ ⊕ Op) → Prop
  | .ret (.inl r) => Q r
  | .ret (.inr _) => True
  | .load l k => ∀ m, R m → (k (m l)).Answers R Q
  | .store _ _ k => k.Answers R Q

omit [DecidableEq Loc] in
theorem Prog.answers_of_forall {R : Memory Loc Word → Prop} {Q : ρ → Prop} (hQ : ∀ r, Q r)
    (q : Prog Loc Word (ρ ⊕ Op)) : q.Answers R Q := by
  induction q with
  | ret r =>
      cases r with
      | inl r => exact hQ r
      | inr o => trivial
  | load l k ih => exact fun m _ => ih (m l)
  | store l w k ih => exact ih

omit [DecidableEq Loc] in
/-- What is gathered is in each place a word of some such memory. -/
theorem Prog.answers_gather {R : Memory Loc Word → Prop} {Q : ρ → Prop} (n : Nat)
    (loc : Fin n → Loc) (f : (Fin n → Word) → Prog Loc Word (ρ ⊕ Op))
    (hf : ∀ ws, (∀ i, ∃ m, R m ∧ ws i = m (loc i)) → (f ws).Answers R Q) :
    (gather n loc >>= f).Answers R Q := by
  induction n with
  | zero => exact hf _ fun i => i.elim0
  | succ n ih =>
      intro m hm
      have hrest : ((gather n fun i => loc i.succ).bind fun ws => f (Fin.cons (m (loc 0)) ws)
          ).Answers R Q := by
        refine ih _ _ fun ws hws => hf _ fun i => ?_
        cases i using Fin.cases with
        | zero => exact ⟨m, hm, rfl⟩
        | succ i => exact hws i
      have hassoc := bind_assoc (gather n fun i => loc i.succ)
        (fun ws => ret (Fin.cons (m (loc 0)) ws)) f
      rw [show (fun ws => f (Fin.cons (m (loc 0)) ws))
        = fun ws => (ret (Fin.cons (m (loc 0)) ws) : Prog Loc Word _).bind f from rfl,
        ← hassoc] at hrest
      exact hrest

/-- What the calls without the lock have answered and what those under way will. -/
structure SeenWell (R : Memory Loc Word → Prop) (Q : Call → ρ → Prop)
    (s : System Loc Word T Call Op ρ) : Prop where
  seen : ∀ c r, (c, r) ∈ s.seen → Q c r
  looking : ∀ t c q h, s.phase t = .looking c q h → q.Answers R (Q c)

omit [DecidableEq Loc] [DecidableEq T] in
/-- An idle thread looks at nothing. -/
theorem seenWell_start {R : Memory Loc Word → Prop} {Q : Call → ρ → Prop} :
    SeenWell R Q (System.start T Call Op ρ m) :=
  by
  constructor
  · intro c r h
    cases h
  · intro t c q hq h
    cases h

section

variable {R : Memory Loc Word → Prop} {Q : Call → ρ → Prop}

omit [DecidableEq Loc] in
/-- Only the thread that moves may look at something else than before. -/
theorem SeenWell.goto (h : SeenWell R Q s) {t : T} {ph : Phase Loc Word Call Op ρ}
    (hph : ∀ c q hq, ph = .looking c q hq → q.Answers R (Q c)) : SeenWell R Q (s.goto t ph) := by
  refine ⟨h.seen, fun u c q hq hu => ?_⟩
  have hu' : Function.update s.phase t ph u = .looking c q hq := hu
  by_cases hut : u = t
  · rw [hut, Function.update_self] at hu'
    exact hph c q hq hu'
  · rw [Function.update_of_ne hut] at hu'
    exact h.looking u c q hq hu'

theorem SeenWell.step {e : Event T Call} {r : Option ρ} (h : SeenWell R Q s)
    (hK : ∀ c, (K.look c).Answers R (Q c)) (hR : R s.mem)
    (hs : SpinLock.step K s e = .ok (r, s')) : SeenWell R Q s' := by
  cases e with
  | call t c =>
      simp only [SpinLock.step] at hs
      split at hs
      · cases hs
        refine h.goto fun c' q hq heq => ?_
        cases heq
        exact hK c
      · cases hs
  | turn t =>
      simp only [SpinLock.step] at hs
      split at hs
      · cases hs
      · rename_i c r' hl hph
        cases hs
        refine ⟨fun c' r'' hmem => ?_, (h.goto fun _ _ _ heq => by cases heq).looking⟩
        rcases List.mem_cons.mp hmem with heq | hmem
        · cases heq
          exact h.looking t c _ hl hph
        · exact h.seen c' r'' hmem
      · cases hs
        exact h.goto fun _ _ _ heq => by cases heq
      · rename_i c l k hl hph
        cases hs
        refine h.goto fun c' q hq heq => ?_
        cases heq
        exact h.looking t c _ hl hph s.mem hR
      · rename_i hl _
        exact hl.elim
      · cases hs
        split
        · exact h.goto fun _ _ _ heq => by cases heq
        · exact ⟨h.seen, (h.goto fun _ _ _ heq => by cases heq).looking⟩
      · cases hs
        split
        · exact h.goto fun _ _ _ heq => by cases heq
        · exact h.goto fun _ _ _ heq => by cases heq
      · cases hs
        exact h.goto fun _ _ _ heq => by cases heq
      · cases hs
        exact h.goto fun _ _ _ heq => by cases heq
      · cases hs
        exact ⟨h.seen, (h.goto fun _ _ _ heq => by cases heq).looking⟩
      · cases hs
        exact ⟨h.seen, (h.goto fun _ _ _ heq => by cases heq).looking⟩

/-- **What a call sees without the lock**: if the memory satisfies `R` whenever the run goes
through, every answer given without the lock is one that loads from such memories lead to. -/
theorem seenWell_of_run (hK : ∀ c, (K.look c).Answers R (Q c))
    (hR : ∀ s', Inv K s s' → R s'.mem) (hq : Quiet L s) (hs : SeenWell R Q s)
    {es : List (Event T Call)} (h : run (step K) s es = .ok s') : SeenWell R Q s' := by
  have hrun : Inv K s s' ∧ SeenWell R Q s' :=
    run_invariant (I := fun u => Inv K s u ∧ SeenWell R Q u)
      (fun u _ _ _ hi hu => ⟨(step_moved hu).inv hi.1, hi.2.step hK (hR u hi.1) hu⟩)
      ⟨hq.inv, hs⟩ h
  exact hrun.2

end

end SpinLock
