import Ntfw.Tool.Phash
import Ntfw.Lib.Transition

set_option autoImplicit false

/-! # The search under every interleaving

A worker takes the record in two steps: it lowers `record_bits` by a compare-exchange and then
stores its seed. What `FindRuleMagic` returns is right if every seed that is stored is still
collision-free for the `record_bits` of that moment, and if the search for a single rule does
not go on from a record of one bit. Neither is enforced between two workers; a worker that is
alone gets both. -/

namespace Ntfw.Tool

open Transition

variable {n : Nat}

/-! ## One attempt -/

/-- An attempt that gets to the end has found no collision, neither among the rules nor with
the slots taken before. -/
theorem tryRules_ok {seed bits : u32} {rules : List NtfeRule} {table : Table}
    (h : tryRules seed bits rules table = .ok true) :
    CollisionFree rules seed bits
    ∧ ∀ rl ∈ rules, ∀ slot, table slot = true → (slotOf seed bits rl).toNat ≠ slot.val := by
  induction rules generalizing table with
  | nil => exact ⟨List.Pairwise.nil, fun _ hrl => by cases hrl⟩
  | cons rl rls ih =>
      rw [tryRules] at h
      split at h
      · rename_i hlt
        dsimp only at h
        split at h
        · cases h
        · rename_i hfree
          obtain ⟨hcf, htable⟩ := ih h
          refine ⟨List.pairwise_cons.mpr ⟨?_, hcf⟩, ?_⟩
          · intro rl' hrl' heq
            refine htable rl' hrl' ⟨(slotOf seed bits rl).toNat, hlt⟩ ?_
              (congrArg BitVec.toNat heq.symm)
            exact Function.update_self _ _ _
          · intro rl' hrl' slot hslot heq
            rcases List.mem_cons.mp hrl' with rfl | hrl'
            · exact hfree (by simpa [heq] using hslot)
            · refine htable rl' hrl' slot ?_ heq
              by_cases hs : slot = ⟨(slotOf seed bits rl).toNat, hlt⟩
              · rw [hs, Function.update_self]
              · rw [Function.update_of_ne hs, hslot]
      · cases h

/-- With no bits at all there is one slot. -/
theorem not_collisionFree_zero {rules : List NtfeRule} {seed : u32} (h : 2 ≤ rules.length) :
    ¬ CollisionFree rules seed 0 := by
  have hslot : ∀ rl, slotOf seed 0 rl = 0 := by
    intro rl
    have hmask : shl32 1 (0 : u32).toNat - 1 = 0#32 := by decide
    rw [slotOf, hmask, BitVec.and_zero]
    rfl
  match rules, h with
  | a :: b :: rest, _ =>
      intro hfree
      exact (List.pairwise_cons.mp hfree).1 b List.mem_cons_self ((hslot a).trans (hslot b).symm)

/-! ## The condition and the invariant -/

/-- The pair is what the engine needs: a size of 1 to 7 bits, and a collision-free seed. -/
def Suits (rules : List NtfeRule) (seed bits : u32) : Prop :=
  1 ≤ bits.toNat ∧ bits.toNat ≤ 7 ∧ CollisionFree rules seed bits

/-- What is returned suits the rules. -/
def Consistent (rules : List NtfeRule) (s : Search n) : Prop :=
  ∀ seed bits, s.main = .returned (some (seed, bits)) → Suits rules seed bits

/-- The condition on a step. A seed that is stored is collision-free for the record of that
moment; for a single rule, no attempt starts from a record of one bit; and the workers are
no more than one can wait for, or they have all ended. -/
def StepOk (rules : List NtfeRule) (s : Search n) : Turn n → Prop
  | .worker i =>
      (s.pc i = .attempt → rules.length = 1 → s.recordBits ≠ 1)
      ∧ ∀ seed bits, s.pc i = .store seed bits → CollisionFree rules seed s.recordBits
  | .main => s.main = .joining → n ≤ MAXIMUM_WAIT_OBJECTS ∨ ∀ i, s.pc i = .done

/-- A fact about the seed of a pending store can be decided where the fact can. -/
def Pc.decidableStore {P : u32 → Prop} [DecidablePred P] :
    (pc : Pc) → Decidable (∀ seed bits, pc = .store seed bits → P seed)
  | .store seed _ => decidable_of_iff (P seed)
      ⟨fun h _ _ heq => (Pc.store.inj heq).1 ▸ h, fun h => h seed _ rfl⟩
  | .testQuit | .testBits | .attempt | .exchange _ _ | .done => isTrue nofun

instance (rules : List NtfeRule) (s : Search n) : (turn : Turn n) → Decidable (StepOk rules s turn)
  | .worker i =>
      have := (s.pc i).decidableStore (P := fun seed => CollisionFree rules seed s.recordBits)
      inferInstanceAs (Decidable (_ ∧ _))
  | .main => inferInstanceAs (Decidable (_ → _))

/-- A worker has found a seed for a number of bits, and has one of them yet to publish. -/
def Found (pc : Pc) (seed bits : u32) : Prop := pc = .exchange seed bits ∨ pc = .store seed bits

/-- **The invariant of the search.** -/
structure Inv (rules : List NtfeRule) (s : Search n) : Prop where
  pos : 1 ≤ s.recordBits.toNat
  le : s.recordBits.toNat ≤ 8
  found : ∀ i seed bits, Found (s.pc i) seed bits → Suits rules seed bits
  /-- Once no store is pending, the two halves of the record belong together. -/
  pair : (∀ i seed bits, s.pc i ≠ .store seed bits) → s.recordBits.toNat ≤ 7 →
    CollisionFree rules s.recordSeed s.recordBits
  joined : s.main = .readSeed ∨ (∃ seed, s.main = .readBits seed) →
    (∀ i, s.pc i = .done) ∧ s.recordBits.toNat ≤ 7
  seed : ∀ seed, s.main = .readBits seed → seed = s.recordSeed
  consistent : Consistent rules s

theorem toNat_bsr_max : bsr (BitVec.ofNat 32 NTFE_MAX_RULES) = 7 := by decide

theorem inv_start (rules : List NtfeRule) (threadId : Fin n → u32) :
    Inv rules (Search.start threadId) where
  pos := by
    show 1 ≤ (bsr (BitVec.ofNat 32 NTFE_MAX_RULES) + 1).toNat
    decide
  le := by
    show (bsr (BitVec.ofNat 32 NTFE_MAX_RULES) + 1).toNat ≤ 8
    decide
  found := by
    rintro i seed bits (h | h)
    · cases h
    · cases h
  pair := by
    intro _ hle
    have hlt : ¬ (bsr (BitVec.ofNat 32 NTFE_MAX_RULES) + 1).toNat ≤ 7 := by decide
    exact absurd hle hlt
  joined := by
    rintro (h | ⟨seed, h⟩)
    · cases h
    · cases h
  seed := fun seed h => by cases h
  consistent := fun seed bits h => by cases h

/-! ## The steps of a worker -/

/-- While a worker has not ended, the main thread does not read the record. -/
theorem Inv.not_reading {rules : List NtfeRule} {s : Search n} (h : Inv rules s) {i : Fin n}
    (hbusy : s.pc i ≠ .done) : ¬ (s.main = .readSeed ∨ ∃ seed, s.main = .readBits seed) :=
  fun hmain => hbusy ((h.joined hmain).1 i)

/-- One worker's step leaves the others what they have found. -/
theorem Inv.found_goto {rules : List NtfeRule} {s : Search n} (h : Inv rules s) {i : Fin n}
    {pc : Pc} (hpc : ∀ seed bits, Found pc seed bits → Suits rules seed bits) :
    ∀ j seed bits, Found (Function.update s.pc i pc j) seed bits → Suits rules seed bits := by
  intro j seed bits hj
  by_cases hji : j = i
  · subst hji
    rw [Function.update_self] at hj
    exact hpc seed bits hj
  · rw [Function.update_of_ne hji] at hj
    exact h.found j seed bits hj

/-- A worker takes a step that leaves the record alone. -/
theorem Inv.goto {rules : List NtfeRule} {s : Search n} (h : Inv rules s) {i : Fin n} {pc : Pc}
    (xoro : Fin n → XoroState) (hbusy : s.pc i ≠ .done)
    (hfrom : ∀ seed bits, s.pc i ≠ .store seed bits)
    (hpc : ∀ seed bits, Found pc seed bits → Suits rules seed bits) :
    Inv rules ({ s with xoro := xoro }.goto i pc) := by
  refine ⟨h.pos, h.le, h.found_goto hpc, ?_, ?_, h.seed, h.consistent⟩
  · intro hnone
    refine h.pair fun j seed bits hj => ?_
    by_cases hji : j = i
    · subst hji
      exact hfrom seed bits hj
    · exact hnone j seed bits (by simpa [Search.goto, hji] using hj)
  · exact fun hmain => absurd hmain (h.not_reading hbusy)

/-- What a worker that finds no collision takes to the compare-exchange. -/
theorem Inv.attempt {rules : List NtfeRule} (hne : rules ≠ []) {s : Search n} (h : Inv rules s)
    (hone : rules.length = 1 → s.recordBits ≠ 1) {seed : u32}
    (hfree : CollisionFree rules seed (s.recordBits - 1)) :
    Suits rules seed (s.recordBits - 1) := by
  have hpos := h.pos
  have hle := h.le
  have hlen : 1 ≤ rules.length := List.length_pos_iff.mpr hne
  have hsub : (s.recordBits - 1).toNat = s.recordBits.toNat - 1 :=
    BitVec.toNat_sub_of_le (show (1 : u32).toNat ≤ s.recordBits.toNat from hpos)
  have htwo : s.recordBits ≠ 1 := by
    intro heq
    by_cases hsingle : rules.length = 1
    · exact hone hsingle heq
    · rw [heq] at hfree
      exact not_collisionFree_zero (by omega) hfree
  have hne1 : s.recordBits.toNat ≠ 1 := fun heq => htwo (BitVec.eq_of_toNat_eq heq)
  exact ⟨by omega, by omega, hfree⟩

theorem inv_worker {rules : List NtfeRule} (hne : rules ≠ []) {s t : Search n} {i : Fin n}
    (h : Inv rules s) (hok : StepOk rules s (.worker i)) (hs : threadEntry rules s i = .ok t) :
    Inv rules t := by
  unfold threadEntry at hs
  cases hpc : s.pc i with
  | testQuit =>
      rw [hpc] at hs
      cases hs
      refine h.goto s.xoro (by simp [hpc]) (by simp [hpc]) ?_
      split <;> simp [Found]
  | testBits =>
      rw [hpc] at hs
      cases hs
      refine h.goto s.xoro (by simp [hpc]) (by simp [hpc]) ?_
      split <;> simp [Found]
  | attempt =>
      rw [hpc] at hs
      obtain ⟨free, htry, hs⟩ := Except.bind_eq_ok.mp hs
      cases hs
      refine h.goto _ (by simp [hpc]) (by simp [hpc]) ?_
      cases free with
      | false => simp [Found]
      | true =>
          rintro seed bits (hex | hst)
          · cases hex
            exact h.attempt hne (hok.1 hpc) (tryRules_ok htry).1
          · cases hst
  | exchange seed bits =>
      rw [hpc] at hs
      dsimp only at hs
      have hsuits := h.found i seed bits (Or.inl hpc)
      have hnot := h.not_reading (show s.pc i ≠ .done by simp [hpc])
      split at hs
      · cases hs
        -- The record is lowered, and the store of the seed is pending.
        refine ⟨hsuits.1, Nat.le_succ_of_le hsuits.2.1, h.found_goto ?_, ?_, ?_, h.seed,
          h.consistent⟩
        · rintro seed' bits' (hex | hst)
          · cases hex
          · cases hst
            exact hsuits
        · intro hnone
          exact absurd (by simp [Search.goto]) (hnone i seed bits)
        · exact fun hmain => absurd hmain hnot
      · cases hs
        exact h.goto s.xoro (by simp [hpc]) (by simp [hpc]) (by simp [Found])
  | store seed bits =>
      rw [hpc] at hs
      cases hs
      have hnot := h.not_reading (show s.pc i ≠ .done by simp [hpc])
      refine ⟨h.pos, h.le, h.found_goto (by simp [Found]), ?_, ?_, ?_, h.consistent⟩
      · exact fun _ _ => hok.2 seed bits hpc
      · exact fun hmain => absurd hmain hnot
      · exact fun seed' hmain => absurd (Or.inr ⟨seed', hmain⟩) hnot
  | done =>
      rw [hpc] at hs
      cases hs

/-! ## The steps of the main thread -/

/-- The main thread goes on, and does not read the record yet or any more. -/
theorem Inv.setMain {rules : List NtfeRule} {s : Search n} (h : Inv rules s) (quit : Bool)
    {main : MainPc} (hreading : main ≠ .readSeed ∧ ∀ seed, main ≠ .readBits seed)
    (hret : ∀ seed bits, main = .returned (some (seed, bits)) → Suits rules seed bits) :
    Inv rules { s with quitSignal := quit, main := main } := by
  refine ⟨h.pos, h.le, h.found, h.pair, ?_, ?_, hret⟩
  · rintro (hm | ⟨seed, hm⟩)
    · exact absurd hm hreading.1
    · exact absurd hm (hreading.2 seed)
  · exact fun seed hm => absurd hm (hreading.2 seed)

theorem inv_main {rules : List NtfeRule} {s t : Search n} (h : Inv rules s)
    (hok : StepOk rules s .main) (hs : findRuleMagic s = .ok t) : Inv rules t := by
  unfold findRuleMagic at hs
  cases hmain : s.main with
  | waiting =>
      rw [hmain] at hs
      cases hs
      exact h.setMain true (by simp) (by simp)
  | joining =>
      rw [hmain] at hs
      dsimp only at hs
      split at hs
      · rename_i hwait
        -- The join is over: all workers have ended, or there were too many to wait for.
        have hdone : ∀ i, s.pc i = .done := by
          rcases hwait with hdone | hmany
          · exact hdone
          · rcases hok hmain with hfew | hdone
            · exact absurd hmany (Nat.not_lt.mpr hfew)
            · exact hdone
        split at hs
        · cases hs
          exact h.setMain s.quitSignal (by simp) (by simp)
        · rename_i hbits
          cases hs
          rw [toNat_bsr_max] at hbits
          exact ⟨h.pos, h.le, h.found, h.pair, fun _ => ⟨hdone, Nat.le_of_not_lt hbits⟩,
            fun _ hm => (by cases hm), fun _ _ hm => (by cases hm)⟩
      · cases hs
  | readSeed =>
      rw [hmain] at hs
      cases hs
      have hjoin := h.joined (Or.inl hmain)
      refine ⟨h.pos, h.le, h.found, h.pair, fun _ => hjoin, ?_, ?_⟩
      · intro seed hm
        cases hm
        rfl
      · exact fun seed bits hm => by cases hm
  | readBits seed =>
      rw [hmain] at hs
      cases hs
      -- Nobody stores any more, so the seed read before belongs to these bits.
      obtain ⟨hdone, hle⟩ := h.joined (Or.inr ⟨seed, hmain⟩)
      refine h.setMain s.quitSignal (by simp) ?_
      intro seed' bits hm
      cases hm
      rw [h.seed seed hmain]
      exact ⟨h.pos, hle, h.pair (fun i seed' bits' hi => by simp [hdone i] at hi) hle⟩
  | returned result =>
      rw [hmain] at hs
      cases hs

theorem inv_step {rules : List NtfeRule} (hne : rules ≠ []) (s : Search n) (turn : Turn n)
    (u : Unit) (t : Search n) (h : Inv rules s) (hok : StepOk rules s turn)
    (hs : step rules s turn = .ok (u, t)) : Inv rules t := by
  cases turn with
  | worker i =>
      obtain ⟨s', hs', hs⟩ := Except.bind_eq_ok.mp hs
      cases hs
      exact inv_worker hne h hok hs'
  | main =>
      obtain ⟨s', hs', hs⟩ := Except.bind_eq_ok.mp hs
      cases hs
      exact inv_main h hok hs'

/-! ## Workers that do not disturb each other -/

/-- No other worker has lowered the record between a worker's loop test and its second read
below what the test has seen, nor at all between its compare-exchange and its store. -/
def Undisturbed (rules : List NtfeRule) (s : Search n) : Turn n → Prop
  | .worker i =>
      (s.pc i = .attempt → targetBits rules < s.recordBits)
      ∧ ∀ seed bits, s.pc i = .store seed bits → s.recordBits = bits
  | .main => s.main = .joining → n ≤ MAXIMUM_WAIT_OBJECTS ∨ ∀ i, s.pc i = .done

/-- A step that no other worker disturbs meets the condition. -/
theorem Undisturbed.stepOk {rules : List NtfeRule} {s : Search n} {turn : Turn n}
    (h : Undisturbed rules s turn) (hinv : Inv rules s) : StepOk rules s turn := by
  cases turn with
  | worker i =>
      refine ⟨?_, ?_⟩
      · intro hpc hone heq
        have hlt := h.1 hpc
        have htarget : targetBits rules = 1 := by
          rw [targetBits, hone]
          decide
        rw [htarget, heq] at hlt
        exact absurd hlt (by decide)
      · intro seed bits hpc
        rw [h.2 seed bits hpc]
        exact (hinv.found i seed bits (Or.inr hpc)).2.2
  | main => exact h

/-- **Undisturbed workers**, however many, leave a record that suits the rules. -/
theorem undisturbed_consistent {rules : List NtfeRule} (hne : rules ≠ []) (threadId : Fin n → u32)
    (turns : List (Turn n))
    (h : Meets (step rules) (Undisturbed rules) (Search.start threadId) turns) :
    Always (step rules) (Consistent rules) (Search.start threadId) turns :=
  always_of_meets (fun _ hinv => hinv.consistent)
    (fun s turn u t hinv hund hs => inv_step hne s turn u t hinv (hund.stepOk hinv) hs)
    (inv_start rules threadId) h

/-- What one worker knows of the record between its steps. -/
structure Alone (rules : List NtfeRule) (s : Search 1) : Prop extends Inv rules s where
  reads : s.pc 0 = .attempt → targetBits rules < s.recordBits
  expects : ∀ seed bits, s.pc 0 = .exchange seed bits → s.recordBits = bits + 1
  stores : ∀ seed bits, s.pc 0 = .store seed bits → s.recordBits = bits

theorem Alone.undisturbed {rules : List NtfeRule} {s : Search 1} (h : Alone rules s)
    (turn : Turn 1) : Undisturbed rules s turn := by
  cases turn with
  | worker i =>
      obtain rfl := Subsingleton.elim i 0
      exact ⟨h.reads, h.stores⟩
  | main => exact fun _ => Or.inl (by decide)

/-- The main thread writes neither the record nor the workers. -/
theorem findRuleMagic_frame {s t : Search n} (hs : findRuleMagic s = .ok t) :
    t.pc = s.pc ∧ t.recordBits = s.recordBits := by
  unfold findRuleMagic at hs
  cases hmain : s.main with
  | waiting =>
      rw [hmain] at hs
      cases hs
      exact ⟨rfl, rfl⟩
  | joining =>
      rw [hmain] at hs
      dsimp only at hs
      split at hs
      · split at hs
        · cases hs
          exact ⟨rfl, rfl⟩
        · cases hs
          exact ⟨rfl, rfl⟩
      · cases hs
  | readSeed =>
      rw [hmain] at hs
      cases hs
      exact ⟨rfl, rfl⟩
  | readBits seed =>
      rw [hmain] at hs
      cases hs
      exact ⟨rfl, rfl⟩
  | returned result =>
      rw [hmain] at hs
      cases hs

theorem alone_worker {rules : List NtfeRule} {s t : Search 1} (h : Alone rules s)
    (hinv : Inv rules t) (hs : threadEntry rules s 0 = .ok t) : Alone rules t := by
  unfold threadEntry at hs
  cases hpc : s.pc 0 with
  | testQuit =>
      rw [hpc] at hs
      cases hs
      refine ⟨hinv, ?_, ?_, ?_⟩
      all_goals
        simp only [Search.goto, Function.update_self]
        split <;> simp
  | testBits =>
      rw [hpc] at hs
      cases hs
      by_cases hlt : targetBits rules < s.recordBits
      · refine ⟨hinv, fun _ => hlt, ?_, ?_⟩
        all_goals simp [Search.goto, hlt]
      · refine ⟨hinv, ?_, ?_, ?_⟩
        all_goals simp [Search.goto, hlt]
  | attempt =>
      rw [hpc] at hs
      obtain ⟨free, -, hs⟩ := Except.bind_eq_ok.mp hs
      cases hs
      refine ⟨hinv, ?_, ?_, ?_⟩
      · cases free <;> simp [Search.goto]
      · intro seed bits hex
        cases free with
        | false => simp [Search.goto] at hex
        | true =>
            obtain ⟨-, rfl⟩ : _ ∧ s.recordBits - 1 = bits := by simpa [Search.goto] using hex
            exact (BitVec.sub_add_cancel _ _).symm
      · cases free <;> simp [Search.goto]
  | exchange seed bits =>
      rw [hpc] at hs
      dsimp only at hs
      -- Nobody else has lowered the record meanwhile, so the exchange succeeds.
      rw [if_pos (h.expects seed bits hpc)] at hs
      cases hs
      refine ⟨hinv, by simp [Search.goto], by simp [Search.goto], ?_⟩
      intro seed' bits' hst
      obtain ⟨-, rfl⟩ : seed = seed' ∧ bits = bits' := by simpa [Search.goto] using hst
      rfl
  | store seed bits =>
      rw [hpc] at hs
      cases hs
      exact ⟨hinv, by simp [Search.goto], by simp [Search.goto], by simp [Search.goto]⟩
  | done =>
      rw [hpc] at hs
      cases hs

theorem alone_step {rules : List NtfeRule} (hne : rules ≠ []) (s : Search 1) (turn : Turn 1)
    (u : Unit) (t : Search 1) (h : Alone rules s) (hs : step rules s turn = .ok (u, t)) :
    Alone rules t := by
  have hinv := inv_step hne s turn u t h.toInv ((h.undisturbed turn).stepOk h.toInv) hs
  cases turn with
  | main =>
      obtain ⟨s', hs', hs⟩ := Except.bind_eq_ok.mp hs
      cases hs
      obtain ⟨hpc, hbits⟩ := findRuleMagic_frame hs'
      refine ⟨hinv, ?_, ?_, ?_⟩
      · rw [hpc, hbits]
        exact h.reads
      · rw [hpc, hbits]
        exact h.expects
      · rw [hpc, hbits]
        exact h.stores
  | worker i =>
      obtain rfl := Subsingleton.elim i 0
      obtain ⟨s', hs', hs⟩ := Except.bind_eq_ok.mp hs
      cases hs
      exact alone_worker h hinv hs'

/-- **A worker that is alone always meets the condition.** -/
theorem meets_alone {rules : List NtfeRule} (hne : rules ≠ []) (threadId : Fin 1 → u32)
    (turns : List (Turn 1)) :
    Meets (step rules) (StepOk rules) (Search.start threadId) turns := by
  refine meets_of_invariant (fun s turn h => (h.undisturbed turn).stepOk h.toInv)
    (alone_step hne) ⟨inv_start rules threadId, ?_, ?_, ?_⟩
  all_goals simp [Search.start]

/-! ## The search -/

/-- **The search is right** in every run of any number of workers whose steps meet the
condition. -/
theorem findRuleMagic_consistent (rules : List NtfeRule) (hne : rules ≠ []) {n : Nat}
    (threadId : Fin n → u32) (turns : List (Turn n))
    (h : Meets (step rules) (StepOk rules) (Search.start threadId) turns) :
    Always (step rules) (Consistent rules) (Search.start threadId) turns :=
  always_of_meets (fun _ hinv => hinv.consistent) (inv_step hne) (inv_start rules threadId) h

/-- The rule for TCP port 80, alone. -/
def httpAlone : List NtfeRule := [⟨ETH_P_IP, 80, 0, 0, 0, IP_P_TCP, 0, 0, 0⟩]

/-- The number of bits that is returned. -/
def Search.bitsReturned (s : Search n) : Option u32 :=
  match s.main with
  | .returned (some (_, bits)) => some bits
  | _ => none

/-- Rules for three ports, for ICMP and for ARP. -/
def fiveRules : List NtfeRule :=
  [⟨ETH_P_IP, 80, 0, 0, 0, IP_P_TCP, 0, 0, 0⟩, ⟨ETH_P_IP, 443, 0, 0, 0, IP_P_TCP, 0, 0, 0⟩,
    ⟨ETH_P_IP, 53, 0, 0, 0, IP_P_UDP, 0, 0, 0⟩, ⟨ETH_P_IP, 0, 0, 0, 0, IP_P_ICMP, 0, 0, 0⟩,
    ⟨0x0806, 0, 0, 0, 0, 0, 0, 0, 0⟩]

/-- Two workers in turn, until they have ended, and then the main thread. One of them loses the
first compare-exchange and the other the second; later attempts meet collisions. -/
def fairTurns : List (Turn 2) :=
  (List.replicate 24 [.worker 0, .worker 1]).flatten
    ++ [.worker 1, .main, .main, .main, .main]

/-- The result of that run, three bits, is right. -/
theorem findRuleMagic_consistent_two :
    Always (step fiveRules) (Consistent fiveRules) (Search.start ![4, 8]) fairTurns
    ∧ (run (step fiveRules) (Search.start ![4, 8]) fairTurns).toOption.bind Search.bitsReturned
      = some 3 :=
  ⟨findRuleMagic_consistent fiveRules (by decide) ![4, 8] fairTurns (by decide +kernel),
    by decide +kernel⟩

/-- The first worker lowers the record to two bits. Both workers see that two is more than
one; the first goes on to one bit, and only then does the second read the record again: it
tries no bits at all, and finds no collision. -/
def raceTurns : List (Turn 2) :=
  let parts : List (List (Turn 2)) :=
    [List.replicate 32 (.worker 0), List.replicate 2 (.worker 1), List.replicate 3 (.worker 0),
      List.replicate 3 (.worker 1), [.main, .worker 0, .worker 1, .main, .main, .main]]
  parts.flatten

/-- **Two workers break the search**: after `raceTurns` it returns a table of no bits. -/
theorem findRuleMagic_no_bits :
    ¬ ∀ (rules : List NtfeRule) (n : Nat) (threadId : Fin n → u32) (turns : List (Turn n))
        (s : Search n), 1 ≤ rules.length → rules.length ≤ 128 →
        run (step rules) (Search.start threadId) turns = .ok s → Consistent rules s := by
  intro hall
  have hrun : (run (step httpAlone) (Search.start ![4, 8]) raceTurns).toOption.bind
      Search.bitsReturned = some 0 := by
    decide +kernel
  cases hs : run (step httpAlone) (Search.start ![4, 8]) raceTurns with
  | error e =>
      rw [hs] at hrun
      cases hrun
  | ok s =>
      rw [hs] at hrun
      have hbits : s.bitsReturned = some 0 := hrun
      unfold Search.bitsReturned at hbits
      split at hbits
      · rename_i seed bits hmain
        cases hbits
        have hsuits := hall httpAlone 2 _ raceTurns s (by decide) (by decide) hs seed 0 hmain
        exact absurd hsuits.1 (by decide)
      · cases hbits

end Ntfw.Tool
