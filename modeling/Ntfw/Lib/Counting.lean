import Mathlib.Data.Fintype.Card
import Mathlib.Data.Finset.Dedup
import Mathlib.Tactic

set_option autoImplicit false

/-! # Counting positions and distinct elements

`count P` is the number of positions of a finite array at which `P` holds, and `distinct Q l`
the number of different elements of a list that satisfy `Q`. The rules say how the two move
when an array is written at one position, and when a list is read element by element. -/

namespace Counting

/-- A proposition as a number. -/
def ind (p : Prop) [Decidable p] : Nat := if p then 1 else 0

@[simp] theorem ind_of {p : Prop} [Decidable p] (h : p) : ind p = 1 := if_pos h

@[simp] theorem ind_of_not {p : Prop} [Decidable p] (h : ¬ p) : ind p = 0 := if_neg h

theorem ind_congr {p q : Prop} [Decidable p] [Decidable q] (h : p ↔ q) : ind p = ind q := by
  unfold ind
  simp only [h]

/-- Take one element out of a filtered set. -/
theorem card_filter_split {α : Type} [DecidableEq α] (s : Finset α) {a : α} (ha : a ∈ s)
    (Q : α → Prop) [DecidablePred Q] :
    (s.filter Q).card = (s.filter fun x => x ≠ a ∧ Q x).card + ind (Q a) := by
  have hsub : s.filter (fun x => x ≠ a ∧ Q x) = (s.filter Q).erase a := by
    ext x
    simp only [Finset.mem_filter, Finset.mem_erase]
    tauto
  rw [hsub]
  by_cases hQ : Q a
  · have hmem : a ∈ s.filter Q := Finset.mem_filter.mpr ⟨ha, hQ⟩
    rw [ind_of hQ, Finset.card_erase_add_one hmem]
  · have hmem : a ∉ s.filter Q := fun h => hQ (Finset.mem_filter.mp h).2
    rw [ind_of_not hQ, Finset.erase_eq_of_notMem hmem]
    rfl

section

variable {ι : Type} [Fintype ι] {P Q : ι → Prop} [DecidablePred P] [DecidablePred Q]

/-- The number of positions at which `P` holds. -/
def count (P : ι → Prop) [DecidablePred P] : Nat := (Finset.univ.filter P).card

theorem count_congr (h : ∀ j, P j ↔ Q j) : count P = count Q := by
  unfold count
  simp only [h]

/-- Two properties that differ at most at `k`. -/
theorem count_of_eq_off [DecidableEq ι] (k : ι) (h : ∀ j, j ≠ k → (P j ↔ Q j)) :
    count P + ind (Q k) = count Q + ind (P k) := by
  have hrest : (Finset.univ.filter fun j => j ≠ k ∧ P j)
      = Finset.univ.filter fun j => j ≠ k ∧ Q j :=
    Finset.filter_congr fun j _ => and_congr_right fun hj => h j hj
  have hP := card_filter_split Finset.univ (Finset.mem_univ k) P
  have hQ := card_filter_split Finset.univ (Finset.mem_univ k) Q
  rw [hrest] at hP
  unfold count
  omega

theorem count_eq_zero : count P = 0 ↔ ∀ j, ¬ P j := by
  unfold count
  rw [Finset.card_eq_zero, Finset.filter_eq_empty_iff]
  simp

theorem count_eq_one [DecidableEq ι] {k : ι} (hk : P k) (h : ∀ j, P j → j = k) : count P = 1 := by
  have hoff := count_of_eq_off (P := P) (Q := fun _ => False) k fun j hj =>
    iff_of_false (fun hPj => hj (h j hPj)) id
  have hzero : count (fun _ : ι => False) = 0 := count_eq_zero.mpr fun _ => id
  rw [hzero, ind_of hk, ind_of_not not_false] at hoff
  omega

end

section

variable {α : Type} [DecidableEq α] {Q Q' : α → Prop} [DecidablePred Q] [DecidablePred Q']

/-- The number of different elements of a list that satisfy `Q`. -/
def distinct (Q : α → Prop) [DecidablePred Q] (l : List α) : Nat := (l.toFinset.filter Q).card

@[simp] theorem distinct_nil : distinct Q [] = 0 := rfl

theorem distinct_congr (h : ∀ x, Q x ↔ Q' x) (l : List α) : distinct Q l = distinct Q' l := by
  unfold distinct
  simp only [h]

/-- Read one element: afterwards it does not count any more. -/
theorem distinct_cons {a : α} (h : ∀ x, Q' x ↔ x ≠ a ∧ Q x) (l : List α) :
    distinct Q (a :: l) = distinct Q' l + ind (Q a) := by
  have hrest : ((a :: l).toFinset.filter fun x => x ≠ a ∧ Q x) = l.toFinset.filter Q' := by
    ext x
    simp only [Finset.mem_filter, List.mem_toFinset, List.mem_cons, h]
    tauto
  rw [distinct, card_filter_split _ (List.mem_toFinset.mpr List.mem_cons_self), hrest, distinct]

/-- Count one element apart from the others. -/
theorem distinct_split (a : α) (l : List α) :
    distinct Q l = distinct (fun x => x ≠ a ∧ Q x) l + ind (a ∈ l ∧ Q a) := by
  by_cases ha : a ∈ l
  · rw [distinct, card_filter_split _ (List.mem_toFinset.mpr ha), distinct,
      ind_congr (and_iff_right ha)]
  · rw [ind_of_not fun h => ha h.1, Nat.add_zero]
    unfold distinct
    congr 1
    refine Finset.filter_congr fun x hx => ?_
    have hxa : x ≠ a := by
      rintro rfl
      exact ha (List.mem_toFinset.mp hx)
    exact (and_iff_right hxa).symm

end

/-! ## Consecutive numbers and who holds them -/

/-- Each of `n` consecutive numbers is held by someone in `s`, and nobody holds two. -/
theorem le_card_of_held {ι : Type} (s : Finset ι) (holds : ι → Nat → Prop) (a n : Nat)
    (hone : ∀ c i j, holds c i → holds c j → i = j)
    (hheld : ∀ i, a ≤ i → i < a + n → ∃ c ∈ s, holds c i) : n ≤ s.card := by
  have hsome : ∀ i : Fin n, ∃ c ∈ s, holds c (a + i) := fun i =>
    hheld (a + i) (Nat.le_add_right a i) (Nat.add_lt_add_left i.isLt a)
  choose holder hmem hholds using hsome
  have hinj : Function.Injective fun i => (⟨holder i, hmem i⟩ : s) := by
    intro i j hij
    have hsame : holder i = holder j := congrArg Subtype.val hij
    have heq := hone (holder i) _ _ (hholds i) (hsame ▸ hholds j)
    exact Fin.ext (Nat.add_left_cancel heq)
  simpa using Fintype.card_le_of_injective _ hinj

end Counting
