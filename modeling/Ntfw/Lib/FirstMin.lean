import Mathlib.Tactic

set_option autoImplicit false

/-! # The first minimum of a scan

A loop that keeps the least key seen so far and its place, and moves on a strictly lesser
key only, ends on the first place of the least key. `scan` is that loop over a list of places,
for a key of any linear order. If the key packs a major and a minor criterion into one number,
the place found is the lexicographic choice: least major, among those least minor, among those
first.
-/

namespace FirstMin

variable {ι α : Type*} [LinearOrder α]

/-- The loop, from the key and the place it starts with. -/
def scan (f : ι → α) (top : α × ι) (ks : List ι) : α × ι :=
  ks.foldl (fun top i => if f i < top.1 then (f i, i) else top) top

@[simp] theorem scan_nil (f : ι → α) (top : α × ι) : scan f top [] = top := rfl

theorem scan_cons (f : ι → α) (top : α × ι) (k : ι) (ks : List ι) :
    scan f top (k :: ks) = scan f (if f k < top.1 then (f k, k) else top) ks := rfl

/-- A key read through an order embedding gives the same places. -/
theorem scan_map {β : Type*} [LT β] [DecidableLT β] (g : β → α)
    (hg : ∀ x y, x < y ↔ g x < g y) (f : ι → β) (top : β × ι) (ks : List ι) :
    (ks.foldl (fun top i => if f i < top.1 then (f i, i) else top) top).2
      = (scan (fun i => g (f i)) (g top.1, top.2) ks).2 := by
  induction ks generalizing top with
  | nil => rfl
  | cons k ks ih =>
      rw [List.foldl_cons, ih, scan_cons]
      by_cases h : f k < top.1
      · rw [if_pos h, if_pos ((hg _ _).mp h)]
      · rw [if_neg h, if_neg (fun hc => h ((hg _ _).mpr hc))]

variable [LinearOrder ι]

/-- `k` is the first of the places `ks` with the least key. -/
structure IsFirstMin (f : ι → α) (ks : List ι) (k : ι) : Prop where
  mem : k ∈ ks
  le : ∀ j ∈ ks, f k ≤ f j
  lt : ∀ j ∈ ks, j < k → f k < f j

/-- A head that nothing is below is the first minimum. -/
theorem isFirstMin_head {f : ι → α} {k : ι} {ks : List ι} (hfirst : ∀ j ∈ ks, k < j)
    (hle : ∀ j ∈ ks, f k ≤ f j) : IsFirstMin f (k :: ks) k := by
  refine ⟨List.mem_cons_self, ?_, ?_⟩
  · intro j hj
    rcases List.mem_cons.mp hj with rfl | hj
    · exact le_refl (f j)
    · exact hle j hj
  · intro j hj hjk
    rcases List.mem_cons.mp hj with rfl | hj
    · exact absurd hjk (lt_irrefl j)
    · exact absurd hjk (not_lt.mpr (le_of_lt (hfirst j hj)))

/-- A head that the first minimum of the rest is below does not matter. -/
theorem IsFirstMin.cons {f : ι → α} {k l : ι} {ks : List ι} (h : IsFirstMin f ks l)
    (hlt : f l < f k) : IsFirstMin f (k :: ks) l := by
  refine ⟨List.mem_cons_of_mem k h.mem, ?_, ?_⟩
  · intro j hj
    rcases List.mem_cons.mp hj with rfl | hj
    · exact le_of_lt hlt
    · exact h.le j hj
  · intro j hj hjl
    rcases List.mem_cons.mp hj with rfl | hj
    · exact hlt
    · exact h.lt j hj hjl

/-- **The loop finds the first minimum**, if a key is below the one it starts with; otherwise it
does not move. -/
theorem scan_spec (f : ι → α) (top : α × ι) {ks : List ι} (hks : ks.Pairwise (· < ·)) :
    (scan f top ks = top ∧ ∀ k ∈ ks, top.1 ≤ f k)
    ∨ ∃ k, IsFirstMin f ks k ∧ f k < top.1 ∧ scan f top ks = (f k, k) := by
  induction ks generalizing top with
  | nil => exact Or.inl ⟨rfl, fun k hk => by cases hk⟩
  | cons k ks ih =>
      obtain ⟨hfirst, hrest⟩ := List.pairwise_cons.mp hks
      rw [scan_cons]
      by_cases hlt : f k < top.1
      · -- The head is taken, and the loop goes on from its key.
        rw [if_pos hlt]
        rcases ih (f k, k) hrest with ⟨heq, hle⟩ | ⟨l, hl, hlk, heq⟩
        · exact Or.inr ⟨k, isFirstMin_head hfirst hle, hlt, heq⟩
        · exact Or.inr ⟨l, hl.cons hlk, lt_trans hlk hlt, heq⟩
      · rw [if_neg hlt]
        have hge : top.1 ≤ f k := not_lt.mp hlt
        rcases ih top hrest with ⟨heq, hle⟩ | ⟨l, hl, hltop, heq⟩
        · exact Or.inl ⟨heq, List.forall_mem_cons.mpr ⟨hge, hle⟩⟩
        · exact Or.inr ⟨l, hl.cons (lt_of_lt_of_le hltop hge), hltop, heq⟩

/-! ## Two criteria in one key -/

/-- The first minimum of a packed key chooses by the major criterion, then by the minor one,
then by place. -/
theorem IsFirstMin.lex {f : ι → Nat} {ks : List ι} {k : ι} (h : IsFirstMin f ks k)
    (major minor : ι → Nat) (m : Nat) (hf : ∀ j ∈ ks, f j = m * major j + minor j)
    (hm : ∀ j ∈ ks, minor j < m) :
    (∀ j ∈ ks, major k ≤ major j)
    ∧ (∀ j ∈ ks, major j = major k → minor k ≤ minor j)
    ∧ ∀ j ∈ ks, j < k → major j = major k → minor k < minor j := by
  have hle : ∀ j ∈ ks, m * major k + minor k ≤ m * major j + minor j := by
    intro j hj
    rw [← hf k h.mem, ← hf j hj]
    exact h.le j hj
  refine ⟨?_, ?_, ?_⟩
  · intro j hj
    by_contra hlt
    have hsucc : m * (major j + 1) ≤ m * major k := Nat.mul_le_mul_left m (by omega)
    have h1 := hle j hj
    have h2 := hm j hj
    rw [Nat.mul_add] at hsucc
    omega
  · intro j hj heq
    have h1 := hle j hj
    rw [heq] at h1
    omega
  · intro j hj hjk heq
    have h1 := h.lt j hj hjk
    rw [hf k h.mem, hf j hj, heq] at h1
    omega

end FirstMin
