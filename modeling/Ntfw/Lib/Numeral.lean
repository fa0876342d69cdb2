import Mathlib.Data.Nat.Digits.Lemmas

set_option autoImplicit false

/-! # Positional numerals

`write` prints a number in a base, without leading zeros, and `read` takes a numeral digit by
digit, as parsers do: what has been read so far is multiplied by the base before the next digit
is added. `scan` is `read` behind a decoder of characters, which fails at one that is no
digit. -/

namespace Numeral

/-- The digits of a number, the most significant first; 0 has one digit. -/
def write (b n : Nat) : List Nat := if n = 0 then [0] else (b.digits n).reverse

/-- The number so far, after the digits have been read. -/
def read (b : Nat) : List Nat → Nat → Nat
  | [], n => n
  | d :: ds, n => read b ds (b * n + d)

theorem read_append (b : Nat) (ds ds' : List Nat) (n : Nat) :
    read b (ds ++ ds') n = read b ds' (read b ds n) := by
  induction ds generalizing n with
  | nil => rfl
  | cons d ds ih => exact ih (b * n + d)

theorem read_reverse (b : Nat) (ds : List Nat) : read b ds.reverse 0 = Nat.ofDigits b ds := by
  induction ds with
  | nil => rfl
  | cons d ds ih =>
      rw [List.reverse_cons, read_append, ih, Nat.ofDigits_cons, Nat.add_comm]
      rfl

/-- **What is written is read back.** -/
theorem read_write (b n : Nat) : read b (write b n) 0 = n := by
  unfold write
  by_cases hn : n = 0
  · rw [if_pos hn, hn]
    rfl
  · rw [if_neg hn, read_reverse, Nat.ofDigits_digits]

theorem lt_of_mem_write {b n d : Nat} (hb : 1 < b) (hd : d ∈ write b n) : d < b := by
  unfold write at hd
  by_cases hn : n = 0
  · rw [if_pos hn, List.mem_singleton] at hd
    omega
  · rw [if_neg hn, List.mem_reverse] at hd
    exact Nat.digits_lt_base hb hd

theorem write_ne_nil (b n : Nat) : write b n ≠ [] := by
  unfold write
  by_cases hn : n = 0
  · rw [if_pos hn]
    exact List.cons_ne_nil 0 []
  · rw [if_neg hn]
    exact List.reverse_ne_nil_iff.mpr (Nat.digits_ne_nil_iff_ne_zero.mpr hn)

theorem length_write_le {b n k : Nat} (hb : 1 < b) (hk : 0 < k) (hn : n < b ^ k) :
    (write b n).length ≤ k := by
  unfold write
  by_cases h0 : n = 0
  · rw [if_pos h0]
    exact hk
  · rw [if_neg h0, List.length_reverse]
    exact (Nat.digits_length_le_iff hb n).mpr hn

/-! ## Characters -/

section

variable {C : Type*} (dec : C → Option Nat) (b : Nat)

/-- The number so far, after characters that are all digits. -/
def scan : List C → Nat → Option Nat
  | [], n => some n
  | c :: cs, n =>
      match dec c with
      | some d => scan cs (b * n + d)
      | none => none

/-- A text is a numeral exactly if its characters are digits. -/
theorem isSome_scan (cs : List C) (n : Nat) :
    (scan dec b cs n).isSome = true ↔ ∀ c ∈ cs, (dec c).isSome = true := by
  induction cs generalizing n with
  | nil => simp [scan]
  | cons c cs ih =>
      rw [scan, List.forall_mem_cons]
      cases dec c with
      | none => simp
      | some d => simpa using ih (b * n + d)

/-- A numeral of `k` digits stays below the `k`-th power of the base. -/
theorem scan_lt {dec : C → Option Nat} {b : Nat} (hdec : ∀ c d, dec c = some d → d < b)
    {cs : List C} {n v : Nat} (h : scan dec b cs n = some v) : v < (n + 1) * b ^ cs.length := by
  induction cs generalizing n with
  | nil =>
      cases h
      simp
  | cons c cs ih =>
      rw [scan] at h
      cases hd : dec c with
      | none =>
          rw [hd] at h
          cases h
      | some d =>
          rw [hd] at h
          have hlt := hdec c d hd
          calc v < (b * n + d + 1) * b ^ cs.length := ih h
            _ ≤ ((n + 1) * b) * b ^ cs.length :=
                Nat.mul_le_mul_right _ (by rw [Nat.add_mul, Nat.mul_comm b n]; omega)
            _ = (n + 1) * b ^ (c :: cs).length := by
                rw [List.length_cons, Nat.pow_succ', Nat.mul_assoc]

/-- **A numeral in characters** is read as its digits are. -/
theorem scan_map (enc : Nat → C)
    (henc : ∀ d, d < b → dec (enc d) = some d) {ds : List Nat} (hds : ∀ d ∈ ds, d < b) (n : Nat) :
    scan dec b (ds.map enc) n = some (read b ds n) := by
  induction ds generalizing n with
  | nil => rfl
  | cons d ds ih =>
      rw [List.forall_mem_cons] at hds
      rw [List.map_cons, scan, henc d hds.1]
      exact ih hds.2 (b * n + d)

end

end Numeral
