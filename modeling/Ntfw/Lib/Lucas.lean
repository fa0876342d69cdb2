import Mathlib.NumberTheory.LucasPrimality
import Mathlib.Tactic

set_option autoImplicit false

/-! # Primes by the test of Lucas

A number `p` is prime when some `a` has order `p - 1` modulo `p`, which is a matter of the primes
that divide `p - 1`. A certificate has it as computations that the kernel can evaluate, whatever the
size of `p`, and a list of certificates proves the large factors prime, too
(`prime_of_supported`). -/

namespace Lucas

/-- `a ^ n % m`, by squaring, over the lower `k` bits of `n`. -/
def powMod (m : Nat) : Nat → Nat → Nat → Nat
  | 0, _, _ => 1 % m
  | k + 1, a, n => (if n % 2 = 1 then a else 1) * powMod m k (a * a % m) (n / 2) % m

theorem powMod_eq (m : Nat) : ∀ {k n : Nat} (a : Nat), n < 2 ^ k → powMod m k a n = a ^ n % m
  | 0, n, a, hn => by
      obtain rfl : n = 0 := by simpa using hn
      simp [powMod]
  | k + 1, n, a, hn => by
      have hhalf : n / 2 < 2 ^ k := by
        rw [Nat.pow_succ] at hn
        omega
      have hsq : powMod m k (a * a % m) (n / 2) = a ^ (2 * (n / 2)) % m := by
        rw [powMod_eq m _ hhalf, ← Nat.pow_mod, pow_mul, pow_two]
      rw [powMod, hsq, Nat.mul_mod_mod]
      congr 1
      have hn2 : n % 2 + 2 * (n / 2) = n := Nat.mod_add_div n 2
      rcases Nat.mod_two_eq_zero_or_one n with h | h
      · rw [h, Nat.zero_add] at hn2
        rw [if_neg (by omega), one_mul, hn2]
      · rw [h, Nat.add_comm] at hn2
        rw [if_pos h, ← pow_succ', hn2]

theorem powMod_eq_one_iff {p k n : Nat} (a : Nat) (hp : 1 < p) (hn : n < 2 ^ k) :
    powMod p k a n = 1 ↔ (a : ZMod p) ^ n = 1 := by
  have hmod := ZMod.natCast_eq_natCast_iff' (a ^ n) 1 p
  rw [Nat.mod_eq_of_lt hp, Nat.cast_pow, Nat.cast_one] at hmod
  rw [powMod_eq p a hn, hmod]

/-- What makes `p` a prime, once the numbers `factors` are: `a` has the order `p - 1`. Each prime
factor of `p - 1` is listed as often as it divides it; `p` is of `bits` bits. -/
structure Certificate where
  p : Nat
  bits : Nat
  a : Nat
  factors : List Nat

/-- The computations that a certificate asks for. -/
def Certificate.Checks (c : Certificate) : Prop :=
  1 < c.p ∧ c.p ≤ 2 ^ c.bits ∧ c.factors.prod = c.p - 1 ∧ powMod c.p c.bits c.a (c.p - 1) = 1 ∧
    ∀ q ∈ c.factors, powMod c.p c.bits c.a ((c.p - 1) / q) ≠ 1

instance (c : Certificate) : Decidable c.Checks := inferInstanceAs (Decidable (_ ∧ _))

/-- **A number with a certificate is prime** when the factors are. -/
theorem Certificate.Checks.prime {c : Certificate} (hc : c.Checks)
    (hfactors : ∀ q ∈ c.factors, q.Prime) : c.p.Prime := by
  obtain ⟨hp, hbits, hprod, hone, hne⟩ := hc
  have hpow := (powMod_eq_one_iff c.a hp (by omega)).mp hone
  refine lucas_primality c.p c.a hpow fun q hq hdvd hq1 => ?_
  rw [← hprod] at hdvd
  obtain ⟨r, hr, hqr⟩ := (Nat.Prime.prime hq).dvd_prod_iff.mp hdvd
  obtain rfl : q = r := (Nat.prime_dvd_prime_iff_eq hq (hfactors r hr)).mp hqr
  have hlt : (c.p - 1) / q < 2 ^ c.bits := (Nat.div_le_self _ _).trans_lt (by omega)
  exact hne q hr ((powMod_eq_one_iff c.a hp hlt).mpr hq1)

/-- The factors of each certificate are `small` or have a later one. -/
def Supported (small : List Nat) : List Certificate → Prop
  | [] => True
  | c :: cs => (∀ q ∈ c.factors, q ∈ small ∨ ∃ d ∈ cs, d.p = q) ∧ Supported small cs

instance (small : List Nat) : (cs : List Certificate) → Decidable (Supported small cs)
  | [] => inferInstanceAs (Decidable True)
  | _ :: cs => haveI := instDecidableSupported small cs; inferInstanceAs (Decidable (_ ∧ _))

/-- **A list of certificates that support one another** is one of primes. -/
theorem prime_of_supported {small : List Nat} (hsmall : ∀ q ∈ small, q.Prime) :
    ∀ {cs : List Certificate}, Supported small cs → (∀ c ∈ cs, c.Checks) → ∀ c ∈ cs, c.p.Prime
  | c :: cs, ⟨hfactors, hs⟩, hcs, d, hd => by
      have ih := prime_of_supported hsmall hs fun d hd => hcs d (List.mem_cons_of_mem _ hd)
      rcases List.mem_cons.mp hd with rfl | hd
      · refine (hcs d List.mem_cons_self).prime fun q hq => ?_
        obtain hq | ⟨e, he, rfl⟩ := hfactors q hq
        · exact hsmall q hq
        · exact ih e he
      · exact ih d hd

end Lucas
