import Mathlib.Order.WithBot
import Mathlib.Tactic

set_option autoImplicit false

/-! # Maps from keys to priorities

A table of authorisations says of each key with which priority, from a linear order, it is
authorised, or that it is not. An absent key is the bottom element, so a grant is a join: a
key never loses priority by being granted again. `revoke` withdraws one class of grants.
-/

/-- Each key's priority, `⊥` when it has none. -/
abbrev PriorityMap (K P : Type*) := K → WithBot P

namespace PriorityMap

variable {K P : Type*} [DecidableEq K] [LinearOrder P]

/-- No key is authorised. -/
def empty : PriorityMap K P := fun _ => ⊥

/-- Raise a key to at least the priority `p`. -/
def grant (m : PriorityMap K P) (a : K) (p : P) : PriorityMap K P :=
  Function.update m a (m a ⊔ p)

/-- Withdraw the keys whose priority is exactly `p`. -/
def revoke (m : PriorityMap K P) (p : P) : PriorityMap K P :=
  fun a => if m a = p then ⊥ else m a

theorem grant_self (m : PriorityMap K P) (a : K) (p : P) : grant m a p a = m a ⊔ p :=
  Function.update_self a _ m

theorem grant_of_ne {m : PriorityMap K P} {a b : K} {p : P} (h : b ≠ a) :
    grant m a p b = m b :=
  Function.update_of_ne h _ m

end PriorityMap
