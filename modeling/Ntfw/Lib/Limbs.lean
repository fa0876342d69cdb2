import Mathlib

set_option autoImplicit false

/-! # Integers in limbs, with machine arithmetic that is checked

A large integer is kept as a vector of limbs, limb `i` with the weight `2 ^ off[i]`. The limbs are
signed machine integers: an operation whose result its type does not hold gives `none`. A *carry
chain* is a list of moves; a move takes what a limb has above some bit and pours it, times constant
factors, into other limbs. That no move of a chain overflows, and how large the limbs are after it,
is computed from the ranges of the limbs before it (`ranges`), and that it keeps the value modulo
`p` is a check of each move alone (`Move.Keeps`); `chain_spec` is the soundness of both. Products of
limbs are tables of terms, checked the same way (`products_spec`). -/

namespace Limbs

variable {n : Nat}

/-! ## Checked machine integers -/

/-- `x` as a signed integer of `w` bits; `none` where it does not fit. -/
def signed (w : Nat) (x : Int) : Option Int :=
  if -2 ^ (w - 1) ≤ x ∧ x < 2 ^ (w - 1) then some x else none

theorem signed_eq_self {w : Nat} {x : Int} :
    signed w x = some x ↔ -2 ^ (w - 1) ≤ x ∧ x < 2 ^ (w - 1) := by
  rw [signed, Option.ite_none_right_eq_some, and_iff_left rfl]

/-- An interval of integers. -/
structure Range where
  lo : Int
  hi : Int
  deriving DecidableEq

namespace Range

def Has (r : Range) (x : Int) : Prop := r.lo ≤ x ∧ x ≤ r.hi

instance (r : Range) (x : Int) : Decidable (r.Has x) := inferInstanceAs (Decidable (_ ∧ _))

/-- The integers of magnitude up to `b`. -/
def upto (b : Nat) : Range := ⟨-b, b⟩

def add (r s : Range) : Range := ⟨r.lo + s.lo, r.hi + s.hi⟩
def sub (r s : Range) : Range := ⟨r.lo - s.hi, r.hi - s.lo⟩
def scale (r : Range) (c : Nat) : Range := ⟨r.lo * c, r.hi * c⟩
def shift (r : Range) (k : Nat) : Range := ⟨r.lo >>> k, r.hi >>> k⟩

/-- The range, when every integer of it fits `w` bits. -/
def signed (w : Nat) (r : Range) : Option Range :=
  if -2 ^ (w - 1) ≤ r.lo ∧ r.hi < 2 ^ (w - 1) then some r else none

theorem has_upto {b : Nat} {x : Int} : (upto b).Has x ↔ |x| ≤ b := abs_le.symm

theorem Has.add {r s : Range} {x y : Int} (hx : r.Has x) (hy : s.Has y) :
    (r.add s).Has (x + y) := ⟨add_le_add hx.1 hy.1, add_le_add hx.2 hy.2⟩

theorem Has.sub {r s : Range} {x y : Int} (hx : r.Has x) (hy : s.Has y) :
    (r.sub s).Has (x - y) := ⟨sub_le_sub hx.1 hy.2, sub_le_sub hx.2 hy.1⟩

theorem Has.scale {r : Range} {x : Int} (hx : r.Has x) (c : Nat) : (r.scale c).Has (x * c) :=
  ⟨mul_le_mul_of_nonneg_right hx.1 (Int.natCast_nonneg c),
    mul_le_mul_of_nonneg_right hx.2 (Int.natCast_nonneg c)⟩

theorem Has.shift {r : Range} {x : Int} (hx : r.Has x) (k : Nat) : (r.shift k).Has (x >>> k) := by
  have hk : (0 : Int) < 2 ^ k := by positivity
  simp only [Has, Range.shift, Int.shiftRight_eq_div_pow]
  exact ⟨Int.ediv_le_ediv (by exact_mod_cast hk) hx.1,
    Int.ediv_le_ediv (by exact_mod_cast hk) hx.2⟩

theorem signed_eq_some {w : Nat} {r r' : Range} (h : r.signed w = some r') :
    r' = r ∧ -2 ^ (w - 1) ≤ r.lo ∧ r.hi < 2 ^ (w - 1) := by
  unfold signed at h
  split at h
  · exact ⟨(Option.some.inj h).symm, ‹_›⟩
  · cases h

/-- What is in a range that fits is itself as a machine integer. -/
theorem Has.signed {w : Nat} {r r' : Range} {x : Int} (hx : r.Has x)
    (h : r.signed w = some r') : Limbs.signed w x = some x := by
  obtain ⟨-, hlo, hhi⟩ := signed_eq_some h
  exact if_pos ⟨hlo.trans hx.1, hx.2.trans_lt hhi⟩

end Range

/-- Every limb is in its range. -/
def Fits (R : Vector Range n) (h : Vector Int n) : Prop := ∀ i : Fin n, R[i].Has h[i]

theorem Fits.set {R : Vector Range n} {h : Vector Int n} {r : Range} {x : Int} (hR : Fits R h)
    (i : Fin n) (hx : r.Has x) : Fits (R.set i r) (h.set i x) := by
  intro j
  by_cases hij : i = j
  · subst hij
    simpa using hx
  · have hval : i.val ≠ j.val := fun e => hij (Fin.ext e)
    simpa [hval] using hR j

/-- A computation of two parts that both succeed. -/
theorem bind_spec {α β : Type} {x : Option α} {f : α → Option β} {P : α → Prop} {Q : β → Prop}
    (hx : ∃ a, x = some a ∧ P a) (hf : ∀ a, P a → ∃ b, f a = some b ∧ Q b) :
    ∃ b, (x >>= f) = some b ∧ Q b := by
  obtain ⟨a, rfl, ha⟩ := hx
  exact hf a ha

/-- A loop over the limbs, by what holds before each of them. -/
theorem foldlM_finRange {α : Type} : ∀ {n : Nat} {f : α → Fin n → Option α} {a : α}
    (P : Fin (n + 1) → α → Prop), P 0 a →
    (∀ (i : Fin n) (b : α), P i.castSucc b → ∃ c, f b i = some c ∧ P i.succ c) →
      ∃ c, (List.finRange n).foldlM f a = some c ∧ P (Fin.last n) c
  | 0, _, a, _, h0, _ => ⟨a, rfl, h0⟩
  | n + 1, f, a, P, h0, hstep => by
      obtain ⟨b, hb, h1⟩ := hstep 0 a h0
      obtain ⟨c, hc, hlast⟩ := foldlM_finRange (f := fun a i => f a i.succ) (a := b)
        (fun i => P i.succ) h1 fun i b hb => hstep i.succ b hb
      refine ⟨c, ?_, hlast⟩
      rw [List.finRange_succ, List.foldlM_cons, hb, Option.bind_eq_bind, Option.bind_some,
        List.foldlM_map]
      exact hc

/-! ## Values -/

/-- The integer that the limbs represent. -/
def value (off : Vector Nat n) (h : Vector Int n) : Int := ∑ i : Fin n, 2 ^ off[i] * h[i]

/-- Writing a limb changes the value by the change of the limb, at its weight. -/
theorem value_set (off : Vector Nat n) (h : Vector Int n) (i : Fin n) (x : Int) :
    value off (h.set i x) = value off h + 2 ^ off[i] * (x - h[i]) := by
  have hterm : ∀ j : Fin n, (2 : Int) ^ off[j] * (h.set i x)[j]
      = 2 ^ off[j] * h[j] + if i = j then 2 ^ off[i] * (x - h[i]) else 0 := by
    intro j
    by_cases hij : i = j
    · subst hij
      simp only [Fin.getElem_fin, Vector.getElem_set_self, if_true]
      ring
    · have hval : i.val ≠ j.val := fun e => hij (Fin.ext e)
      simp [hij, hval]
  simp only [value, hterm, Finset.sum_add_distrib, Finset.sum_ite_eq, Finset.mem_univ, if_true]

theorem value_ofFn_add (off : Vector Nat n) (f g : Vector Int n) :
    value off (Vector.ofFn fun i => f[i] + g[i]) = value off f + value off g := by
  simp only [value, Fin.getElem_fin, Vector.getElem_ofFn, mul_add, Finset.sum_add_distrib]

theorem value_ofFn_sub (off : Vector Nat n) (f g : Vector Int n) :
    value off (Vector.ofFn fun i => f[i] - g[i]) = value off f - value off g := by
  simp only [value, Fin.getElem_fin, Vector.getElem_ofFn, mul_sub, Finset.sum_sub_distrib]

theorem value_ofFn_neg (off : Vector Nat n) (f : Vector Int n) :
    value off (Vector.ofFn fun i => -f[i]) = -value off f := by
  simp only [value, Fin.getElem_fin, Vector.getElem_ofFn, mul_neg, Finset.sum_neg_distrib]

/-- The value of the lower `k` limbs. -/
def part (off : Vector Nat n) (h : Vector Int n) (k : Nat) : Int :=
  ∑ i : Fin n, if i.val < k then 2 ^ off[i] * h[i] else 0

theorem part_succ (off : Vector Nat n) (h : Vector Int n) (i : Fin n) :
    part off h (i.val + 1) = part off h i.val + 2 ^ off[i] * h[i] := by
  have hterm : ∀ j : Fin n, (if j.val < i.val + 1 then (2 : Int) ^ off[j] * h[j] else 0)
      = (if j.val < i.val then 2 ^ off[j] * h[j] else 0)
        + if i = j then 2 ^ off[i] * h[i] else 0 := by
    intro j
    rcases lt_trichotomy j.val i.val with hlt | heq | hgt
    · have hne : i ≠ j := fun e => by omega
      simp [hlt, hne, Nat.lt_succ_of_lt hlt]
    · obtain rfl : j = i := Fin.ext heq
      simp
    · have hne : i ≠ j := fun e => by omega
      have h1 : ¬ j.val < i.val + 1 := by omega
      have h2 : ¬ j.val < i.val := by omega
      simp [h1, h2, hne]
  simp only [part, hterm, Finset.sum_add_distrib, Finset.sum_ite_eq, Finset.mem_univ, if_true]

theorem part_zero (off : Vector Nat n) (h : Vector Int n) : part off h 0 = 0 := by simp [part]

theorem part_all (off : Vector Nat n) (h : Vector Int n) : part off h n = value off h := by
  simp [part, value]

/-- The ends of the ranges. -/
def lows (R : Vector Range n) : Vector Int n := Vector.ofFn fun i => R[i].lo
def highs (R : Vector Range n) : Vector Int n := Vector.ofFn fun i => R[i].hi

/-- The value is between those of the ends of the ranges. -/
theorem Fits.value_ge {R : Vector Range n} {h : Vector Int n} (hh : Fits R h) (off : Vector Nat n) :
    value off (lows R) ≤ value off h :=
  Finset.sum_le_sum fun i _ => mul_le_mul_of_nonneg_left (by simpa [lows] using (hh i).1)
    (by positivity)

theorem Fits.value_le {R : Vector Range n} {h : Vector Int n} (hh : Fits R h) (off : Vector Nat n) :
    value off h ≤ value off (highs R) :=
  Finset.sum_le_sum fun i _ => mul_le_mul_of_nonneg_left (by simpa [highs] using (hh i).2)
    (by positivity)

/-! ## Moves -/

/-- A move of a carry chain: what limb `src` has above bit `shift`, after `round` is added to it,
leaves that limb and is added to the limbs `dst`, times their factors. A negative factor is a
subtraction. -/
structure Move (n : Nat) where
  src : Fin n
  shift : Nat
  round : Int
  dst : List (Fin n × Int)

/-- `h[j] += q * c`, or `h[j] -= q * |c|`. -/
def pour (w : Nat) (q : Int) (h : Vector Int n) (d : Fin n × Int) : Option (Vector Int n) := do
  let m ← signed w (q * d.2.natAbs)
  let s ← signed w (if d.2 < 0 then h[d.1] - m else h[d.1] + m)
  return h.set d.1 s

/-- A move, by integers of `w` bits. -/
def Move.run (w : Nat) (mv : Move n) (h : Vector Int n) : Option (Vector Int n) := do
  let t ← signed w (h[mv.src] + mv.round)
  let q := t >>> mv.shift
  let h' ← mv.dst.foldlM (pour w q) h
  let m ← signed w (q * 2 ^ mv.shift)
  let s ← signed w (h[mv.src] - m)
  return h'.set mv.src s

/-- A carry chain, by integers of `w` bits. -/
def run (w : Nat) (chain : List (Move n)) (h : Vector Int n) : Option (Vector Int n) :=
  chain.foldlM (fun h mv => mv.run w h) h

/-! ## Their ranges -/

def pourRange (w : Nat) (q : Range) (R : Vector Range n) (d : Fin n × Int) :
    Option (Vector Range n) := do
  let m ← (q.scale d.2.natAbs).signed w
  let s ← (if d.2 < 0 then R[d.1].sub m else R[d.1].add m).signed w
  return R.set d.1 s

/-- What a move leaves in its limb: the part below `shift`, without the rounding. -/
def Move.rest (mv : Move n) : Range := ⟨-mv.round, 2 ^ mv.shift - 1 - mv.round⟩

/-- The ranges of the limbs after a move; `none` when it may overflow. -/
def Move.range (w : Nat) (mv : Move n) (R : Vector Range n) : Option (Vector Range n) := do
  let t ← (R[mv.src].add ⟨mv.round, mv.round⟩).signed w
  let q := t.shift mv.shift
  let R' ← mv.dst.foldlM (pourRange w q) R
  let _ ← (q.scale (2 ^ mv.shift)).signed w
  let s ← mv.rest.signed w
  return R'.set mv.src s

/-- The ranges of the limbs after a chain; `none` when a move of it may overflow. -/
def ranges (w : Nat) (chain : List (Move n)) (R : Vector Range n) : Option (Vector Range n) :=
  chain.foldlM (fun R mv => mv.range w R) R

/-! ## Without the checks -/

/-- The value of `1`, poured into the limbs `dst`. -/
def weight (off : Vector Nat n) (dst : List (Fin n × Int)) : Int :=
  (dst.map fun d => (2 : Int) ^ off[d.1] * d.2).sum

def poured (q : Int) (dst : List (Fin n × Int)) (h : Vector Int n) : Vector Int n :=
  dst.foldl (fun h d => h.set d.1 (h[d.1] + q * d.2)) h

/-- What a move takes out of its limb. -/
def Move.taken (mv : Move n) (h : Vector Int n) : Int := (h[mv.src] + mv.round) >>> mv.shift

def Move.result (mv : Move n) (h : Vector Int n) : Vector Int n :=
  (poured (mv.taken h) mv.dst h).set mv.src (h[mv.src] - mv.taken h * 2 ^ mv.shift)

theorem pour_of_range {w : Nat} {q : Int} {rq : Range} {R R' : Vector Range n} {h : Vector Int n}
    {d : Fin n × Int} (hr : pourRange w rq R d = some R') (hq : rq.Has q) (hh : Fits R h) :
    pour w q h d = some (h.set d.1 (h[d.1] + q * d.2)) ∧
      Fits R' (h.set d.1 (h[d.1] + q * d.2)) := by
  obtain ⟨j, c⟩ := d
  simp only [pourRange, Option.bind_eq_bind, Option.bind_eq_some_iff, Option.pure_def,
    Option.some.injEq] at hr
  obtain ⟨m, hm, s, hs, rfl⟩ := hr
  have hqc := hq.scale c.natAbs
  have hmv := hqc.signed hm
  obtain ⟨rfl, -, -⟩ := Range.signed_eq_some hm
  have hx : Range.Has (if c < 0 then R[j].sub (rq.scale c.natAbs) else R[j].add (rq.scale c.natAbs))
      (h[j] + q * c) := by
    by_cases hc : c < 0
    · have habs : (c.natAbs : Int) = -c := by omega
      rw [if_pos hc]
      have := (hh j).sub hqc
      rwa [habs, mul_neg, sub_neg_eq_add] at this
    · have habs : (c.natAbs : Int) = c := by omega
      rw [if_neg hc]
      have := (hh j).add hqc
      rwa [habs] at this
  have hif : (if c < 0 then h[j] - q * c.natAbs else h[j] + q * c.natAbs) = h[j] + q * c := by
    by_cases hc : c < 0
    · rw [if_pos hc, show (c.natAbs : Int) = -c by omega]
      ring
    · rw [if_neg hc, show (c.natAbs : Int) = c by omega]
  have hsv := hx.signed hs
  obtain ⟨rfl, -, -⟩ := Range.signed_eq_some hs
  refine ⟨?_, hh.set j hx⟩
  simp only [pour, hmv, Option.bind_eq_bind, Option.bind_some, hif, hsv, Option.pure_def]

/-- A list of such writes, along the ranges. -/
theorem pours_of_range {w : Nat} {q : Int} {rq : Range} (hq : rq.Has q) :
    ∀ (dst : List (Fin n × Int)) {R R' : Vector Range n} {h : Vector Int n},
      dst.foldlM (pourRange w rq) R = some R' → Fits R h →
      dst.foldlM (pour w q) h = some (poured q dst h) ∧ Fits R' (poured q dst h)
  | [], R, R', h, hr, hh => by
      simp only [List.foldlM_nil, Option.pure_def, Option.some.injEq] at hr
      subst hr
      exact ⟨rfl, hh⟩
  | d :: dst, R, R', h, hr, hh => by
      simp only [List.foldlM_cons, Option.bind_eq_bind, Option.bind_eq_some_iff] at hr
      obtain ⟨R₁, hd, hr⟩ := hr
      obtain ⟨hp, hh₁⟩ := pour_of_range hd hq hh
      obtain ⟨hrun, hfit⟩ := pours_of_range hq dst hr hh₁
      refine ⟨?_, hfit⟩
      rw [List.foldlM_cons, hp]
      exact hrun

theorem Move.rest_has (mv : Move n) (h : Vector Int n) :
    mv.rest.Has (h[mv.src] - mv.taken h * 2 ^ mv.shift) := by
  have hk : (0 : Int) < 2 ^ mv.shift := by positivity
  have hdiv := Int.emod_add_mul_ediv (h[mv.src] + mv.round) (2 ^ mv.shift)
  have hnn := Int.emod_nonneg (h[mv.src] + mv.round) hk.ne'
  have hlt := Int.emod_lt_of_pos (h[mv.src] + mv.round) hk
  simp only [rest, Range.Has, taken, Int.shiftRight_eq_div_pow, Nat.cast_pow, Nat.cast_ofNat]
  constructor <;> linarith

/-- **A move that the ranges allow does not overflow**, and its result is in them. -/
theorem Move.run_of_range {w : Nat} {mv : Move n} {R R' : Vector Range n} {h : Vector Int n}
    (hr : mv.range w R = some R') (hh : Fits R h) :
    mv.run w h = some (mv.result h) ∧ Fits R' (mv.result h) := by
  simp only [range, Option.bind_eq_bind, Option.bind_eq_some_iff, Option.pure_def,
    Option.some.injEq] at hr
  obtain ⟨t, ht, R₁, hR₁, m, hm, s, hs, rfl⟩ := hr
  have hadd : (R[mv.src].add ⟨mv.round, mv.round⟩).Has (h[mv.src] + mv.round) :=
    (hh mv.src).add ⟨le_refl _, le_refl _⟩
  have htv := hadd.signed ht
  obtain ⟨rfl, -, -⟩ := Range.signed_eq_some ht
  have hq := hadd.shift mv.shift
  obtain ⟨hpour, hfit⟩ := pours_of_range hq mv.dst hR₁ hh
  have hmul := (hq.scale (2 ^ mv.shift)).signed hm
  push_cast at hmul
  have hrest := mv.rest_has h
  have hsv := hrest.signed hs
  obtain ⟨rfl, -, -⟩ := Range.signed_eq_some hs
  refine ⟨?_, hfit.set mv.src hrest⟩
  simp only [taken] at hsv
  simp only [run, htv, Option.bind_eq_bind, Option.bind_some, hpour, hmul, hsv, Option.pure_def,
    result, taken]

/-! ## What a chain keeps -/

/-- What is poured into the other limbs has, modulo `p`, the value that leaves the limb. -/
def Move.Keeps (off : Vector Nat n) (p : Int) (mv : Move n) : Prop :=
  (∀ d ∈ mv.dst, d.1 ≠ mv.src) ∧
    p ∣ weight off mv.dst - 2 ^ off[mv.src] * 2 ^ mv.shift

instance (off : Vector Nat n) (p : Int) (mv : Move n) : Decidable (mv.Keeps off p) :=
  inferInstanceAs (Decidable (_ ∧ _))

theorem value_poured (off : Vector Nat n) (q : Int) :
    ∀ (dst : List (Fin n × Int)) (h : Vector Int n),
      value off (poured q dst h) = value off h + q * weight off dst
  | [], h => by simp [poured, weight]
  | d :: dst, h => by
      have ih := value_poured off q dst (h.set d.1 (h[d.1] + q * d.2))
      simp only [poured, weight, List.foldl_cons, List.map_cons, List.sum_cons] at ih ⊢
      rw [ih, value_set]
      ring

theorem getElem_poured (q : Int) {i : Fin n} :
    ∀ (dst : List (Fin n × Int)) (h : Vector Int n), (∀ d ∈ dst, d.1 ≠ i) →
      (poured q dst h)[i] = h[i]
  | [], _, _ => rfl
  | d :: dst, h, hd => by
      have ih := getElem_poured q dst (h.set d.1 (h[d.1] + q * d.2))
        fun e he => hd e (List.mem_cons_of_mem _ he)
      have hval : d.1.val ≠ i.val := fun e => hd d List.mem_cons_self (Fin.ext e)
      simp only [poured, List.foldl_cons] at ih ⊢
      rw [ih]
      simp [hval]

/-- What a move does to the value: what leaves the limb comes back with the weight of the others. -/
theorem Move.value_result_eq (off : Vector Nat n) {mv : Move n} (hsrc : ∀ d ∈ mv.dst, d.1 ≠ mv.src)
    (h : Vector Int n) : value off (mv.result h) = value off h +
      mv.taken h * (weight off mv.dst - 2 ^ off[mv.src] * 2 ^ mv.shift) := by
  rw [result, value_set, getElem_poured _ _ _ hsrc, value_poured]
  ring

/-- **A move keeps the value modulo `p`.** -/
theorem Move.value_result {off : Vector Nat n} {p : Int} {mv : Move n} (hk : mv.Keeps off p)
    (h : Vector Int n) : value off (mv.result h) ≡ value off h [ZMOD p] := by
  obtain ⟨hsrc, hdvd⟩ := hk
  rw [mv.value_result_eq off hsrc]
  exact (Int.modEq_iff_dvd.mpr (by simpa using hdvd.mul_left _)).symm

/-- **A chain that the ranges allow does not overflow**, ends in the ranges computed for it, and
keeps the value modulo `p` when each of its moves does. -/
theorem chain_spec {w : Nat} {off : Vector Nat n} {p : Int} :
    ∀ (chain : List (Move n)) {R R' : Vector Range n} {h : Vector Int n},
      ranges w chain R = some R' → (∀ mv ∈ chain, mv.Keeps off p) → Fits R h →
      ∃ h', run w chain h = some h' ∧ Fits R' h' ∧ value off h' ≡ value off h [ZMOD p]
  | [], R, R', h, hr, _, hh => by
      simp only [ranges, List.foldlM_nil, Option.pure_def, Option.some.injEq] at hr
      subst hr
      exact ⟨h, rfl, hh, Int.ModEq.refl _⟩
  | mv :: chain, R, R', h, hr, hk, hh => by
      simp only [ranges, List.foldlM_cons, Option.bind_eq_bind, Option.bind_eq_some_iff] at hr
      obtain ⟨R₁, hmv, hr⟩ := hr
      obtain ⟨hrun, hfit⟩ := Move.run_of_range hmv hh
      obtain ⟨h', hrest, hfit', hval⟩ := chain_spec chain hr
        (fun m hm => hk m (List.mem_cons_of_mem _ hm)) hfit
      refine ⟨h', ?_, hfit', hval.trans (Move.value_result (hk mv List.mem_cons_self) h)⟩
      simp only [Limbs.run, List.foldlM_cons, hrun, Option.bind_eq_bind, Option.bind_some]
      exact hrest

theorem run_append (w : Nat) (chain chain' : List (Move n)) (h : Vector Int n) :
    run w (chain ++ chain') h = run w chain h >>= run w chain' := List.foldlM_append

/-! ## Magnitudes -/

/-- The magnitudes of the limbs are up to `B`. -/
def Upto (B : Vector Nat n) (h : Vector Int n) : Prop := ∀ i : Fin n, |h[i]| ≤ B[i]

instance (B : Vector Nat n) (h : Vector Int n) : Decidable (Upto B h) :=
  inferInstanceAs (Decidable (∀ _, _))

/-- No bound of `B` is above that of `C`. -/
def Below (B C : Vector Nat n) : Prop := ∀ i : Fin n, B[i] ≤ C[i]

instance (B C : Vector Nat n) : Decidable (Below B C) := inferInstanceAs (Decidable (∀ _, _))

theorem Upto.mono {B C : Vector Nat n} {h : Vector Int n} (hh : Upto B h) (hBC : Below B C) :
    Upto C h :=
  fun i => (hh i).trans (by exact_mod_cast hBC i)

/-- The bounds of sums. -/
def sums (B C : Vector Nat n) : Vector Nat n := Vector.ofFn fun i => B[i] + C[i]

theorem Upto.add {B C : Vector Nat n} {f g : Vector Int n} (hf : Upto B f) (hg : Upto C g) :
    Upto (sums B C) (Vector.ofFn fun i => f[i] + g[i]) := by
  intro i
  have hle := (abs_add_le _ _).trans (add_le_add (hf i) (hg i))
  simpa [sums] using hle

theorem Upto.sub {B C : Vector Nat n} {f g : Vector Int n} (hf : Upto B f) (hg : Upto C g) :
    Upto (sums B C) (Vector.ofFn fun i => f[i] - g[i]) := by
  intro i
  have hle := (abs_sub _ _).trans (add_le_add (hf i) (hg i))
  simpa [sums] using hle

theorem Upto.neg {B : Vector Nat n} {f : Vector Int n} (hf : Upto B f) :
    Upto B (Vector.ofFn fun i => -f[i]) := by
  intro i
  simpa using hf i

theorem Upto.set {B : Vector Nat n} {h : Vector Int n} {b : Nat} {x : Int} (hh : Upto B h)
    (i : Fin n) (hx : |x| ≤ b) : Upto (B.set i b) (h.set i x) := by
  intro j
  by_cases hij : i = j
  · subst hij
    simpa using hx
  · have hval : i.val ≠ j.val := fun e => hij (Fin.ext e)
    simpa [hval] using hh j

/-- Magnitudes as ranges. -/
def uptos (B : Vector Nat n) : Vector Range n := Vector.ofFn fun i => Range.upto B[i]

theorem fits_uptos {B : Vector Nat n} {h : Vector Int n} : Fits (uptos B) h ↔ Upto B h := by
  simp only [Fits, Upto, uptos, Fin.getElem_fin, Vector.getElem_ofFn, Range.has_upto]

/-- From limbs up to `B`, no move of the chain overflows and its limbs are up to `C`. -/
def Carries (w : Nat) (chain : List (Move n)) (B C : Vector Nat n) : Prop :=
  (ranges w chain (uptos B)).any
    (fun R => ∀ i : Fin n, -(C[i] : Int) ≤ R[i].lo ∧ R[i].hi ≤ (C[i] : Int)) = true

instance (w : Nat) (chain : List (Move n)) (B C : Vector Nat n) :
    Decidable (Carries w chain B C) := inferInstanceAs (Decidable (_ = true))

theorem Carries.run {w : Nat} {off : Vector Nat n} {p : Int} {chain : List (Move n)}
    {B C : Vector Nat n} {h : Vector Int n} (hc : Carries w chain B C)
    (hk : ∀ mv ∈ chain, mv.Keeps off p) (hh : Upto B h) :
    ∃ h', Limbs.run w chain h = some h' ∧ Upto C h' ∧ value off h' ≡ value off h [ZMOD p] := by
  obtain ⟨R, hR, hle⟩ := (Option.any_eq_true _ _).mp hc
  obtain ⟨h', hrun, hfit, hval⟩ := chain_spec chain hR hk (fits_uptos.mpr hh)
  refine ⟨h', hrun, fun i => ?_, hval⟩
  obtain ⟨hlo, hhi⟩ := of_decide_eq_true hle i
  exact abs_le.mpr ⟨hlo.trans (hfit i).1, (hfit i).2.trans hhi⟩

/-! ## Products -/

/-- All of the values, when there are all. -/
def collect {m : Nat} (x : Fin m → Option Int) : Option (Vector Int m) :=
  if h : ∀ i, (x i).isSome then some (Vector.ofFn fun i => (x i).get (h i)) else none

theorem collect_eq {m : Nat} {x : Fin m → Option Int} {y : Fin m → Int}
    (h : ∀ i, x i = some (y i)) : collect x = some (Vector.ofFn y) := by
  obtain rfl : x = fun i => some (y i) := funext h
  simp [collect]

/-- The term `(a * f[i]) * (b * g[j])` of a product of limbs. -/
structure Term (m : Nat) where
  a : Int
  i : Fin m
  b : Int
  j : Fin m

variable {m : Nat}

/-- A term: its factors by integers of `v` bits, their product by integers of `w` bits. -/
def Term.eval (v w : Nat) (f g : Vector Int m) (t : Term m) : Option Int := do
  let x ← signed v (t.a * f[t.i])
  let y ← signed v (t.b * g[t.j])
  signed w (x * y)

/-- The sum of the terms, after `c`. -/
def row (v w : Nat) (f g : Vector Int m) (c : Int) (ts : List (Term m)) : Option Int :=
  ts.foldlM (fun s t => do
    let x ← t.eval v w f g
    signed w (s + x)) c

/-- Limb `k` of the result is `e[k]` and the terms of row `k` of the table `T`. -/
def products (v w : Nat) (T : Fin n → List (Term m)) (f g : Vector Int m) (e : Vector Int n) :
    Option (Vector Int n) :=
  collect fun k => row v w f g e[k] (T k)

/-- The magnitude, when every integer of it fits `w` bits. -/
def fitting (w b : Nat) : Option Nat := if b < 2 ^ (w - 1) then some b else none

/-- A bound of a term, from bounds of the limbs; `none` when it may overflow. -/
def Term.bound (v w : Nat) (F G : Vector Nat m) (t : Term m) : Option Nat := do
  let x ← fitting v (t.a.natAbs * F[t.i])
  let y ← fitting v (t.b.natAbs * G[t.j])
  fitting w (x * y)

def rowBound (v w : Nat) (F G : Vector Nat m) (c : Nat) (ts : List (Term m)) : Option Nat :=
  ts.foldlM (fun s t => do
    let x ← t.bound v w F G
    fitting w (s + x)) c

theorem fitting_eq_some {w b b' : Nat} (h : fitting w b = some b') : b' = b ∧ b < 2 ^ (w - 1) := by
  unfold fitting at h
  split at h
  · exact ⟨(Option.some.inj h).symm, ‹_›⟩
  · cases h

theorem signed_of_abs_le {w b : Nat} {x : Int} (hx : |x| ≤ b) (hb : b < 2 ^ (w - 1)) :
    signed w x = some x := by
  have hb : (b : Int) < 2 ^ (w - 1) := by exact_mod_cast hb
  obtain ⟨hlo, hhi⟩ := abs_le.mp hx
  exact signed_eq_self.mpr ⟨by linarith, by linarith⟩

theorem signed_of_fitting {w b b' : Nat} {x : Int} (h : fitting w b = some b') (hx : |x| ≤ b) :
    signed w x = some x := signed_of_abs_le hx (fitting_eq_some h).2

/-- Magnitudes that integers of `w` bits have. -/
def Fitting (w : Nat) (B : Vector Nat n) : Prop := ∀ i : Fin n, B[i] < 2 ^ (w - 1)

instance (w : Nat) (B : Vector Nat n) : Decidable (Fitting w B) :=
  inferInstanceAs (Decidable (∀ _, _))

theorem Below.fitting {w : Nat} {B C : Vector Nat n} (hBC : Below B C) (hC : Fitting w C) :
    Fitting w B := fun i => (hBC i).trans_lt (hC i)

/-- Limb by limb operations that fit. -/
theorem collect_signed {w : Nat} {x : Fin n → Int} {B : Vector Nat n} (hB : Fitting w B)
    (hx : Upto B (Vector.ofFn x)) : collect (fun i => signed w (x i)) = some (Vector.ofFn x) :=
  collect_eq fun i => signed_of_abs_le (by simpa using hx i) (hB i)

/-- What a term stands for. -/
def Term.exact (f g : Vector Int m) (t : Term m) : Int := t.a * t.b * (f[t.i] * g[t.j])

theorem Term.eval_of_bound {v w : Nat} {F G : Vector Nat m} {f g : Vector Int m} {t : Term m}
    {b : Nat} (h : t.bound v w F G = some b) (hf : Upto F f) (hg : Upto G g) :
    t.eval v w f g = some (t.exact f g) ∧ |t.exact f g| ≤ b := by
  simp only [bound, Option.bind_eq_bind, Option.bind_eq_some_iff] at h
  obtain ⟨x, hx, y, hy, hb⟩ := h
  have habs : ∀ (c : Int) (z : Int) (B : Nat), |z| ≤ B → |c * z| ≤ (c.natAbs * B : Nat) := by
    intro c z B hz
    rw [abs_mul]
    push_cast
    exact mul_le_mul_of_nonneg_left hz (abs_nonneg c)
  have hfx := habs t.a _ _ (hf t.i)
  have hgy := habs t.b _ _ (hg t.j)
  have hxv := signed_of_fitting hx hfx
  have hyv := signed_of_fitting hy hgy
  obtain ⟨rfl, -⟩ := fitting_eq_some hx
  obtain ⟨rfl, -⟩ := fitting_eq_some hy
  have hprod : |t.a * f[t.i] * (t.b * g[t.j])|
      ≤ (t.a.natAbs * F[t.i] * (t.b.natAbs * G[t.j]) : Nat) := by
    rw [abs_mul]
    push_cast at hfx hgy ⊢
    exact mul_le_mul hfx hgy (abs_nonneg _) (by positivity)
  have hev := signed_of_fitting hb hprod
  have hexact : t.a * f[t.i] * (t.b * g[t.j]) = t.exact f g := by
    simp only [exact]
    ring
  rw [hexact] at hev hprod
  obtain ⟨rfl, -⟩ := fitting_eq_some hb
  refine ⟨?_, hprod⟩
  simp only [eval, hxv, hyv, Option.bind_eq_bind, Option.bind_some, hexact, hev]

theorem row_of_bound {v w : Nat} {F G : Vector Nat m} {f g : Vector Int m} (hf : Upto F f)
    (hg : Upto G g) :
    ∀ (ts : List (Term m)) {c : Int} {C b : Nat}, rowBound v w F G C ts = some b → |c| ≤ C →
      row v w f g c ts = some (c + (ts.map (Term.exact f g)).sum) ∧
        |c + (ts.map (Term.exact f g)).sum| ≤ b
  | [], c, C, b, h, hc => by
      simp only [rowBound, List.foldlM_nil, Option.pure_def, Option.some.injEq] at h
      subst h
      simpa [row] using hc
  | t :: ts, c, C, b, h, hc => by
      simp only [rowBound, List.foldlM_cons, Option.bind_eq_bind, Option.bind_eq_some_iff] at h
      obtain ⟨C', ⟨x, hx, hC'⟩, hrest⟩ := h
      obtain ⟨hev, hle⟩ := Term.eval_of_bound hx hf hg
      have hsum : |c + t.exact f g| ≤ (C + x : Nat) := by
        push_cast
        exact (abs_add_le _ _).trans (add_le_add hc hle)
      have hsv := signed_of_fitting hC' hsum
      obtain ⟨rfl, -⟩ := fitting_eq_some hC'
      obtain ⟨hrow, hbound⟩ := row_of_bound hf hg ts hrest hsum
      rw [List.map_cons, List.sum_cons, ← add_assoc]
      refine ⟨?_, hbound⟩
      simp only [row, List.foldlM_cons, hev, Option.bind_eq_bind, Option.bind_some, hsv]
      exact hrow

theorem sum_map_filterMap {α β : Type} (f : α → Option β) (g : β → Int) (l : List α) :
    ((l.filterMap f).map g).sum = (l.map fun x => ((f x).map g).getD 0).sum := by
  induction l with
  | nil => rfl
  | cons x l ih => cases hx : f x <;> simp [hx, ih]

/-- What the table has for `f[i] * g[j]`, all rows together. -/
def coefficient (off : Vector Nat n) (T : Fin n → List (Term m)) (i j : Fin m) : Int :=
  ∑ k : Fin n, 2 ^ off[k] * ((T k).map fun t => if t.i = i ∧ t.j = j then t.a * t.b else 0).sum

theorem sum_exact (f g : Vector Int m) (ts : List (Term m)) :
    (ts.map (Term.exact f g)).sum = ∑ i : Fin m, ∑ j : Fin m,
      (ts.map fun t => if t.i = i ∧ t.j = j then t.a * t.b else 0).sum * (f[i] * g[j]) := by
  induction ts with
  | nil => simp
  | cons t ts ih =>
      have hone : t.exact f g = ∑ i : Fin m, ∑ j : Fin m,
          (if t.i = i ∧ t.j = j then t.a * t.b else 0) * (f[i] * g[j]) := by
        rw [Finset.sum_eq_single t.i, Finset.sum_eq_single t.j]
        · simp [Term.exact]
        · intro j _ hj
          rw [if_neg fun h => hj h.2.symm, zero_mul]
        · simp
        · intro i _ hi
          exact Finset.sum_eq_zero fun j _ => by rw [if_neg fun h => hi h.1.symm, zero_mul]
        · simp
      simp only [List.map_cons, List.sum_cons, ih, hone, add_mul, Finset.sum_add_distrib]

/-- The rows, weighted: the products of the limbs with the coefficients of the table. -/
theorem value_products (off : Vector Nat n) (T : Fin n → List (Term m)) (f g : Vector Int m)
    (e : Vector Int n) :
    value off (Vector.ofFn fun k => e[k] + ((T k).map (Term.exact f g)).sum) = value off e +
      ∑ i : Fin m, ∑ j : Fin m, coefficient off T i j * (f[i] * g[j]) := by
  have hrow : ∀ k : Fin n, (2 : Int) ^ off[k] * (e[k] + ((T k).map (Term.exact f g)).sum)
      = 2 ^ off[k] * e[k] + ∑ i : Fin m, ∑ j : Fin m, 2 ^ off[k] *
        ((T k).map fun t => if t.i = i ∧ t.j = j then t.a * t.b else 0).sum * (f[i] * g[j]) := by
    intro k
    rw [mul_add, sum_exact, Finset.mul_sum]
    simp only [Finset.mul_sum, mul_assoc]
  simp only [value, coefficient, Fin.getElem_fin, Vector.getElem_ofFn, Fin.eta]
  simp only [Fin.getElem_fin] at hrow
  simp only [hrow, Finset.sum_add_distrib, Finset.sum_mul]
  congr 1
  rw [Finset.sum_comm]
  exact Finset.sum_congr rfl fun i _ => Finset.sum_comm

theorem value_mul_value (off : Vector Nat m) (f g : Vector Int m) :
    value off f * value off g
      = ∑ i : Fin m, ∑ j : Fin m, 2 ^ off[i] * 2 ^ off[j] * (f[i] * g[j]) := by
  simp only [value, Finset.sum_mul_sum]
  exact Finset.sum_congr rfl fun i _ => Finset.sum_congr rfl fun j _ => by ring

/-! ## What a table computes -/

/-- The rows of the table, from limbs up to `F`, `G` and `C`, are up to `B`. -/
def Bounds (v w : Nat) (T : Fin n → List (Term m)) (F G : Vector Nat m) (C B : Vector Nat n) :
    Prop :=
  ∀ k : Fin n, (rowBound v w F G C[k] (T k)).any (· ≤ B[k]) = true

instance (v w : Nat) (T : Fin n → List (Term m)) (F G : Vector Nat m) (C B : Vector Nat n) :
    Decidable (Bounds v w T F G C B) := inferInstanceAs (Decidable (∀ _, _))

/-- **A table that the bounds allow does not overflow**, and computes its weighted sum. -/
theorem products_spec {v w : Nat} {T : Fin n → List (Term m)} {F G : Vector Nat m}
    {C B : Vector Nat n} (hB : Bounds v w T F G C B) (off : Vector Nat n) {f g : Vector Int m}
    {e : Vector Int n} (hf : Upto F f) (hg : Upto G g) (hc : Upto C e) :
    ∃ h, products v w T f g e = some h ∧ Upto B h ∧
      value off h = value off e +
        ∑ i : Fin m, ∑ j : Fin m, coefficient off T i j * (f[i] * g[j]) := by
  have hrow : ∀ k : Fin n, row v w f g e[k] (T k) = some (e[k] + ((T k).map (Term.exact f g)).sum)
      ∧ |e[k] + ((T k).map (Term.exact f g)).sum| ≤ B[k] := by
    intro k
    obtain ⟨b, hb, hle⟩ := (Option.any_eq_true _ _).mp (hB k)
    obtain ⟨hr, habs⟩ := row_of_bound hf hg (T k) hb (hc k)
    exact ⟨hr, habs.trans (by exact_mod_cast of_decide_eq_true hle)⟩
  refine ⟨_, collect_eq fun k => (hrow k).1, ?_, value_products off T f g e⟩
  intro k
  simpa using (hrow k).2

/-- The table is the one of the product, modulo `p`. -/
def Multiplies (off : Vector Nat n) (off' : Vector Nat m) (p : Int) (T : Fin n → List (Term m)) :
    Prop :=
  ∀ i j : Fin m, p ∣ coefficient off T i j - 2 ^ off'[i] * 2 ^ off'[j]

instance (off : Vector Nat n) (off' : Vector Nat m) (p : Int) (T : Fin n → List (Term m)) :
    Decidable (Multiplies off off' p T) := inferInstanceAs (Decidable (∀ _, _))

/-- The table is the one of the square, modulo `p`: of `f[i] * f[j]` and `f[j] * f[i]` together it
has twice the weight. -/
def Squares (off : Vector Nat n) (off' : Vector Nat m) (p : Int) (T : Fin n → List (Term m)) :
    Prop :=
  ∀ i j : Fin m,
    p ∣ coefficient off T i j + coefficient off T j i - 2 * (2 ^ off'[i] * 2 ^ off'[j])

instance (off : Vector Nat n) (off' : Vector Nat m) (p : Int) (T : Fin n → List (Term m)) :
    Decidable (Squares off off' p T) := inferInstanceAs (Decidable (∀ _, _))

theorem Multiplies.sum_modEq {off : Vector Nat n} {off' : Vector Nat m} {p : Int}
    {T : Fin n → List (Term m)} (hT : Multiplies off off' p T) (f g : Vector Int m) :
    ∑ i : Fin m, ∑ j : Fin m, coefficient off T i j * (f[i] * g[j])
      ≡ value off' f * value off' g [ZMOD p] := by
  rw [value_mul_value, Int.modEq_comm, Int.modEq_iff_dvd, ← Finset.sum_sub_distrib]
  refine Finset.dvd_sum fun i _ => ?_
  rw [← Finset.sum_sub_distrib]
  refine Finset.dvd_sum fun j _ => ?_
  rw [← sub_mul]
  exact (hT i j).mul_right _

theorem Squares.sum_modEq {off : Vector Nat n} {off' : Vector Nat m} {p : Int}
    {T : Fin n → List (Term m)} (hT : Squares off off' p T) (hp : IsCoprime p 2)
    (f : Vector Int m) :
    ∑ i : Fin m, ∑ j : Fin m, coefficient off T i j * (f[i] * f[j])
      ≡ value off' f * value off' f [ZMOD p] := by
  set S := ∑ i : Fin m, ∑ j : Fin m, coefficient off T i j * (f[i] * f[j]) with hS
  have hswap : S = ∑ i : Fin m, ∑ j : Fin m, coefficient off T j i * (f[i] * f[j]) := by
    rw [hS, Finset.sum_comm]
    exact Finset.sum_congr rfl fun i _ => Finset.sum_congr rfl fun j _ => by ring
  have hdouble : 2 * (S - value off' f * value off' f) = ∑ i : Fin m, ∑ j : Fin m,
      (coefficient off T i j + coefficient off T j i - 2 * (2 ^ off'[i] * 2 ^ off'[j]))
        * (f[i] * f[j]) := by
    rw [mul_sub, two_mul S]
    nth_rewrite 2 [hswap]
    rw [hS, value_mul_value, Finset.mul_sum, ← Finset.sum_add_distrib, ← Finset.sum_sub_distrib]
    refine Finset.sum_congr rfl fun i _ => ?_
    rw [Finset.mul_sum, ← Finset.sum_add_distrib, ← Finset.sum_sub_distrib]
    exact Finset.sum_congr rfl fun j _ => by ring
  have hdvd : p ∣ 2 * (S - value off' f * value off' f) := by
    rw [hdouble]
    exact Finset.dvd_sum fun i _ => Finset.dvd_sum fun j _ => (hT i j).mul_right _
  rw [Int.modEq_comm, Int.modEq_iff_dvd]
  exact hp.dvd_of_dvd_mul_left hdvd

end Limbs

/-! # Numbers in bytes and in groups of bits

`bits V off w` is the group of `w` bits of `V` that starts at bit `off`. A partition of the bits of
a number into consecutive groups is given by its bounds `o 0 ≤ o 1 ≤ ... ≤ o n`; the number is the
sum of its groups (`sum_bits`) and the groups are those of the sum (`bits_sum`). Bytes are the
partition at the multiples of 8. Writing limbs as bytes takes each byte from one limb, or from the
end of a limb and the start of the next: `Piece.toNat_byte`. -/

namespace Radix

open Limbs

/-! ## Groups of bits -/

/-- The `w` bits of `V` from bit `off` on. -/
def bits (V off w : Nat) : Nat := V / 2 ^ off % 2 ^ w

theorem bits_lt (V off w : Nat) : bits V off w < 2 ^ w := Nat.mod_lt _ (Nat.two_pow_pos w)

theorem testBit_bits (V off w t : Nat) :
    (bits V off w).testBit t = (decide (t < w) && V.testBit (off + t)) := by
  rw [bits, Nat.testBit_mod_two_pow, Nat.testBit_div_two_pow, Nat.add_comm]

theorem bits_bits {a b w w' : Nat} (V : Nat) (h : b + w' ≤ w) :
    bits (bits V a w) b w' = bits V (a + b) w' := by
  refine Nat.eq_of_testBit_eq fun t => ?_
  simp only [testBit_bits]
  by_cases ht : t < w'
  · have hw : b + t < w := by omega
    simp [ht, hw, Nat.add_assoc]
  · simp [ht]

/-- A group of bits is two groups. -/
theorem bits_split (V off a b : Nat) :
    bits V off (a + b) = bits V off a + 2 ^ a * bits V (off + a) b := by
  rw [bits, Nat.pow_add, Nat.mod_mul, bits, bits, Nat.pow_add, Nat.div_div_eq_div_mul]

/-- What is above a group of bits does not change it. -/
theorem bits_add_mul {off w a : Nat} (x y : Nat) (h : off + w ≤ a) :
    bits (x + 2 ^ a * y) off w = bits x off w := by
  obtain ⟨c, rfl⟩ := Nat.exists_eq_add_of_le h
  rw [bits, bits, show 2 ^ (off + w + c) * y = 2 ^ off * (2 ^ w * (2 ^ c * y)) by
    simp only [Nat.pow_add]; ring, Nat.add_mul_div_left _ _ (Nat.two_pow_pos off),
    Nat.add_mul_mod_self_left]

/-! ## Partitions -/

variable {n : Nat}

/-- The width of group `i`. -/
def width (o : Fin (n + 1) → Nat) (i : Fin n) : Nat := o i.succ - o i.castSucc

/-- The bounds of the groups are in order. -/
def Ordered (o : Fin (n + 1) → Nat) : Prop := ∀ i : Fin n, o i.castSucc ≤ o i.succ

instance (o : Fin (n + 1) → Nat) : Decidable (Ordered o) := inferInstanceAs (Decidable (∀ _, _))

theorem Ordered.init {o : Fin (n + 2) → Nat} (ho : Ordered o) :
    Ordered fun i : Fin (n + 1) => o i.castSucc := fun i => ho i.castSucc

theorem width_init (o : Fin (n + 2) → Nat) (i : Fin n) :
    width (fun i : Fin (n + 1) => o i.castSucc) i = width o i.castSucc := rfl

theorem Ordered.add_width {o : Fin (n + 1) → Nat} (ho : Ordered o) (i : Fin n) :
    o i.castSucc + width o i = o i.succ := Nat.add_sub_cancel' (ho i)

/-- **A number is the sum of its groups of bits.** -/
theorem sum_bits (V : Nat) : ∀ {n : Nat} {o : Fin (n + 1) → Nat}, Ordered o → o 0 = 0 →
    ∑ i : Fin n, 2 ^ o i.castSucc * bits V (o i.castSucc) (width o i) = V % 2 ^ o (Fin.last n)
  | 0, o, _, h0 => by
      have hlast : o (Fin.last 0) = 0 := h0
      rw [hlast, Nat.pow_zero, Nat.mod_one]
      rfl
  | n + 1, o, ho, h0 => by
      have ih := sum_bits V ho.init h0
      simp only [width_init] at ih
      have hlast := ho.add_width (Fin.last n)
      rw [Fin.succ_last] at hlast
      have hsplit := bits_split V 0 (o (Fin.last n).castSucc) (width o (Fin.last n))
      rw [hlast, Nat.zero_add, bits, bits, Nat.pow_zero, Nat.div_one] at hsplit
      rw [Fin.sum_univ_castSucc, ih, hsplit]

theorem sum_lt : ∀ {n : Nat} {o : Fin (n + 1) → Nat}, Ordered o → ∀ {d : Fin n → Nat},
    (∀ i, d i < 2 ^ width o i) → ∑ i : Fin n, 2 ^ o i.castSucc * d i < 2 ^ o (Fin.last n)
  | 0, _, _, _, _ => by simp
  | n + 1, o, ho, d, hd => by
      have ih := sum_lt ho.init (d := fun i => d i.castSucc) fun i => hd i.castSucc
      have hlast := ho.add_width (Fin.last n)
      rw [Fin.succ_last] at hlast
      rw [Fin.sum_univ_castSucc, ← hlast, Nat.pow_add]
      calc ∑ i : Fin n, 2 ^ o i.castSucc.castSucc * d i.castSucc
            + 2 ^ o (Fin.last n).castSucc * d (Fin.last n)
          < 2 ^ o (Fin.last n).castSucc + 2 ^ o (Fin.last n).castSucc * d (Fin.last n) :=
            Nat.add_lt_add_right ih _
        _ = 2 ^ o (Fin.last n).castSucc * (d (Fin.last n) + 1) := by ring
        _ ≤ 2 ^ o (Fin.last n).castSucc * 2 ^ width o (Fin.last n) :=
            Nat.mul_le_mul_left _ (hd _)

/-- The bounds of the groups below a group are below its. -/
theorem Ordered.le_of_le {o : Fin (n + 1) → Nat} (ho : Ordered o) {i j : Fin (n + 1)}
    (hij : i ≤ j) : o i ≤ o j := Fin.monotone_iff_le_succ.mpr ho hij

/-- **The groups of a sum are its digits.** -/
theorem bits_sum : ∀ {n : Nat} {o : Fin (n + 1) → Nat}, Ordered o → ∀ {d : Fin n → Nat},
    (∀ i, d i < 2 ^ width o i) → ∀ j : Fin n,
      bits (∑ i : Fin n, 2 ^ o i.castSucc * d i) (o j.castSucc) (width o j) = d j
  | 0, _, _, _, _, j => j.elim0
  | n + 1, o, ho, d, hd, j => by
      have hd' : ∀ i : Fin n, d i.castSucc < 2 ^ width (fun i : Fin (n + 1) => o i.castSucc) i :=
        fun i => hd i.castSucc
      rw [Fin.sum_univ_castSucc]
      refine Fin.lastCases ?_ (fun j => ?_) j
      · have hlt := sum_lt ho.init hd'
        rw [bits, Nat.add_mul_div_left _ _ (Nat.two_pow_pos _), Nat.div_eq_of_lt hlt, Nat.zero_add,
          Nat.mod_eq_of_lt (hd _)]
      · have ih := bits_sum ho.init hd' j
        have hle : o j.castSucc.castSucc + width o j.castSucc ≤ o (Fin.last n).castSucc := by
          rw [ho.add_width, Fin.succ_castSucc]
          exact ho.le_of_le (Fin.castSucc_le_castSucc_iff.mpr (Fin.le_last _))
        rw [bits_add_mul _ _ hle]
        exact ih

/-! ## Bytes -/

/-- The bounds of `n` bytes. -/
def octets (n : Nat) (i : Fin (n + 1)) : Nat := 8 * i.val

theorem octets_ordered (n : Nat) : Ordered (octets n) := fun i => by
  simp only [octets, Fin.val_castSucc, Fin.val_succ]
  omega

theorem width_octets (i : Fin n) : width (octets n) i = 8 := by
  simp only [width, octets, Fin.val_castSucc, Fin.val_succ]
  omega

/-- The number of which these are the bytes, the least significant one first. -/
def leVal (s : Vector (BitVec 8) n) : Nat := ∑ i : Fin n, 2 ^ (8 * i.val) * s[i].toNat

theorem leVal_lt (s : Vector (BitVec 8) n) : leVal s < 2 ^ (8 * n) :=
  sum_lt (octets_ordered n) (d := fun i => s[i].toNat)
    fun i => by rw [width_octets]; exact s[i].isLt

theorem bits_leVal (s : Vector (BitVec 8) n) (i : Fin n) :
    bits (leVal s) (8 * i.val) 8 = s[i].toNat := by
  have h := bits_sum (octets_ordered n) (d := fun i => s[i].toNat)
    (fun i => by rw [width_octets]; exact s[i].isLt) i
  rwa [width_octets] at h

theorem leVal_of_bits {s : Vector (BitVec 8) n} {V : Nat} (hV : V < 2 ^ (8 * n))
    (h : ∀ i : Fin n, s[i].toNat = bits V (8 * i.val) 8) : leVal s = V := by
  have hsum := sum_bits V (octets_ordered n) rfl
  simp only [width_octets] at hsum
  have hlast : octets n (Fin.last n) = 8 * n := rfl
  rw [hlast, Nat.mod_eq_of_lt hV] at hsum
  rw [← hsum, leVal]
  exact Finset.sum_congr rfl fun i _ => by rw [h i]; rfl

theorem leVal_injective {s t : Vector (BitVec 8) n} (h : leVal s = leVal t) : s = t := by
  refine Vector.ext fun i hi => BitVec.eq_of_toNat_eq ?_
  have hs := bits_leVal s ⟨i, hi⟩
  have ht := bits_leVal t ⟨i, hi⟩
  rw [h] at hs
  exact hs.symm.trans ht

/-! ## Reading bytes -/

/-- A byte that is put above the bits that a word has. -/
theorem toNat_or_shiftLeft {w k : Nat} {x : BitVec w} (b : BitVec 8) (hx : x.toNat < 2 ^ k)
    (hk : k + 8 ≤ w) : (x ||| b.setWidth w <<< k).toNat = x.toNat + 2 ^ k * b.toNat := by
  have hb := b.isLt
  have hlt : b.toNat * 2 ^ k < 2 ^ w := calc
    b.toNat * 2 ^ k < 2 ^ 8 * 2 ^ k := Nat.mul_lt_mul_of_pos_right hb (Nat.two_pow_pos k)
    _ = 2 ^ (k + 8) := by rw [Nat.add_comm, Nat.pow_add]
    _ ≤ 2 ^ w := Nat.pow_le_pow_right (by decide) hk
  have hbw : b.toNat < 2 ^ w := hb.trans_le (Nat.pow_le_pow_right (by decide) (by omega))
  rw [BitVec.toNat_or, BitVec.toNat_shiftLeft, BitVec.toNat_setWidth, Nat.mod_eq_of_lt hbw,
    Nat.shiftLeft_eq, Nat.mod_eq_of_lt hlt, Nat.or_comm, ← Nat.shiftLeft_eq,
    ← Nat.shiftLeft_add_eq_or_of_lt hx, Nat.shiftLeft_eq]
  ring

/-! ## Writing bytes -/

/-- Where a byte is taken from: `h[i] >> r`, or `(h[i] >> r) | (h[j] << l)`. -/
inductive Piece (n : Nat) where
  | one (i : Fin n) (r : Nat)
  | two (i : Fin n) (r : Nat) (j : Fin n) (l : Nat)

/-- The byte, of which the upper bits are lost. The limbs are words of `w` bits: a shift to the
left loses what leaves the word. -/
def Piece.byte (w : Nat) (h : Vector Int n) : Piece n → BitVec 8
  | one i r => (BitVec.ofInt w (h[i] >>> r)).setWidth 8
  | two i r j l => (BitVec.ofInt w (h[i] >>> r) ||| BitVec.ofInt w h[j] <<< l).setWidth 8

/-- The shift to the left, if there is one, stays in a signed word of `w` bits. -/
def Piece.Shifts (w : Nat) (h : Vector Int n) : Piece n → Prop
  | one _ _ => True
  | two _ _ j l => signed w (h[j] * 2 ^ l) = some (h[j] * 2 ^ l)

instance (w : Nat) (h : Vector Int n) : (p : Piece n) → Decidable (p.Shifts w h)
  | .one _ _ => inferInstanceAs (Decidable True)
  | .two _ _ _ _ => inferInstanceAs (Decidable (_ = _))

/-- The word has room for the limb where the shift to the left puts it. -/
def Piece.Roomy (w : Nat) (o : Fin (n + 1) → Nat) : Piece n → Prop
  | one _ _ => True
  | two _ _ j l => width o j + l < w

instance (w : Nat) (o : Fin (n + 1) → Nat) : (p : Piece n) → Decidable (p.Roomy w o)
  | .one _ _ => inferInstanceAs (Decidable True)
  | .two _ _ _ _ => inferInstanceAs (Decidable (_ < _))

theorem Piece.Roomy.shifts {w : Nat} {o : Fin (n + 1) → Nat} {h : Vector Int n} {p : Piece n}
    (hp : p.Roomy w o) (hh : ∀ i : Fin n, 0 ≤ h[i] ∧ h[i] < 2 ^ width o i) : p.Shifts w h := by
  cases p with
  | one i r => trivial
  | two i r j l =>
      obtain ⟨hnn, hlt⟩ := hh j
      have hroom : width o j + l ≤ w - 1 := Nat.le_sub_one_of_lt hp
      have hpow : (2 : Int) ^ (width o j + l) ≤ 2 ^ (w - 1) :=
        pow_le_pow_right₀ (by norm_num) hroom
      have hmul : h[j] * 2 ^ l < 2 ^ (width o j + l) := by
        rw [pow_add]
        exact mul_lt_mul_of_pos_right hlt (by positivity)
      have hpos : 0 ≤ h[j] * 2 ^ l := mul_nonneg hnn (by positivity)
      have hlow : -(2 : Int) ^ (w - 1) ≤ 0 := by simp
      exact signed_eq_self.mpr ⟨hlow.trans hpos, hmul.trans_le hpow⟩

/-- In limbs with these bounds the piece is byte `k`. -/
def Piece.At (o : Fin (n + 1) → Nat) (k : Nat) : Piece n → Prop
  | one i r => o i.castSucc + r = 8 * k ∧ r + 8 ≤ width o i
  | two i r j l => o i.castSucc + r = 8 * k ∧ o j.castSucc = o i.castSucc + r + l ∧
      width o i = r + l ∧ 8 ≤ l + width o j

instance (o : Fin (n + 1) → Nat) (k : Nat) : (p : Piece n) → Decidable (p.At o k)
  | .one _ _ => inferInstanceAs (Decidable (_ ∧ _))
  | .two _ _ _ _ => inferInstanceAs (Decidable (_ ∧ _ ∧ _ ∧ _))

/-- The lower bits of a word are those of the number it was made of. -/
theorem getLsbD_ofInt_natCast {w t : Nat} (x : Nat) (ht : t < w) :
    (BitVec.ofInt w (x : Int)).getLsbD t = x.testBit t := by
  rw [BitVec.ofInt_natCast, BitVec.getLsbD_ofNat, decide_eq_true ht, Bool.true_and]

/-- The bits of a limb that is shifted to the right. -/
theorem getLsbD_limb_shiftRight {w V off d t : Nat} {x : Int} (hx : x = (bits V off d : Int))
    (r : Nat) (ht : t < w) : (BitVec.ofInt w (x >>> r)).getLsbD t
      = (decide (r + t < d) && V.testBit (off + (r + t))) := by
  have hdiv : (bits V off d : Int) >>> r = ((bits V off d / 2 ^ r : Nat) : Int) := by
    simp [Int.shiftRight_eq_div_pow]
  rw [hx, hdiv, getLsbD_ofInt_natCast _ ht, Nat.testBit_div_two_pow, Nat.add_comm, testBit_bits]

/-- **A piece is the byte that it stands for**, as the bits that a shift to the left loses are
above the lower eight. -/
theorem Piece.toNat_byte {o : Fin (n + 1) → Nat} {w : Nat} {h : Vector Int n} {V k : Nat}
    {p : Piece n} (hw8 : 8 ≤ w) (hp : p.At o k)
    (hh : ∀ i : Fin n, h[i] = (bits V (o i.castSucc) (width o i) : Int)) :
    (p.byte w h).toNat = bits V (8 * k) 8 := by
  refine Nat.eq_of_testBit_eq fun t => ?_
  rw [testBit_bits]
  by_cases ht : t < 8
  · have htw : t < w := ht.trans_le hw8
    rw [BitVec.testBit_toNat, decide_eq_true ht, Bool.true_and]
    cases p with
    | one i r =>
        obtain ⟨hk, hw⟩ := hp
        have hlt : r + t < width o i := by omega
        rw [byte, BitVec.getLsbD_setWidth, getLsbD_limb_shiftRight (hh i) r htw, decide_eq_true ht,
          decide_eq_true hlt, Bool.true_and, Bool.true_and, ← hk, Nat.add_assoc]
    | two i r j l =>
        obtain ⟨hk, hj, hi, hw⟩ := hp
        rw [byte, BitVec.getLsbD_setWidth, decide_eq_true ht, Bool.true_and, BitVec.getLsbD_or,
          getLsbD_limb_shiftRight (hh i) r htw, BitVec.getLsbD_shiftLeft, hh, hi, ← hk]
        by_cases hl : l ≤ t
        · -- The bit is of the next limb.
          have h1 : ¬ r + t < r + l := by omega
          have h2 : t - l < width o j := by omega
          have h3 : o i.castSucc + r + l + (t - l) = o i.castSucc + r + t := by omega
          rw [getLsbD_ofInt_natCast _ (by omega), testBit_bits, hj]
          simp [hl, h1, h2, h3, htw]
        · have h1 : r + t < r + l := by omega
          have h2 : t < l := by omega
          simp [h1, h2, Nat.add_assoc]
  · rw [decide_eq_false ht, Bool.false_and]
    exact Nat.testBit_lt_two_pow ((p.byte w h).isLt.trans_le (Nat.pow_le_pow_right (by decide)
      (Nat.le_of_not_lt ht)))

/-- The limbs start at the bounds. -/
def Starts (off : Vector Nat n) (o : Fin (n + 1) → Nat) : Prop := ∀ i : Fin n, off[i] = o i.castSucc

instance (off : Vector Nat n) (o : Fin (n + 1) → Nat) : Decidable (Starts off o) :=
  inferInstanceAs (Decidable (∀ _, _))

/-- The limbs of these ranges are groups of bits. -/
def Digits (o : Fin (n + 1) → Nat) (R : Vector Range n) : Prop :=
  ∀ i : Fin n, 0 ≤ R[i].lo ∧ R[i].hi < 2 ^ width o i

instance (o : Fin (n + 1) → Nat) (R : Vector Range n) : Decidable (Digits o R) :=
  inferInstanceAs (Decidable (∀ _, _))

theorem Digits.fits {o : Fin (n + 1) → Nat} {R : Vector Range n} {h : Vector Int n}
    (hR : Digits o R) (hh : Fits R h) (i : Fin n) : 0 ≤ h[i] ∧ h[i] < 2 ^ width o i :=
  ⟨(hR i).1.trans (hh i).1, (hh i).2.trans_lt (hR i).2⟩

/-- In limbs with these bounds each piece of the table is its byte. -/
def Packs {m : Nat} (o : Fin (n + 1) → Nat) (table : Vector (Piece n) m) : Prop :=
  ∀ k : Fin m, table[k].At o k

instance {m : Nat} (o : Fin (n + 1) → Nat) (table : Vector (Piece n) m) :
    Decidable (Packs o table) := inferInstanceAs (Decidable (∀ _, _))

/-- The bytes that a table of pieces takes from limbs that are words of `w` bits. -/
def pack {m : Nat} (w : Nat) (table : Vector (Piece n) m) (h : Vector Int n) :
    Vector (BitVec 8) m := table.map (Piece.byte w h)

/-- The same, where a shift to the left that leaves the signed word is an overflow. -/
def packSigned {m : Nat} (w : Nat) (table : Vector (Piece n) m) (h : Vector Int n) :
    Option (Vector (BitVec 8) m) :=
  if ∀ k : Fin m, (table.get k).Shifts w h then some (pack w table h) else none

/-- The number that non-negative limbs represent, and its groups of bits. -/
theorem value_eq_bits {off : Vector Nat n} {o : Fin (n + 1) → Nat} {h : Vector Int n}
    (ho : Ordered o) (hoff : Starts off o)
    (hh : ∀ i : Fin n, 0 ≤ h[i] ∧ h[i] < 2 ^ width o i) :
    ∃ V : Nat, value off h = V ∧ V < 2 ^ o (Fin.last n) ∧
      ∀ i : Fin n, h[i] = (bits V (o i.castSucc) (width o i) : Int) := by
  have hnat : ∀ i : Fin n, (h[i].toNat : Int) = h[i] := fun i => Int.toNat_of_nonneg (hh i).1
  have hd : ∀ i : Fin n, h[i].toNat < 2 ^ width o i := fun i => by
    have := (hh i).2
    rw [← hnat i] at this
    exact_mod_cast this
  refine ⟨∑ i : Fin n, 2 ^ o i.castSucc * h[i].toNat, ?_, sum_lt ho hd, fun i => ?_⟩
  · push_cast
    exact Finset.sum_congr rfl fun i _ => by rw [hoff, hnat]
  · rw [bits_sum ho hd, hnat]

/-- Limbs that are the groups of bits of a number represent it. -/
theorem value_bits {off : Vector Nat n} {o : Fin (n + 1) → Nat} {h : Vector Int n} {V : Nat}
    (ho : Ordered o) (h0 : o 0 = 0) (hoff : Starts off o)
    (hV : V < 2 ^ o (Fin.last n))
    (hh : ∀ i : Fin n, h[i] = (bits V (o i.castSucc) (width o i) : Int)) : value off h = V := by
  have hsum := sum_bits V ho h0
  rw [Nat.mod_eq_of_lt hV] at hsum
  rw [← hsum, value]
  push_cast
  exact Finset.sum_congr rfl fun i _ => by rw [hh, hoff]

/-- **Limbs as bytes**: the table writes the number that the limbs represent. -/
theorem leVal_pack {m w : Nat} {off : Vector Nat n} {o : Fin (n + 1) → Nat} {h : Vector Int n}
    {table : Vector (Piece n) m} (hw : 8 ≤ w) (ho : Ordered o) (hoff : Starts off o)
    (htable : Packs o table) (hlast : o (Fin.last n) = 8 * m)
    (hh : ∀ i : Fin n, 0 ≤ h[i] ∧ h[i] < 2 ^ width o i) :
    (leVal (pack w table h) : Int) = value off h := by
  obtain ⟨V, hval, hV, hbits⟩ := value_eq_bits ho hoff hh
  rw [hlast] at hV
  rw [hval, leVal_of_bits hV fun k => ?_]
  simpa [pack] using Piece.toNat_byte hw (htable k) hbits

end Radix
