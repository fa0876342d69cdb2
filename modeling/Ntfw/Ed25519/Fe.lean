import Ntfw.Lib.Limbs
import Ntfw.Common.Pce

set_option autoImplicit false

/-! # Field elements (`ntfe/ed25519/fe.c`)

The field is that of the integers modulo `2 ^ 255 - 19`; an element is ten signed limbs. `none` is
a signed overflow, or a conversion to `int32_t` that changes the value. A shift to the right is an
arithmetic one, of negative values too. A shift to the left is a multiplication, that of a carry
checked for an overflow like any other; but those that put the bytes together are of words, and lose
the bits that leave them. -/

namespace Ntfw

open Limbs Radix

/-- `load_3`, of `s + o`. -/
def load3 {n : Nat} (s : Vector byte n) (o : Nat) (h : o + 3 ≤ n) : u64 :=
  s[o].setWidth 64 ||| s[o + 1].setWidth 64 <<< 8 ||| s[o + 2].setWidth 64 <<< 16

/-- `load_4`, of `s + o`. -/
def load4 {n : Nat} (s : Vector byte n) (o : Nat) (h : o + 4 ≤ n) : u64 :=
  s[o].setWidth 64 ||| s[o + 1].setWidth 64 <<< 8 ||| s[o + 2].setWidth 64 <<< 16 |||
    s[o + 3].setWidth 64 <<< 24

/-- `fe`. -/
abbrev Fe := Vector Int 10

/-- Element `t` is `t[0] + 2^26 t[1] + 2^51 t[2] + ...`. -/
def feOff : Vector Nat 10 := #v[0, 26, 51, 77, 102, 128, 153, 179, 204, 230]

/-- The number of bits from limb `i` to the next one. -/
def feWidth (i : Fin 10) : Nat := if i.val % 2 = 0 then 26 else 25

/-- `h[i] = (int32_t) h_i`, for every limb. -/
def feStore (h : Vector Int 10) : Option Fe := collect fun i => signed 32 h[i]

/-- `fe_0`. -/
def fe0 : Fe := #v[0, 0, 0, 0, 0, 0, 0, 0, 0, 0]

/-- `fe_1`. -/
def fe1 : Fe := #v[1, 0, 0, 0, 0, 0, 0, 0, 0, 0]

/-- `fe_add`. -/
def feAdd (f g : Fe) : Option Fe := collect fun i => signed 32 (f[i] + g[i])

/-- `fe_sub`. -/
def feSub (f g : Fe) : Option Fe := collect fun i => signed 32 (f[i] - g[i])

/-- `fe_neg`. -/
def feNeg (f : Fe) : Option Fe := collect fun i => signed 32 (-f[i])

/-! ## Carries -/

/-- `carry_i`, rounded, out of `h_i` and into the next limb: out of `h9` it goes, times 19, into
`h0`. -/
def feCarry (i : Fin 10) : Move 10 where
  src := i
  shift := feWidth i
  round := 2 ^ (feWidth i - 1)
  dst := [(i + 1, if i = 9 then 19 else 1)]

/-- The carries of `fe_mul`, `fe_sq` and `fe_sq2`. -/
def feMulCarries : List (Move 10) := [0, 4, 1, 5, 2, 6, 3, 7, 4, 8, 9, 0].map feCarry

/-- The carries of `fe_frombytes` and `fe_mul121666`. -/
def feWideCarries : List (Move 10) := [9, 1, 3, 5, 7, 0, 2, 4, 6, 8].map feCarry

/-! ## Products -/

/-- `f_i g_j`: `f_i` doubled where both limbs are odd ones, `g_j` times 19 where the product wraps
around. -/
def feMulTerm (i j : Fin 10) : Term 10 :=
  ⟨if i.val % 2 = 1 ∧ j.val % 2 = 1 then 2 else 1, i, if 10 ≤ i.val + j.val then 19 else 1, j⟩

/-- The terms of `h_k` in `fe_mul`. -/
def feMulRow (k : Fin 10) : List (Term 10) :=
  (List.finRange 10).map fun i => feMulTerm i (k - i)

/-- The terms of `h0` to `h9` in `fe_sq` and `fe_sq2`. -/
def feSqRows : Vector (List (Term 10)) 10 := #v[
  [⟨1, 0, 1, 0⟩, ⟨2, 1, 38, 9⟩, ⟨2, 2, 19, 8⟩, ⟨2, 3, 38, 7⟩, ⟨2, 4, 19, 6⟩, ⟨1, 5, 38, 5⟩],
  [⟨2, 0, 1, 1⟩, ⟨1, 2, 38, 9⟩, ⟨2, 3, 19, 8⟩, ⟨1, 4, 38, 7⟩, ⟨2, 5, 19, 6⟩],
  [⟨2, 0, 1, 2⟩, ⟨2, 1, 1, 1⟩, ⟨2, 3, 38, 9⟩, ⟨2, 4, 19, 8⟩, ⟨2, 5, 38, 7⟩, ⟨1, 6, 19, 6⟩],
  [⟨2, 0, 1, 3⟩, ⟨2, 1, 1, 2⟩, ⟨1, 4, 38, 9⟩, ⟨2, 5, 19, 8⟩, ⟨1, 6, 38, 7⟩],
  [⟨2, 0, 1, 4⟩, ⟨2, 1, 2, 3⟩, ⟨1, 2, 1, 2⟩, ⟨2, 5, 38, 9⟩, ⟨2, 6, 19, 8⟩, ⟨1, 7, 38, 7⟩],
  [⟨2, 0, 1, 5⟩, ⟨2, 1, 1, 4⟩, ⟨2, 2, 1, 3⟩, ⟨1, 6, 38, 9⟩, ⟨2, 7, 19, 8⟩],
  [⟨2, 0, 1, 6⟩, ⟨2, 1, 2, 5⟩, ⟨2, 2, 1, 4⟩, ⟨2, 3, 1, 3⟩, ⟨2, 7, 38, 9⟩, ⟨1, 8, 19, 8⟩],
  [⟨2, 0, 1, 7⟩, ⟨2, 1, 1, 6⟩, ⟨2, 2, 1, 5⟩, ⟨2, 3, 1, 4⟩, ⟨1, 8, 38, 9⟩],
  [⟨2, 0, 1, 8⟩, ⟨2, 1, 2, 7⟩, ⟨2, 2, 1, 6⟩, ⟨2, 3, 2, 5⟩, ⟨1, 4, 1, 4⟩, ⟨1, 9, 38, 9⟩],
  [⟨2, 0, 1, 9⟩, ⟨2, 1, 1, 8⟩, ⟨2, 2, 1, 7⟩, ⟨2, 3, 1, 6⟩, ⟨2, 4, 1, 5⟩]]

def feSqRow (k : Fin 10) : List (Term 10) := feSqRows[k]

/-- `fe_mul`. -/
def feMul (f g : Fe) : Option Fe := do
  let h ← products 32 64 feMulRow f g (Vector.replicate 10 0)
  let h ← Limbs.run 64 feMulCarries h
  feStore h

/-- `fe_sq`. -/
def feSq (f : Fe) : Option Fe := do
  let h ← products 32 64 feSqRow f f (Vector.replicate 10 0)
  let h ← Limbs.run 64 feMulCarries h
  feStore h

/-- `fe_sq2`. -/
def feSq2 (f : Fe) : Option Fe := do
  let h ← products 32 64 feSqRow f f (Vector.replicate 10 0)
  let h ← collect fun i => signed 64 (h[i] + h[i])
  let h ← Limbs.run 64 feMulCarries h
  feStore h

/-! ## Powers -/

/-- `fe_sq(t, t)`, `n` times. -/
def feSqLoop : Nat → Fe → Option Fe
  | 0, t => some t
  | n + 1, t => do
      let t ← feSq t
      feSqLoop n t

/-- `fe_invert`. -/
def feInvert (z : Fe) : Option Fe := do
  let t0 ← feSq z
  let t1 ← feSq t0
  let t1 ← feSqLoop 1 t1
  let t1 ← feMul z t1
  let t0 ← feMul t0 t1
  let t2 ← feSq t0
  let t1 ← feMul t1 t2
  let t2 ← feSq t1
  let t2 ← feSqLoop 4 t2
  let t1 ← feMul t2 t1
  let t2 ← feSq t1
  let t2 ← feSqLoop 9 t2
  let t2 ← feMul t2 t1
  let t3 ← feSq t2
  let t3 ← feSqLoop 19 t3
  let t2 ← feMul t3 t2
  let t2 ← feSq t2
  let t2 ← feSqLoop 9 t2
  let t1 ← feMul t2 t1
  let t2 ← feSq t1
  let t2 ← feSqLoop 49 t2
  let t2 ← feMul t2 t1
  let t3 ← feSq t2
  let t3 ← feSqLoop 99 t3
  let t2 ← feMul t3 t2
  let t2 ← feSq t2
  let t2 ← feSqLoop 49 t2
  let t1 ← feMul t2 t1
  let t1 ← feSq t1
  let t1 ← feSqLoop 4 t1
  feMul t1 t0

/-- `fe_pow22523`. -/
def fePow22523 (z : Fe) : Option Fe := do
  let t0 ← feSq z
  let t1 ← feSq t0
  let t1 ← feSqLoop 1 t1
  let t1 ← feMul z t1
  let t0 ← feMul t0 t1
  let t0 ← feSq t0
  let t0 ← feMul t1 t0
  let t1 ← feSq t0
  let t1 ← feSqLoop 4 t1
  let t0 ← feMul t1 t0
  let t1 ← feSq t0
  let t1 ← feSqLoop 9 t1
  let t1 ← feMul t1 t0
  let t2 ← feSq t1
  let t2 ← feSqLoop 19 t2
  let t1 ← feMul t2 t1
  let t1 ← feSq t1
  let t1 ← feSqLoop 9 t1
  let t0 ← feMul t1 t0
  let t1 ← feSq t0
  let t1 ← feSqLoop 49 t1
  let t1 ← feMul t1 t0
  let t2 ← feSq t1
  let t2 ← feSqLoop 99 t2
  let t1 ← feMul t2 t1
  let t1 ← feSq t1
  let t1 ← feSqLoop 49 t1
  let t0 ← feMul t1 t0
  let t0 ← feSq t0
  let t0 ← feSqLoop 1 t0
  feMul t0 z

/-! ## Bytes -/

/-- The limbs that `fe_frombytes` loads. -/
def feLoads (s : Vector byte 32) : Vector Int 10 := #v[
  (load4 s 0 (by decide)).toInt,
  (load3 s 4 (by decide) <<< 6).toInt,
  (load3 s 7 (by decide) <<< 5).toInt,
  (load3 s 10 (by decide) <<< 3).toInt,
  (load3 s 13 (by decide) <<< 2).toInt,
  (load4 s 16 (by decide)).toInt,
  (load3 s 20 (by decide) <<< 7).toInt,
  (load3 s 23 (by decide) <<< 5).toInt,
  (load3 s 26 (by decide) <<< 4).toInt,
  ((load3 s 29 (by decide) &&& 8388607) <<< 2).toInt]

/-- `fe_frombytes`. -/
def feFrombytes (s : Vector byte 32) : Option Fe := do
  let h ← Limbs.run 64 feWideCarries (feLoads s)
  feStore h

/-- `q = (h_i + q) >> 26`, or `>> 25`. -/
def feQuotientStep (h : Fe) (q : Int) (i : Fin 10) : Option Int := do
  let t ← signed 32 (h[i] + q)
  return t >>> feWidth i

/-- The `q` of `fe_tobytes`. -/
def feQuotient (h : Fe) : Option Int := do
  let m ← signed 32 (19 * h[9])
  let t ← signed 32 (m + 2 ^ 24)
  (List.finRange 10).foldlM (feQuotientStep h) (t >>> (25 : Nat))

/-- `carry_i` of `fe_tobytes`: without rounding, and that of `h9` is dropped. -/
def feFloorCarry (i : Fin 10) : Move 10 where
  src := i
  shift := feWidth i
  round := 0
  dst := if i = 9 then [] else [(i + 1, 1)]

/-- Where `fe_tobytes` takes each byte from. -/
def feBytes : Vector (Piece 10) 32 := #v[
  .one 0 0, .one 0 8, .one 0 16, .two 0 24 1 2,
  .one 1 6, .one 1 14, .two 1 22 2 3,
  .one 2 5, .one 2 13, .two 2 21 3 5,
  .one 3 3, .one 3 11, .two 3 19 4 6,
  .one 4 2, .one 4 10, .one 4 18,
  .one 5 0, .one 5 8, .one 5 16, .two 5 24 6 1,
  .one 6 7, .one 6 15, .two 6 23 7 3,
  .one 7 5, .one 7 13, .two 7 21 8 4,
  .one 8 4, .one 8 12, .two 8 20 9 6,
  .one 9 2, .one 9 10, .one 9 18]

/-- The limbs that `fe_tobytes` takes the bytes from. -/
def feFloor (h : Fe) : Option Fe := do
  let q ← feQuotient h
  let m ← signed 32 (19 * q)
  let h0 ← signed 32 (h[0] + m)
  Limbs.run 32 ((List.finRange 10).map feFloorCarry) (h.set 0 h0)

/-- `fe_tobytes`. -/
def feTobytes (h : Fe) : Option (Vector byte 32) := do
  let h ← feFloor h
  return pack 32 feBytes h

theorem zero_lt_bytes : 0 < 32 := by decide

/-- `fe_isnegative`. -/
def feIsnegative (f : Fe) : Option byte := do
  let s ← feTobytes f
  return s.get ⟨0, zero_lt_bytes⟩ &&& 1

/-- `fe_isnonzero`. -/
def feIsnonzero (f : Fe) : Option Bool := do
  let s ← feTobytes f
  return s.toList.foldl (· ||| ·) 0 != 0

end Ntfw
