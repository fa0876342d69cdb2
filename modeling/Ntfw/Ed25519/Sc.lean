import Ntfw.Ed25519.Fe

set_option autoImplicit false

/-! # Scalars (`ntfe/ed25519/sc.c`)

The scalars are the integers modulo `l = 2^252 + 27742317777372353535851937790883648493`, in limbs
of 21 bits. `none` is a signed overflow, also of a shift that puts a byte together. -/

namespace Ntfw

open Limbs Radix

/-- `2097151 & x`. -/
def scMask (x : u64) : Int := (2097151 &&& x).toInt

/-- `s0` to `s23` of `sc_reduce`, as they are loaded. -/
def scLoads (s : Vector byte 64) : Vector Int 24 := #v[
  scMask (load3 s 0 (by decide)),
  scMask (load4 s 2 (by decide) >>> 5),
  scMask (load3 s 5 (by decide) >>> 2),
  scMask (load4 s 7 (by decide) >>> 7),
  scMask (load4 s 10 (by decide) >>> 4),
  scMask (load3 s 13 (by decide) >>> 1),
  scMask (load4 s 15 (by decide) >>> 6),
  scMask (load3 s 18 (by decide) >>> 3),
  scMask (load3 s 21 (by decide)),
  scMask (load4 s 23 (by decide) >>> 5),
  scMask (load3 s 26 (by decide) >>> 2),
  scMask (load4 s 28 (by decide) >>> 7),
  scMask (load4 s 31 (by decide) >>> 4),
  scMask (load3 s 34 (by decide) >>> 1),
  scMask (load4 s 36 (by decide) >>> 6),
  scMask (load3 s 39 (by decide) >>> 3),
  scMask (load3 s 42 (by decide)),
  scMask (load4 s 44 (by decide) >>> 5),
  scMask (load3 s 47 (by decide) >>> 2),
  scMask (load4 s 49 (by decide) >>> 7),
  scMask (load4 s 52 (by decide) >>> 4),
  scMask (load3 s 55 (by decide) >>> 1),
  scMask (load4 s 57 (by decide) >>> 6),
  (load4 s 60 (by decide) >>> 3).toInt]

theorem load13_le : 13 + 3 ≤ 32 := by decide

theorem load26_le : 26 + 3 ≤ 32 := by decide

/-- `a0` to `a11` of `sc_muladd`, and likewise those of `b` and `c`. -/
def scLoads12 (a : Vector byte 32) : Vector Int 12 := #v[
  scMask (load3 a 0 (by decide)),
  scMask (load4 a 2 (by decide) >>> 5),
  scMask (load3 a 5 (by decide) >>> 2),
  scMask (load4 a 7 (by decide) >>> 7),
  scMask (load4 a 10 (by decide) >>> 4),
  scMask (load3 a 13 load13_le >>> 1),
  scMask (load4 a 15 (by decide) >>> 6),
  scMask (load3 a 18 (by decide) >>> 3),
  scMask (load3 a 21 (by decide)),
  scMask (load4 a 23 (by decide) >>> 5),
  scMask (load3 a 26 load26_le >>> 2),
  (load4 a 28 (by decide) >>> 7).toInt]

/-! ## Carries -/

/-- `s_i` is taken out, as a multiple of `2^252`, and what that is modulo `l` is added below. -/
def scFold (i : Fin 24) : Move 24 where
  src := i
  shift := 0
  round := 0
  dst := [(i - 12, 666643), (i - 11, 470296), (i - 10, 654183), (i - 9, -997805), (i - 8, 136657),
    (i - 7, -683901)]

/-- `carry_i`, rounded. -/
def scCarry (i : Fin 24) : Move 24 where
  src := i
  shift := 21
  round := 2 ^ 20
  dst := [(i + 1, 1)]

/-- `carry_i`, not rounded. -/
def scFloor (i : Fin 24) : Move 24 where
  src := i
  shift := 21
  round := 0
  dst := [(i + 1, 1)]

/-- From 24 limbs to 12, and a carry. -/
def scReduceFolds : List (Move 24) :=
  [23, 22, 21, 20, 19, 18].map scFold ++ [6, 8, 10, 12, 14, 16].map scCarry ++
    [7, 9, 11, 13, 15].map scCarry ++ [17, 16, 15, 14, 13, 12].map scFold ++
    [0, 2, 4, 6, 8, 10].map scCarry ++ [1, 3, 5, 7, 9, 11].map scCarry

/-- The carry that is left is folded, once more, and the limbs become digits. -/
def scReduceDigits : List (Move 24) :=
  [12].map scFold ++ [0, 1, 2, 3, 4, 5, 6, 7, 8, 9, 10, 11].map scFloor

/-- The same for the carry out of these digits. -/
def scReduceLast : List (Move 24) :=
  [12].map scFold ++ [0, 1, 2, 3, 4, 5, 6, 7, 8, 9, 10].map scFloor

/-- Where each byte of the result is taken from. -/
def scBytes : Vector (Piece 24) 32 := #v[
  .one 0 0, .one 0 8, .two 0 16 1 5,
  .one 1 3, .one 1 11, .two 1 19 2 2,
  .one 2 6, .two 2 14 3 7,
  .one 3 1, .one 3 9, .two 3 17 4 4,
  .one 4 4, .one 4 12, .two 4 20 5 1,
  .one 5 7, .two 5 15 6 6,
  .one 6 2, .one 6 10, .two 6 18 7 3,
  .one 7 5, .one 7 13,
  .one 8 0, .one 8 8, .two 8 16 9 5,
  .one 9 3, .one 9 11, .two 9 19 10 2,
  .one 10 6, .two 10 14 11 7,
  .one 11 1, .one 11 9, .one 11 17]

/-- The end of `sc_reduce` and of `sc_muladd`. -/
def scReduceLimbs (s : Vector Int 24) : Option (Vector byte 32) := do
  let s ← Limbs.run 64 (scReduceFolds ++ scReduceDigits ++ scReduceLast) s
  packSigned 64 scBytes s

/-- `sc_reduce`: the 32 bytes that it writes. -/
def scReduce (s : Vector byte 64) : Option (Vector byte 32) := scReduceLimbs (scLoads s)

/-! ## `sc_muladd` -/

/-- The products of `s_k`. -/
def scMulRow (k : Fin 24) : List (Term 12) :=
  (List.finRange 12).filterMap fun i =>
    if h : i.val ≤ k.val ∧ k.val - i.val < 12 then some ⟨1, i, 1, ⟨k.val - i.val, h.2⟩⟩ else none

/-- The carries between the products and the reduction. -/
def scMulCarries : List (Move 24) :=
  [0, 2, 4, 6, 8, 10, 12, 14, 16, 18, 20, 22].map scCarry ++
    [1, 3, 5, 7, 9, 11, 13, 15, 17, 19, 21].map scCarry

/-- `sc_muladd`. -/
def scMuladd (a b c : Vector byte 32) : Option (Vector byte 32) := do
  let add := scLoads12 c
  let s ← products 64 64 scMulRow (scLoads12 a) (scLoads12 b)
    (Vector.ofFn fun k => if h : k.val < 12 then add[k.val] else 0)
  let s ← Limbs.run 64 scMulCarries s
  scReduceLimbs s

end Ntfw
