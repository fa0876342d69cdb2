import Ntfw.Ed25519.Fe

set_option autoImplicit false

/-! # Group elements (`ntfe/ed25519/ge.c`)

The group is that of the pairs `(x, y)` of field elements with `-x^2 + y^2 = 1 + d x^2y^2`, where
`d = -121665/121666`. `none` is an overflow of the field arithmetic, of a digit, or an index that
its table does not have. -/

namespace Ntfw

open Limbs Radix

/-! ## Representations -/

/-- `ge_p2`, projective: `(X:Y:Z)` satisfying `x=X/Z`, `y=Y/Z`. -/
structure GeP2 where
  X : Fe
  Y : Fe
  Z : Fe

/-- `ge_p3`, extended: `(X:Y:Z:T)` satisfying `x=X/Z`, `y=Y/Z`, `XY=ZT`. -/
structure GeP3 where
  X : Fe
  Y : Fe
  Z : Fe
  T : Fe

/-- `ge_p1p1`, completed: `((X:Z),(Y:T))` satisfying `x=X/Z`, `y=Y/T`. -/
structure GeP1p1 where
  X : Fe
  Y : Fe
  Z : Fe
  T : Fe

/-- `ge_precomp`: `(y+x,y-x,2dxy)`. -/
structure GePrecomp where
  yplusx : Fe
  yminusx : Fe
  xy2d : Fe

/-- `ge_cached`. -/
structure GeCached where
  YplusX : Fe
  YminusX : Fe
  Z : Fe
  T2d : Fe

/-- `d`. -/
def geD : Fe := #v[-10913610, 13857413, -15372611, 6949391, 114729, -8787816, -6275908, -3247719,
  -18696448, -12055116]

/-- `sqrtm1`. -/
def geSqrtm1 : Fe := #v[-32595792, -7943725, 9377950, 3500415, 12389472, -272473, -25146209,
  -2005654, 326686, 11406482]

/-- `d2`. -/
def geD2 : Fe := #v[-21827239, -5839606, -30745221, 13898782, 229458, 15978800, -12551817,
  -6495438, 29715968, 9444199]

/-- `Bi`: the odd multiples of the base point, `B,3B,5B,7B,9B,11B,13B,15B`. -/
def geBi : Vector GePrecomp 8 := #v[
  ⟨#v[25967493, -14356035, 29566456, 3660896, -12694345, 4014787, 27544626,
      -11754271, -6079156, 2047605],
   #v[-12545711, 934262, -2722910, 3049990, -727428, 9406986, 12720692,
      5043384, 19500929, -15469378],
   #v[-8738181, 4489570, 9688441, -14785194, 10184609, -12363380, 29287919,
      11864899, -24514362, -4438546]⟩,
  ⟨#v[15636291, -9688557, 24204773, -7912398, 616977, -16685262, 27787600,
      -14772189, 28944400, -1550024],
   #v[16568933, 4717097, -11556148, -1102322, 15682896, -11807043, 16354577,
      -11775962, 7689662, 11199574],
   #v[30464156, -5976125, -11779434, -15670865, 23220365, 15915852, 7512774,
      10017326, -17749093, -9920357]⟩,
  ⟨#v[10861363, 11473154, 27284546, 1981175, -30064349, 12577861, 32867885,
      14515107, -15438304, 10819380],
   #v[4708026, 6336745, 20377586, 9066809, -11272109, 6594696, -25653668,
      12483688, -12668491, 5581306],
   #v[19563160, 16186464, -29386857, 4097519, 10237984, -4348115, 28542350,
      13850243, -23678021, -15815942]⟩,
  ⟨#v[5153746, 9909285, 1723747, -2777874, 30523605, 5516873, 19480852,
      5230134, -23952439, -15175766],
   #v[-30269007, -3463509, 7665486, 10083793, 28475525, 1649722, 20654025,
      16520125, 30598449, 7715701],
   #v[28881845, 14381568, 9657904, 3680757, -20181635, 7843316, -31400660,
      1370708, 29794553, -1409300]⟩,
  ⟨#v[-22518993, -6692182, 14201702, -8745502, -23510406, 8844726, 18474211,
      -1361450, -13062696, 13821877],
   #v[-6455177, -7839871, 3374702, -4740862, -27098617, -10571707, 31655028,
      -7212327, 18853322, -14220951],
   #v[4566830, -12963868, -28974889, -12240689, -7602672, -2830569, -8514358,
      -10431137, 2207753, -3209784]⟩,
  ⟨#v[-25154831, -4185821, 29681144, 7868801, -6854661, -9423865, -12437364,
      -663000, -31111463, -16132436],
   #v[25576264, -2703214, 7349804, -11814844, 16472782, 9300885, 3844789,
      15725684, 171356, 6466918],
   #v[23103977, 13316479, 9739013, -16149481, 817875, -15038942, 8965339,
      -14088058, -30714912, 16193877]⟩,
  ⟨#v[-33521811, 3180713, -2394130, 14003687, -16903474, -16270840, 17238398,
      4729455, -18074513, 9256800],
   #v[-25182317, -4174131, 32336398, 5036987, -21236817, 11360617, 22616405,
      9761698, -19827198, 630305],
   #v[-13720693, 2639453, -24237460, -7406481, 9494427, -5774029, -6554551,
      -15960994, -2449256, -14291300]⟩,
  ⟨#v[-3151181, -5046075, 9282714, 6866145, -31907062, -863023, -18940575,
      15033784, 25105118, -7894876],
   #v[-24326370, 15950226, -31801215, -14592823, -11662737, -5090925, 1573892,
      -2625887, 2198790, -15804619],
   #v[-3099351, 10324967, -2241613, 7453183, -5446979, -2735503, -13812022,
      -16236442, -32461234, -12290683]⟩]

/-! ## Sums -/

/-- `ge_add`. -/
def geAdd (p : GeP3) (q : GeCached) : Option GeP1p1 := do
  let X ← feAdd p.Y p.X
  let Y ← feSub p.Y p.X
  let Z ← feMul X q.YplusX
  let Y ← feMul Y q.YminusX
  let T ← feMul q.T2d p.T
  let X ← feMul p.Z q.Z
  let t0 ← feAdd X X
  let X ← feSub Z Y
  let Y ← feAdd Z Y
  let Z ← feAdd t0 T
  let T ← feSub t0 T
  return ⟨X, Y, Z, T⟩

/-- `ge_sub`. -/
def geSub (p : GeP3) (q : GeCached) : Option GeP1p1 := do
  let X ← feAdd p.Y p.X
  let Y ← feSub p.Y p.X
  let Z ← feMul X q.YminusX
  let Y ← feMul Y q.YplusX
  let T ← feMul q.T2d p.T
  let X ← feMul p.Z q.Z
  let t0 ← feAdd X X
  let X ← feSub Z Y
  let Y ← feAdd Z Y
  let Z ← feSub t0 T
  let T ← feAdd t0 T
  return ⟨X, Y, Z, T⟩

/-- `ge_madd`. -/
def geMadd (p : GeP3) (q : GePrecomp) : Option GeP1p1 := do
  let X ← feAdd p.Y p.X
  let Y ← feSub p.Y p.X
  let Z ← feMul X q.yplusx
  let Y ← feMul Y q.yminusx
  let T ← feMul q.xy2d p.T
  let t0 ← feAdd p.Z p.Z
  let X ← feSub Z Y
  let Y ← feAdd Z Y
  let Z ← feAdd t0 T
  let T ← feSub t0 T
  return ⟨X, Y, Z, T⟩

/-- `ge_msub`. -/
def geMsub (p : GeP3) (q : GePrecomp) : Option GeP1p1 := do
  let X ← feAdd p.Y p.X
  let Y ← feSub p.Y p.X
  let Z ← feMul X q.yminusx
  let Y ← feMul Y q.yplusx
  let T ← feMul q.xy2d p.T
  let t0 ← feAdd p.Z p.Z
  let X ← feSub Z Y
  let Y ← feAdd Z Y
  let Z ← feSub t0 T
  let T ← feAdd t0 T
  return ⟨X, Y, Z, T⟩

/-! ## Conversions -/

/-- `ge_p1p1_to_p2`. -/
def geP1p1ToP2 (p : GeP1p1) : Option GeP2 := do
  let X ← feMul p.X p.T
  let Y ← feMul p.Y p.Z
  let Z ← feMul p.Z p.T
  return ⟨X, Y, Z⟩

/-- `ge_p1p1_to_p3`. -/
def geP1p1ToP3 (p : GeP1p1) : Option GeP3 := do
  let X ← feMul p.X p.T
  let Y ← feMul p.Y p.Z
  let Z ← feMul p.Z p.T
  let T ← feMul p.X p.Y
  return ⟨X, Y, Z, T⟩

/-- `ge_p2_0`. -/
def geP20 : GeP2 := ⟨fe0, fe1, fe1⟩

/-- `ge_p3_0`. -/
def geP30 : GeP3 := ⟨fe0, fe1, fe1, fe0⟩

/-- `ge_p3_to_cached`. -/
def geP3ToCached (p : GeP3) : Option GeCached := do
  let YplusX ← feAdd p.Y p.X
  let YminusX ← feSub p.Y p.X
  let T2d ← feMul p.T geD2
  return ⟨YplusX, YminusX, p.Z, T2d⟩

/-- `ge_p3_to_p2`. -/
def geP3ToP2 (p : GeP3) : GeP2 := ⟨p.X, p.Y, p.Z⟩

/-! ## Doubles -/

/-- `ge_p2_dbl`. -/
def geP2Dbl (p : GeP2) : Option GeP1p1 := do
  let X ← feSq p.X
  let Z ← feSq p.Y
  let T ← feSq2 p.Z
  let Y ← feAdd p.X p.Y
  let t0 ← feSq Y
  let Y ← feAdd Z X
  let Z ← feSub Z X
  let X ← feSub t0 Y
  let T ← feSub T Z
  return ⟨X, Y, Z, T⟩

/-- `ge_p3_dbl`. -/
def geP3Dbl (p : GeP3) : Option GeP1p1 := geP2Dbl (geP3ToP2 p)

/-! ## Bytes -/

/-- `s[31] ^= fe_isnegative(x) << 7`. -/
def signByte (s : Vector byte 32) (negative : byte) : Vector byte 32 :=
  s.set 31 (s[31] ^^^ negative <<< 7)

/-- `ge_tobytes`. -/
def geTobytes (h : GeP2) : Option (Vector byte 32) := do
  let recip ← feInvert h.Z
  let x ← feMul h.X recip
  let y ← feMul h.Y recip
  let s ← feTobytes y
  let negative ← feIsnegative x
  return signByte s negative

/-- `ge_p3_tobytes`. -/
def geP3Tobytes (h : GeP3) : Option (Vector byte 32) := geTobytes (geP3ToP2 h)

/-- The root of `u/v` that `ge_frombytes_negate_vartime` tries, times `sqrtm1` when it is one of
`-u/v`; `none` within the result when it is neither. -/
def geRoot (u v : Fe) : Option (Option Fe) := do
  let v3 ← feSq v
  let v3 ← feMul v3 v
  let X ← feSq v3
  let X ← feMul X v
  let X ← feMul X u
  let X ← fePow22523 X
  let X ← feMul X v3
  let X ← feMul X u
  let vxx ← feSq X
  let vxx ← feMul vxx v
  let check ← feSub vxx u
  let nonzero ← feIsnonzero check
  if nonzero then
    let check ← feAdd vxx u
    let nonzero ← feIsnonzero check
    if nonzero then return none
    else
      let X ← feMul X geSqrtm1
      return some X
  else return some X

/-- `ge_frombytes_negate_vartime`; `none` within the result is its `-1`. -/
def geFrombytesNegateVartime (s : Vector byte 32) : Option (Option GeP3) := do
  let Y ← feFrombytes s
  let u ← feSq Y
  let v ← feMul u geD
  let u ← feSub u fe1
  let v ← feAdd v fe1
  let root ← geRoot u v
  match root with
  | none => return none
  | some X =>
      let negative ← feIsnegative X
      let X ← if negative = s[31] >>> 7 then feNeg X else some X
      let T ← feMul X Y
      return some ⟨X, Y, fe1, T⟩

/-! ## `a * A + b * B` -/

/-- `for (k = ...; k < 256; ++k)`, of which `n` turns are left: a one is added at digit `k`, and
carried. -/
def slideCarry (r : Vector Int 256) : Nat → Vector Int 256
  | 0 => r
  | n + 1 =>
      if r[255 - n] = 0 then r.set (255 - n) 1
      else slideCarry (r.set (255 - n) 0) n

/-- The loop over `b` for digit `i`, of which `n` turns are left. -/
def slideWindow (i : Fin 256) (r : Vector Int 256) : Nat → Option (Vector Int 256)
  | 0 => some r
  | n + 1 =>
      let b := 6 - n
      if h : i.val + b < 256 then
        let c := r[i.val + b] * 2 ^ b
        if r[i.val + b] ≠ 0 then
          if r[i] + c ≤ 15 then do
            let x ← signed 8 (r[i] + c)
            slideWindow i ((r.set i x).set (i.val + b) 0) n
          else if -15 ≤ r[i] - c then do
            let x ← signed 8 (r[i] - c)
            slideWindow i (slideCarry (r.set i x) (256 - (i.val + b))) n
          else some r
        else slideWindow i r n
      else some r

/-- `1 & (a[i >> 3] >> (i & 7))`. -/
def slideBit (a : Vector byte 32) (i : Fin 256) : Int :=
  (1 &&& a.get ⟨i.val >>> 3, by omega⟩ >>> (i.val &&& 7)).toNat

/-- `slide`. -/
def slide (a : Vector byte 32) : Option (Vector Int 256) :=
  (List.finRange 256).foldlM (fun r i => if r[i] ≠ 0 then slideWindow i r 6 else some r)
    (Vector.ofFn (slideBit a))

/-- The multiples `A,3A,5A,7A,9A,11A,13A,15A`, each from the one before and `A2`. -/
def geOddMultiples (A2 : GeP3) : Nat → GeCached → Option (List GeCached)
  | 0, q => some [q]
  | n + 1, q => do
      let t ← geAdd A2 q
      let u ← geP1p1ToP3 t
      let q' ← geP3ToCached u
      let rest ← geOddMultiples A2 n q'
      return q :: rest

/-- `aslide[i]` adds `Ai[aslide[i] / 2]`, or subtracts `Ai[(-aslide[i]) / 2]`. -/
def geDigit {Q : Type} (add sub : GeP3 → Q → Option GeP1p1) (table : List Q) (digit : Int)
    (t : GeP1p1) : Option GeP1p1 :=
  if 0 < digit then do
    let u ← geP1p1ToP3 t
    let q ← table[(digit / 2).toNat]?
    add u q
  else if digit < 0 then do
    let u ← geP1p1ToP3 t
    let q ← table[(-digit / 2).toNat]?
    sub u q
  else some t

/-- Digit `i`. -/
def slideDigit (r : Vector Int 256) (i : Nat) : Int := if h : i < 256 then r[i] else 0

/-- The turns of the main loop for the lower `n` digits. -/
def geLoop (Ai : List GeCached) (aslide bslide : Vector Int 256) : Nat → GeP2 → Option GeP2
  | 0, r => some r
  | n + 1, r => do
      let t ← geP2Dbl r
      let t ← geDigit geAdd geSub Ai (slideDigit aslide n) t
      let t ← geDigit geMadd geMsub geBi.toList (slideDigit bslide n) t
      let r ← geP1p1ToP2 t
      geLoop Ai aslide bslide n r

/-- The number of digits up to the last one that is not zero. -/
def geTop (aslide bslide : Vector Int 256) : Nat → Nat
  | 0 => 0
  | n + 1 =>
      if slideDigit aslide n ≠ 0 ∨ slideDigit bslide n ≠ 0 then n + 1
      else geTop aslide bslide n

/-- `ge_double_scalarmult_vartime`. -/
def geDoubleScalarmultVartime (a : Vector byte 32) (A : GeP3) (b : Vector byte 32) :
    Option GeP2 := do
  let aslide ← slide a
  let bslide ← slide b
  let q ← geP3ToCached A
  let t ← geP3Dbl A
  let A2 ← geP1p1ToP3 t
  let Ai ← geOddMultiples A2 7 q
  geLoop Ai aslide bslide (geTop aslide bslide 256) geP20

end Ntfw
