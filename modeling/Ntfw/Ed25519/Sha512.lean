import Ntfw.Common.Pce

set_option autoImplicit false

/-! # SHA-512 (`ntfe/ed25519/sha512.c`)

The context holds the bytes of a block that is not full yet: between two calls there are fewer than
128 of them, so that the checks of `curlen` at the start of `sha512_update` and `sha512_final` never
fail. -/

namespace Ntfw

/-- The array `K`. -/
def shaK : Vector u64 80 := #v[
  0x428a2f98d728ae22, 0x7137449123ef65cd, 0xb5c0fbcfec4d3b2f, 0xe9b5dba58189dbbc,
  0x3956c25bf348b538, 0x59f111f1b605d019, 0x923f82a4af194f9b, 0xab1c5ed5da6d8118,
  0xd807aa98a3030242, 0x12835b0145706fbe, 0x243185be4ee4b28c, 0x550c7dc3d5ffb4e2,
  0x72be5d74f27b896f, 0x80deb1fe3b1696b1, 0x9bdc06a725c71235, 0xc19bf174cf692694,
  0xe49b69c19ef14ad2, 0xefbe4786384f25e3, 0x0fc19dc68b8cd5b5, 0x240ca1cc77ac9c65,
  0x2de92c6f592b0275, 0x4a7484aa6ea6e483, 0x5cb0a9dcbd41fbd4, 0x76f988da831153b5,
  0x983e5152ee66dfab, 0xa831c66d2db43210, 0xb00327c898fb213f, 0xbf597fc7beef0ee4,
  0xc6e00bf33da88fc2, 0xd5a79147930aa725, 0x06ca6351e003826f, 0x142929670a0e6e70,
  0x27b70a8546d22ffc, 0x2e1b21385c26c926, 0x4d2c6dfc5ac42aed, 0x53380d139d95b3df,
  0x650a73548baf63de, 0x766a0abb3c77b2a8, 0x81c2c92e47edaee6, 0x92722c851482353b,
  0xa2bfe8a14cf10364, 0xa81a664bbc423001, 0xc24b8b70d0f89791, 0xc76c51a30654be30,
  0xd192e819d6ef5218, 0xd69906245565a910, 0xf40e35855771202a, 0x106aa07032bbd1b8,
  0x19a4c116b8d2d0c8, 0x1e376c085141ab53, 0x2748774cdf8eeb99, 0x34b0bcb5e19b48a8,
  0x391c0cb3c5c95a63, 0x4ed8aa4ae3418acb, 0x5b9cca4f7763e373, 0x682e6ff3d6b2b8a3,
  0x748f82ee5defb2fc, 0x78a5636f43172f60, 0x84c87814a1f0ab72, 0x8cc702081a6439ec,
  0x90befffa23631e28, 0xa4506cebde82bde9, 0xbef9a3f7b2c67915, 0xc67178f2e372532b,
  0xca273eceea26619c, 0xd186b8c721c0c207, 0xeada7dd6cde0eb1e, 0xf57d4f7fee6ed178,
  0x06f067aa72176fba, 0x0a637dc5a2c898a6, 0x113f9804bef90dae, 0x1b710b35131c471b,
  0x28db77f523047d84, 0x32caab7b40c72493, 0x3c9ebe0a15c9bebc, 0x431d67c49c100d4c,
  0x4cc5d4becb3e42b6, 0x597f299cfc657e2a, 0x5fcb6fab3ad6faec, 0x6c44198c4a475817]

/-- `sha512_context`. -/
structure Sha512Context where
  length : u64
  state : Vector u64 8
  curlen : Nat
  buf : Vector byte 128
  curlen_lt : curlen < 128

/-! ## Compression -/

/-- `LOAD64H`, of eight bytes from `y`. -/
def load64H (y : Nat → byte) : u64 :=
  (y 0).setWidth 64 <<< 56 ||| (y 1).setWidth 64 <<< 48 ||| (y 2).setWidth 64 <<< 40 |||
    (y 3).setWidth 64 <<< 32 ||| (y 4).setWidth 64 <<< 24 ||| (y 5).setWidth 64 <<< 16 |||
    (y 6).setWidth 64 <<< 8 ||| (y 7).setWidth 64

/-- `STORE64H`. -/
def store64H (x : u64) : List byte :=
  [56, 48, 40, 32, 24, 16, 8, 0].map fun n => (x >>> n &&& 255).setWidth 8

def shaCh (x y z : u64) : u64 := z ^^^ (x &&& (y ^^^ z))
def shaMaj (x y z : u64) : u64 := (x ||| y) &&& z ||| x &&& y
def shaS (x : u64) (n : Nat) : u64 := x >>> n ||| x <<< (64 - n)
def shaR (x : u64) (n : Nat) : u64 := x >>> n
def shaSigma0 (x : u64) : u64 := shaS x 28 ^^^ shaS x 34 ^^^ shaS x 39
def shaSigma1 (x : u64) : u64 := shaS x 14 ^^^ shaS x 18 ^^^ shaS x 41
def shaGamma0 (x : u64) : u64 := shaS x 1 ^^^ shaS x 8 ^^^ shaR x 7
def shaGamma1 (x : u64) : u64 := shaS x 19 ^^^ shaS x 61 ^^^ shaR x 6

/-- `W`. -/
def shaW (buf : Vector byte 128) : Array u64 :=
  (List.range 64).foldl (fun W i => W.push (shaGamma1 (W.getD (i + 14) 0) + W.getD (i + 9) 0 +
      shaGamma0 (W.getD (i + 1) 0) + W.getD i 0))
    (Array.ofFn fun i : Fin 16 => load64H fun j => buf.toList.getD (8 * i.val + j) 0)

/-- `RND`. The registers `a` to `h` are renamed after it: what was `h` is `a` in the next round. -/
def shaRound (W : Array u64) (S : Vector u64 8) (i : Fin 80) : Vector u64 8 :=
  let t0 := S[7] + shaSigma1 S[4] + shaCh S[4] S[5] S[6] + shaK[i] + W.getD i.val 0
  let t1 := shaSigma0 S[0] + shaMaj S[0] S[1] S[2]
  #v[t0 + t1, S[0], S[1], S[2], S[3] + t0, S[4], S[5], S[6]]

/-- `sha512_compress`. -/
def sha512Compress (state : Vector u64 8) (buf : Vector byte 128) : Vector u64 8 :=
  state.zipWith (· + ·) ((List.finRange 80).foldl (shaRound (shaW buf)) state)

/-! ## The hash of a message -/

/-- `sha512_init`. -/
def sha512Init : Sha512Context where
  length := 0
  state := #v[0x6a09e667f3bcc908, 0xbb67ae8584caa73b, 0x3c6ef372fe94f82b, 0xa54ff53a5f1d36f1,
    0x510e527fade682d1, 0x9b05688c2b3e6c1f, 0x1f83d9abfb41bd6b, 0x5be0cd19137e2179]
  curlen := 0
  buf := Vector.replicate 128 0
  curlen_lt := by omega

/-- The block at the start of `bytes`. -/
def shaBlock (bytes : List byte) : Vector byte 128 := Vector.ofFn fun i => bytes.getD i.val 0

/-- `buf[i + curlen] = in[i]`, for `i < n`. -/
def shaCopy (buf : Vector byte 128) (curlen : Nat) (bytes : List byte) (n : Nat) :
    Vector byte 128 :=
  Vector.ofFn fun j =>
    if curlen ≤ j.val ∧ j.val < curlen + n then bytes.getD (j.val - curlen) 0 else buf[j]

/-- `sha512_update`, of the bytes `bytes`. -/
def sha512Update (md : Sha512Context) (bytes : List byte) : Sha512Context :=
  if h0 : bytes.length = 0 then md
  else if md.curlen = 0 ∧ 128 ≤ bytes.length then
    sha512Update { md with
      state := sha512Compress md.state (shaBlock bytes)
      length := md.length + 128 * 8 } (bytes.drop 128)
  else
    let n := min bytes.length (128 - md.curlen)
    let buf := shaCopy md.buf md.curlen bytes n
    if hfull : md.curlen + n < 128 then
      sha512Update { md with buf := buf, curlen := md.curlen + n, curlen_lt := hfull }
        (bytes.drop n)
    else
      sha512Update { md with
        buf := buf
        state := sha512Compress md.state buf
        length := md.length + 8 * 128
        curlen := 0
        curlen_lt := by omega } (bytes.drop n)
termination_by bytes.length
decreasing_by
  all_goals
    have := md.curlen_lt
    simp only [List.length_drop]
    omega

/-- `buf` from `curlen` on becomes zero, up to `n`. -/
def shaZero (buf : Vector byte 128) (curlen n : Nat) : Vector byte 128 :=
  Vector.ofFn fun j => if curlen ≤ j.val ∧ j.val < n then 0 else buf[j]

/-- `STORE64H(length, buf + 120)`. -/
def shaStoreLength (buf : Vector byte 128) (length : u64) : Vector byte 128 :=
  Vector.ofFn fun j => if 120 ≤ j.val then (store64H length).getD (j.val - 120) 0 else buf[j]

/-- `sha512_final`. -/
def sha512Final (md : Sha512Context) : Vector byte 64 :=
  let length := md.length + BitVec.ofNat 64 md.curlen * 8
  let buf := md.buf.set md.curlen 0x80 md.curlen_lt
  let curlen := md.curlen + 1
  let state :=
    if 112 < curlen then
      let state := sha512Compress md.state (shaZero buf curlen 128)
      sha512Compress state (shaStoreLength (shaZero (shaZero buf curlen 128) 0 120) length)
    else sha512Compress md.state (shaStoreLength (shaZero buf curlen 120) length)
  Vector.ofFn fun i => (store64H state[i.val / 8]).getD (i.val % 8) 0

/-- `sha512`. -/
def sha512 (message : List byte) : Vector byte 64 := sha512Final (sha512Update sha512Init message)

end Ntfw
