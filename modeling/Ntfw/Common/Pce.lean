import Mathlib.Tactic

set_option autoImplicit false

/-! # Basic types (`common/pce.h`)

The fixed-width types of the program and the byte swap behind `htons`. A signed index that
is `-1` for "none" is an `Option`, except where a function is given as it is compiled. -/

namespace Ntfw

abbrev u8 := BitVec 8
abbrev u16 := BitVec 16
abbrev u32 := BitVec 32
abbrev u64 := BitVec 64
abbrev s8 := BitVec 8
abbrev byte := u8

abbrev be16 := u16
abbrev be32 := u32
abbrev le16 := u16

def bswap16 (x : u16) : u16 := x.extractLsb' 0 8 ++ x.extractLsb' 8 8

def htons (v : u16) : u16 := bswap16 v
def ntohs (v : u16) : u16 := htons v

theorem bswap16_bswap16 (x : u16) : bswap16 (bswap16 x) = x := by
  apply BitVec.eq_of_getLsbD_eq
  intro i hi
  simp only [bswap16, BitVec.getLsbD_append, BitVec.getLsbD_extractLsb']
  by_cases h : i < 8
  · simp [h]
  · have h1 : i - 8 < 8 := by omega
    have h2 : 8 + (i - 8) = i := by omega
    simp [h, h1, h2]

theorem ntohs_htons (v : u16) : ntohs (htons v) = v := bswap16_bswap16 v

theorem htons_ntohs (v : u16) : htons (ntohs v) = v := bswap16_bswap16 v

theorem htons_inj {v w : u16} (h : htons v = htons w) : v = w := by
  rw [← ntohs_htons v, h, ntohs_htons]

/-- The macro `min`, of two 32-bit words. -/
def min32 (x y : u32) : u32 := if x < y then x else y

/-- `x << n` as x64 executes it on 32-bit operands: only the low five bits of the count
take part. -/
def shl32 (x : u32) (n : Nat) : u32 := x <<< (n % 32)

end Ntfw
