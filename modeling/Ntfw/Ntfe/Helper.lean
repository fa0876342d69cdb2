import Ntfw.Common.Pce

set_option autoImplicit false

/-! # Saturated arithmetic (`ntfe/helper.cpp`)

A C comparison is `0` or `1`, and the code turns it into a mask by negating it. -/

namespace Ntfw

/-- `-(b)` of a C truth value: all ones or all zeros. -/
def negMask (b : Bool) : u32 := -(if b then 1 else 0)

def satsub32 (a b : u32) : u32 :=
  let r := a - b
  r &&& negMask (r ≤ a)

def satadd32 (a b : u32) : u32 :=
  let r := a + b
  r ||| negMask (r < a)

def satmul32 (a b : u32) : u32 :=
  let r : u64 := a.setWidth 64 * b.setWidth 64
  r.setWidth 32 ||| negMask ((r >>> 32).setWidth 32 != (0 : u32))

end Ntfw
