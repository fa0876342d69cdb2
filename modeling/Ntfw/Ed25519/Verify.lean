import Ntfw.Ed25519.Ge
import Ntfw.Ed25519.Sc
import Ntfw.Ed25519.Sha512

set_option autoImplicit false

/-! # Signatures (`ntfe/ed25519/verify.c`)

A signature is the encoding of a point, and a scalar. -/

namespace Ntfw

/-- `signature`, of which the first 32 bytes are read. -/
def sigPoint (signature : Vector byte 64) : Vector byte 32 :=
  Vector.ofFn fun i => signature[i.val]

/-- `signature + 32`. -/
def sigScalar (signature : Vector byte 64) : Vector byte 32 :=
  Vector.ofFn fun i => signature[32 + i.val]

/-- `consttime_equal`. -/
def consttimeEqual (x y : Vector byte 32) : Bool :=
  (List.finRange 32).foldl (fun r i => r ||| (x[i] ^^^ y[i])) 0 == 0

/-- The hash `h` of `ed25519_verify`, and of `ed25519_sign`. -/
def hashRam (point public_key : Vector byte 32) (message : List byte) : Vector byte 64 :=
  sha512Final (sha512Update (sha512Update (sha512Update sha512Init point.toList)
    public_key.toList) message)

/-- `ed25519_verify`. -/
def ed25519Verify (signature : Vector byte 64) (message : List byte)
    (public_key : Vector byte 32) : Option Bool :=
  if signature[63] &&& 224 ≠ 0 then return false
  else do
    let A ← geFrombytesNegateVartime public_key
    match A with
    | none => return false
    | some A =>
        let h ← scReduce (hashRam (sigPoint signature) public_key message)
        let R ← geDoubleScalarmultVartime h A (sigScalar signature)
        let checker ← geTobytes R
        return consttimeEqual checker (sigPoint signature)

end Ntfw
