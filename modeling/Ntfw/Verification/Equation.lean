import Ntfw.Ed25519.Verify
import Ntfw.Verification.Decoding
import Ntfw.Verification.Multiples
import Ntfw.Verification.Scalar

set_option autoImplicit false

/-! # What a signature is checked for

With the point `P` of the public key and the hash `h`, the first 32 bytes are the encoding of
`S B - h P`, and the scalar `S` has at most 253 bits. -/

namespace Ntfw

open Limbs Radix Edwards

/-- The bytes are read as the point. -/
structure Reads (s : Vector byte 32) (P : Point curve) : Prop where
  y : P.y = (leVal s % 2 ^ 255 : Nat)
  sign : P.x ≠ 0 → P.x.val % 2 = leVal s / 2 ^ 255

theorem Reads.unique {s : Vector byte 32} {P Q : Point curve} (hP : Reads s P) (hQ : Reads s Q) :
    P = Q := by
  obtain h | h := Point.eq_or_eq_neg (hP.y.trans hQ.y.symm)
  · exact h
  · have hx : P.x = -Q.x := by rw [h, Point.neg_x]
    by_cases h0 : Q.x = 0
    · exact Point.ext (by rw [hx, h0, neg_zero]) (hP.y.trans hQ.y.symm)
    · have hsign := hP.sign (by rw [hx]; exact neg_ne_zero.mpr h0)
      rw [hx, ← hQ.sign h0] at hsign
      exact absurd hsign (val_neg_parity h0)

theorem consttimeEqual_iff (x y : Vector byte 32) : consttimeEqual x y = true ↔ x = y := by
  have hmap : (List.finRange 32).foldl (fun r i => r ||| (x[i] ^^^ y[i])) 0
      = ((List.finRange 32).map fun i => x[i] ^^^ y[i]).foldl (· ||| ·) 0 := by
    rw [List.foldl_map]
  rw [consttimeEqual, beq_iff_eq, hmap, or_eq_zero_iff]
  constructor
  · rintro ⟨-, h⟩
    refine Vector.ext fun i hi => ?_
    exact BitVec.xor_eq_zero_iff.mp
      (h _ (List.mem_map.mpr ⟨⟨i, hi⟩, List.mem_finRange _, rfl⟩))
  · rintro rfl
    refine ⟨rfl, fun b hb => ?_⟩
    obtain ⟨i, -, rfl⟩ := List.mem_map.mp hb
    exact BitVec.xor_self

theorem byte_high : ∀ a : byte, a &&& 224 ≠ 0 ↔ ¬a.toNat < 32 := by decide

/-- The check of the uppermost bits of the scalar. -/
theorem high_iff (signature : Vector byte 64) :
    signature.get (Fin.last 63) &&& 224 ≠ 0 ↔ ¬leVal (sigScalar signature) < 2 ^ 253 := by
  have hget : (sigScalar signature).get (Fin.last 31) = signature.get (Fin.last 63) :=
    Vector.getElem_ofFn _
  have hbits := bits_leVal (sigScalar signature) (Fin.last 31)
  have hlt := leVal_lt (sigScalar signature)
  simp only [bits, Fin.val_last] at hbits
  have htop : ((sigScalar signature).get (Fin.last 31)).toNat
      = leVal (sigScalar signature) / 2 ^ 248 % 2 ^ 8 := hbits.symm
  rw [byte_high, ← hget, htop]
  omega

/-- **The check of a signature.** For every signature, message and public key `ed25519_verify` runs,
and no signed sum, product or carry of it overflows. It accepts exactly when the scalar has at most
253 bits, the key is read as a point `P`, and the first half of the signature is the encoding of
`S B - h P`, with `h` the hash modulo the order of the base point. -/
theorem signature_equation (signature : Vector byte 64) (message : List byte)
    (public_key : Vector byte 32) :
    ∃ b, ed25519Verify signature message public_key = some b ∧
      (b = true ↔ leVal (sigScalar signature) < 2 ^ 253 ∧ ∃ P, Reads public_key P ∧
        leVal (sigPoint signature) = encode (leVal (sigScalar signature) • base
          - (leVal (hashRam (sigPoint signature) public_key message) % scL) • P)) := by
  have hhigh := high_iff signature
  change signature[63] &&& 224 ≠ 0 ↔ _ at hhigh
  by_cases hlow : leVal (sigScalar signature) < 2 ^ 253
  · have hclear := hhigh.not_left.mpr hlow
    rw [ed25519Verify, if_neg hclear]
    rcases geFrombytesNegateVartime_spec public_key with ⟨hA, hnone⟩ | ⟨p, P, hA, hp, hy, hsign⟩
    · refine ⟨false, ?_, iff_of_false Bool.false_ne_true ?_⟩
      · simp only [hA, Option.bind_eq_bind, Option.bind_some, Option.pure_def]
      · rintro ⟨-, P, hP, -⟩
        exact hnone P hP.y
    · have hP : Reads public_key P := ⟨hy, hsign⟩
      obtain ⟨h, hh, hval⟩ := scReduce_spec (hashRam (sigPoint signature) public_key message)
      have hlt : leVal h < 2 ^ 255 :=
        hval ▸ (Nat.mod_lt _ (by norm_num [scL])).trans (by norm_num [scL])
      obtain ⟨r, hr, hrP⟩ :=
        geDoubleScalarmultVartime_spec hp hlt (hlow.trans (by norm_num))
      obtain ⟨s, hs, hsP⟩ := geTobytes_spec hrP
      have hsum : leVal h • -P + leVal (sigScalar signature) • base
          = leVal (sigScalar signature) • base - leVal h • P := by
        rw [smul_neg, add_comm, sub_eq_add_neg]
      rw [hsum, hval] at hsP
      refine ⟨consttimeEqual s (sigPoint signature), ?_, ?_⟩
      · rw [hA]
        simp only [Option.bind_eq_bind, Option.bind_some, hh, hr, hs, Option.pure_def]
      · rw [consttimeEqual_iff]
        constructor
        · rintro rfl
          exact ⟨hlow, P, hP, hsP⟩
        · rintro ⟨-, Q, hQ, heq⟩
          rw [hQ.unique hP, ← hsP] at heq
          exact (leVal_injective heq).symm
  · refine ⟨false, ?_, iff_of_false Bool.false_ne_true fun h => hlow h.1⟩
    rw [ed25519Verify, if_pos (hhigh.mpr hlow), Option.pure_def]

end Ntfw
