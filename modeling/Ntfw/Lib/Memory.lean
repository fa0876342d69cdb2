import Mathlib.Tactic

set_option autoImplicit false

/-! # Byte memory, little endian

What a pointer points to: a byte at every offset. A buffer of `n` bytes is such a memory of
which only the offsets below `n` are owned. Multi-byte loads are little endian, as on x64, and
so are the byte lists that `put` stores.
-/

/-- The bytes from a pointer onwards. -/
abbrev Mem := Nat → BitVec 8

namespace Mem

/-- The memory that starts with the given bytes and is zero behind them. -/
def ofBytes (bs : List (BitVec 8)) : Mem := fun i => bs.getD i 0

def le16 (m : Mem) (o : Nat) : BitVec 16 := m (o + 1) ++ m o

def le32 (m : Mem) (o : Nat) : BitVec 32 := m.le16 (o + 2) ++ m.le16 o

def le64 (m : Mem) (o : Nat) : BitVec 64 := m.le32 (o + 4) ++ m.le32 o

/-- The `n` bytes from offset `o` on. -/
def bytes (m : Mem) (o n : Nat) : List (BitVec 8) := (List.range n).map (fun i => m (o + i))

/-! ## Loads from equal bytes -/

theorem le16_congr {m m' : Mem} {o : Nat} (h : ∀ i < 2, m (o + i) = m' (o + i)) :
    m.le16 o = m'.le16 o := by
  unfold le16
  rw [h 1 (by decide), show m o = m' o from h 0 (by decide)]

theorem le32_congr {m m' : Mem} {o : Nat} (h : ∀ i < 4, m (o + i) = m' (o + i)) :
    m.le32 o = m'.le32 o := by
  unfold le32
  rw [le16_congr fun i hi => h i (by omega), le16_congr fun i hi => ?_]
  rw [Nat.add_assoc]
  exact h (2 + i) (by omega)

theorem le64_congr {m m' : Mem} {o : Nat} (h : ∀ i < 8, m (o + i) = m' (o + i)) :
    m.le64 o = m'.le64 o := by
  unfold le64
  rw [le32_congr fun i hi => h i (by omega), le32_congr fun i hi => ?_]
  rw [Nat.add_assoc]
  exact h (4 + i) (by omega)

/-- Equal words have equal bytes. -/
theorem byte_of_le16 {m m' : Mem} {o i : Nat} (h : m.le16 o = m'.le16 o) (hi : i < 2) :
    m (o + i) = m' (o + i) := by
  have hhi : m (o + 1) = m' (o + 1) := by
    have := congrArg (BitVec.extractLsb' 8 8) h
    simpa only [le16, BitVec.extractLsb'_append_eq_left] using this
  have hlo : m o = m' o := by
    have := congrArg (BitVec.extractLsb' 0 8) h
    simpa only [le16, BitVec.extractLsb'_append_eq_right] using this
  obtain rfl | rfl : i = 0 ∨ i = 1 := by omega
  · exact hlo
  · exact hhi

theorem byte_of_le32 {m m' : Mem} {o i : Nat} (h : m.le32 o = m'.le32 o) (hi : i < 4) :
    m (o + i) = m' (o + i) := by
  have hhi : m.le16 (o + 2) = m'.le16 (o + 2) := by
    have := congrArg (BitVec.extractLsb' 16 16) h
    simpa only [le32, BitVec.extractLsb'_append_eq_left] using this
  have hlo : m.le16 o = m'.le16 o := by
    have := congrArg (BitVec.extractLsb' 0 16) h
    simpa only [le32, BitVec.extractLsb'_append_eq_right] using this
  by_cases h2 : i < 2
  · exact byte_of_le16 hlo h2
  · have hb := byte_of_le16 hhi (i := i - 2) (by omega)
    rwa [show o + 2 + (i - 2) = o + i by omega] at hb

/-- Byte ranges are equal exactly when their bytes are. -/
theorem bytes_inj {m m' : Mem} {o n : Nat} :
    m.bytes o n = m'.bytes o n ↔ ∀ i < n, m (o + i) = m' (o + i) := by
  unfold bytes
  rw [List.map_inj_left]
  simp only [List.mem_range]

/-! ## Stores -/

/-- The bytes of a value, in the order of their addresses. -/
def bytes16 (v : BitVec 16) : List (BitVec 8) := [v.extractLsb' 0 8, v.extractLsb' 8 8]

def bytes32 (v : BitVec 32) : List (BitVec 8) :=
  bytes16 (v.extractLsb' 0 16) ++ bytes16 (v.extractLsb' 16 16)

/-- Store bytes from offset `o` on. -/
def put (m : Mem) (o : Nat) (bs : List (BitVec 8)) : Mem :=
  fun p => if o ≤ p ∧ p < o + bs.length then bs.getD (p - o) 0 else m p

theorem put_at (m : Mem) {o i : Nat} {bs : List (BitVec 8)} (h : i < bs.length) :
    m.put o bs (o + i) = bs.getD i 0 := by
  rw [put, if_pos ⟨Nat.le_add_right o i, Nat.add_lt_add_left h o⟩, Nat.add_sub_cancel_left]

theorem put_out (m : Mem) {o p : Nat} {bs : List (BitVec 8)} (h : p < o ∨ o + bs.length ≤ p) :
    m.put o bs p = m p := by
  rw [put, if_neg (by omega)]

theorem le16_put_out (m : Mem) {o p : Nat} {bs : List (BitVec 8)}
    (h : p + 2 ≤ o ∨ o + bs.length ≤ p) : (m.put o bs).le16 p = m.le16 p :=
  le16_congr fun i hi => m.put_out (by omega)

theorem le32_put_out (m : Mem) {o p : Nat} {bs : List (BitVec 8)}
    (h : p + 4 ≤ o ∨ o + bs.length ≤ p) : (m.put o bs).le32 p = m.le32 p :=
  le32_congr fun i hi => m.put_out (by omega)

/-- A load of what has been stored. -/
theorem le16_put_at (m : Mem) {o i : Nat} {bs : List (BitVec 8)} (h : i + 1 < bs.length) :
    (m.put o bs).le16 (o + i) = bs.getD (i + 1) 0 ++ bs.getD i 0 := by
  rw [le16, Nat.add_assoc, m.put_at h, m.put_at (by omega)]

theorem bytes16_append (v : BitVec 16) : v.extractLsb' 8 8 ++ v.extractLsb' 0 8 = v := by
  have h : v.extractLsb' 8 8 ++ v.extractLsb' 0 8 = v.extractLsb' 0 16 :=
    BitVec.extractLsb'_append_extractLsb'_eq_extractLsb' (Nat.zero_add 8).symm
  rw [h, BitVec.extractLsb'_eq_self]

theorem halves_append (v : BitVec 32) : v.extractLsb' 16 16 ++ v.extractLsb' 0 16 = v := by
  have h : v.extractLsb' 16 16 ++ v.extractLsb' 0 16 = v.extractLsb' 0 32 :=
    BitVec.extractLsb'_append_extractLsb'_eq_extractLsb' (Nat.zero_add 16).symm
  rw [h, BitVec.extractLsb'_eq_self]

theorem length_bytes16 (v : BitVec 16) : (bytes16 v).length = 2 := rfl

theorem length_bytes32 (v : BitVec 32) : (bytes32 v).length = 4 := rfl

theorem le16_put (m : Mem) (o : Nat) (v : BitVec 16) : (m.put o (bytes16 v)).le16 o = v := by
  have h := @le16_put_at m o 0 (bytes16 v) (Nat.lt_succ_self 1)
  exact h.trans (bytes16_append v)

theorem le32_put (m : Mem) (o : Nat) (v : BitVec 32) : (m.put o (bytes32 v)).le32 o = v := by
  have hlo : (m.put o (bytes32 v)).le16 o = v.extractLsb' 0 16 :=
    (m.le16_put_at (i := 0) (by rw [length_bytes32]; decide)).trans (bytes16_append _)
  have hhi : (m.put o (bytes32 v)).le16 (o + 2) = v.extractLsb' 16 16 :=
    (m.le16_put_at (i := 2) (by rw [length_bytes32]; decide)).trans (bytes16_append _)
  rw [le32, hlo, hhi, halves_append]

end Mem
