import Ntfw.Image.Saved
import Ntfw.Lib.Numeral

set_option autoImplicit false

/-! # Custom protocols

A text that is no name is to be a number of one to four digits, and its width to tell the layer.
`RulesDownload` tests the number of digits before it counts, which lets a fifth one pass, and
goes by the value. -/

namespace Ntfw.Tool

/-! ## Numbers in a text -/

/-- The value of a hexadecimal digit, in either case. -/
def typedDigit (c : byte) : Option (BitVec 4) :=
  if 0x30 ≤ c ∧ c ≤ 0x39 then some ((c - 0x30).setWidth 4)
  else if 0x41 ≤ c ∧ c ≤ 0x46 then some ((c - 0x41 + 10).setWidth 4)
  else if 0x61 ≤ c ∧ c ≤ 0x66 then some ((c - 0x61 + 10).setWidth 4)
  else none

/-- The number that a text of hexadecimal digits stands for. -/
def typedNumber (cs : List byte) : Option Nat :=
  Numeral.scan (fun c => (typedDigit c).map BitVec.toNat) 16 cs 0

/-- The tool reads a digit as what it stands for. -/
theorem typedDigit_read {c : byte} {d : BitVec 4} (h : typedDigit c = some d) :
    isHexDigit (c ||| 0x20) = true ∧ hexValue (c ||| 0x20) = d.setWidth 16 := by
  -- Normalization only changes the case of a letter: there are 256 characters to look at.
  have hall : ∀ c : byte, (typedDigit c).all (fun d =>
      isHexDigit (c ||| 0x20) && hexValue (c ||| 0x20) == d.setWidth 16) = true := by
    decide +kernel
  have hc := hall c
  rw [h] at hc
  simpa using hc

/-- The names of protocols are no numbers: each has a character that is no digit. -/
theorem lookup_eq_none_of_digits {cs : List byte} (hdigits : ∀ c ∈ cs, isHexDigit c = true) :
    strToL4.lookup cs = none ∧ strToL3.lookup cs = none := by
  have hl4 : ∀ e ∈ strToL4, e.1.all isHexDigit = false := by decide
  have hl3 : ∀ e ∈ strToL3, e.1.all isHexDigit = false := by decide
  have hne : ∀ name : List byte, name.all isHexDigit = false → (cs != name) = true := by
    intro name hname
    rw [bne_iff_ne]
    rintro rfl
    rw [List.all_eq_true.mpr hdigits] at hname
    cases hname
  exact ⟨List.lookup_eq_none_iff.mpr fun e he => hne e.1 (hl4 e he),
    List.lookup_eq_none_iff.mpr fun e he => hne e.1 (hl3 e he)⟩

/-! ## The loop over the digits -/

/-- The counter does not wrap while it is tested. -/
theorem toNat_digits_succ {digits : u8} (h : digits.toNat ≤ 4) :
    (digits + 1).toNat = digits.toNat + 1 := by
  rw [BitVec.toNat_add_of_lt]
  · rfl
  · show digits.toNat + 1 < 2 ^ 8
    omega

/-- The loop gets to the end of a text of digits unless there are more than five. -/
theorem customProto_fst_iff (cs : List byte) (digits : u8) (ether : le16)
    (hdigits : digits.toNat ≤ 5) : (customProto cs digits ether).1 = true
      ↔ (∀ c ∈ cs, isHexDigit c = true) ∧ digits.toNat + cs.length ≤ 5 := by
  induction cs generalizing digits ether with
  | nil => simpa [customProto] using hdigits
  | cons c cs ih =>
      rw [customProto, List.forall_mem_cons, List.length_cons]
      cases hc : isHexDigit c with
      | false => simp
      | true =>
          by_cases hmore : 4 < digits
          · -- A sixth digit.
            have hfive : 4 < digits.toNat := hmore
            rw [decide_eq_true hmore]
            exact iff_of_false Bool.false_ne_true (by omega)
          · have hle : digits.toNat ≤ 4 := Nat.le_of_not_lt hmore
            have hnext := toNat_digits_succ hle
            rw [decide_eq_false hmore]
            refine (ih (digits + 1) _ (by omega)).trans ?_
            rw [hnext, eq_self_iff_true, true_and]
            exact and_congr_right fun _ => by omega

/-- One more digit. -/
theorem shift_add_digit (n : Nat) (d : BitVec 4) :
    (BitVec.ofNat 16 n <<< 4) + d.setWidth 16 = BitVec.ofNat 16 (16 * n + d.toNat) := by
  apply BitVec.eq_of_toNat_eq
  simp only [BitVec.toNat_add, BitVec.toNat_shiftLeft, BitVec.toNat_setWidth, BitVec.toNat_ofNat,
    Nat.shiftLeft_eq]
  omega

/-- The loop over a number, which it takes for one as long as there are at most five digits. -/
theorem customProto_of_scan {cs : List byte} {n v : Nat}
    (h : Numeral.scan (fun c => (typedDigit c).map BitVec.toNat) 16 cs n = some v) (digits : u8)
    (hlen : digits.toNat + cs.length ≤ 5) :
    customProto (cs.map (· ||| 0x20)) digits (BitVec.ofNat 16 n) = (true, BitVec.ofNat 16 v) := by
  induction cs generalizing n digits with
  | nil =>
      cases h
      rfl
  | cons c cs ih =>
      rw [List.length_cons] at hlen
      rw [Numeral.scan] at h
      cases hd : typedDigit c with
      | none =>
          rw [hd] at h
          cases h
      | some d =>
          rw [hd] at h
          obtain ⟨hdigit, hvalue⟩ := typedDigit_read hd
          have hle : digits.toNat ≤ 4 := by omega
          have hmore : ¬ 4 < digits := Nat.not_lt.mpr hle
          rw [List.map_cons, customProto, hdigit, decide_eq_false hmore, hvalue,
            shift_add_digit]
          exact ih h (digits + 1) (by rw [toNat_digits_succ hle]; omega)

/-- The bits that tell the layer. -/
def highByte : BitField.Field 16 where
  lo := 8
  len := 8
  fits := by decide

/-- A number is taken for an L4 protocol if it has no high byte. -/
theorem highByte_eq_zero (ether : le16) :
    (ether &&& 0xFF00 == 0) = decide (ether.toNat < 0x100) := by
  have hmask : (0xFF00 : le16) = highByte.mask := by decide
  have hlt := ether.isLt
  rw [Bool.eq_iff_iff, beq_iff_eq, decide_eq_true_eq, hmask, highByte.and_mask_eq_zero_iff,
    ← BitVec.toNat_inj]
  show (ether.extractLsb' 8 8).toNat = 0 ↔ _
  rw [BitVec.extractLsb'_toNat, Nat.shiftRight_eq_div_pow]
  omega

/-! ## What the comment asks for -/

/-- **The rule of a custom protocol** as the comment has it: a number of an IPv4 protocol if it has
at most two digits, and of a layer-3 protocol if it has three or four. -/
def Rule.specified (src : Rule) : Option NtfeRule :=
  match typedNumber src.proto.chars with
  | none => none
  | some n =>
      if src.proto.chars.length ≤ 2 then
        some (src.setCosts ⟨ETH_P_IP, 0, 0, 0, 0, BitVec.ofNat 8 n, 0, 0, 0⟩)
      else if src.proto.chars.length ≤ 4 then
        some (src.setCosts ⟨BitVec.ofNat 16 n, 0, 0, 0, 0, 0, 0, 0, 0⟩)
      else none

theorem typedDigit_lt {c : byte} {d : Nat} (h : (typedDigit c).map BitVec.toNat = some d) :
    d < 16 := by
  obtain ⟨b, -, rfl⟩ := Option.map_eq_some_iff.mp h
  exact b.isLt

/-- The number has as many digits as the text has characters. -/
theorem typedNumber_lt {cs : List byte} {n : Nat} (h : typedNumber cs = some n) :
    n < 16 ^ cs.length := by
  have hlt := Numeral.scan_lt (fun c d => typedDigit_lt) h
  rwa [Nat.zero_add, Nat.one_mul] at hlt

/-- **Nothing is truncated**: the protocol that is asked for is the number. -/
theorem Rule.specified_exact {src : Rule} {n : Nat} {rl : NtfeRule}
    (hnum : typedNumber src.proto.chars = some n) (h : src.specified = some rl) :
    if src.proto.chars.length ≤ 2 then rl.ether = ETH_P_IP ∧ rl.proto.toNat = n
    else rl.ether.toNat = n ∧ rl.proto = 0 := by
  have hlt := typedNumber_lt hnum
  unfold Rule.specified at h
  rw [hnum] at h
  dsimp only at h
  by_cases htwo : src.proto.chars.length ≤ 2
  · have hpow : 16 ^ src.proto.chars.length ≤ 16 ^ 2 := Nat.pow_le_pow_right (by decide) htwo
    rw [if_pos htwo] at h ⊢
    cases h
    exact ⟨rfl, (BitVec.toNat_ofNat _ _).trans (Nat.mod_eq_of_lt (by omega))⟩
  · rw [if_neg htwo] at h ⊢
    split at h
    · rename_i hfour
      have hpow : 16 ^ src.proto.chars.length ≤ 16 ^ 4 := Nat.pow_le_pow_right (by decide) hfour
      cases h
      exact ⟨(BitVec.toNat_ofNat _ _).trans (Nat.mod_eq_of_lt (by omega)), rfl⟩
    · cases h

/-! ## One entry among others -/

/-- **How `RulesDownload` deals with an entry.** If a rule is expected, the entries behind it are
read on and the rule is stored in its place; if not, the dialog is rejected. -/
structure Rule.DownloadedAs (src : Rule) (expected : Option NtfeRule) : Prop where
  rejected : expected = none → ∀ (dlg : Dialog) (before rest : List Rule),
    dlg.entries = before ++ src :: rest → (rulesDownload dlg emptyConfig).1 = false
  accepted : ∀ rl, expected = some rl → ∀ (dlg : Dialog) (before rest : List Rule),
    dlg.entries = before ++ src :: rest → AllRecognized before →
    (NtfeConfig.rules (rulesDownload dlg emptyConfig).2
        = (readEntries before).map Rule.image ++ rl :: (readEntries rest).map Rule.image)
      ∧ ((rulesDownload dlg emptyConfig).1 = true ↔ AllRecognized rest)

/-- A dialog with one entry. -/
def Dialog.only (src : Rule) : Dialog :=
  .showing (fun i => if i.val = 0 then src else .zero) scrollTop

theorem Dialog.entries_only (src : Rule) :
    (Dialog.only src).entries = src :: List.replicate 31 .zero := by
  rw [Dialog.only, Dialog.entries_showing]
  rfl

theorem allRecognized_zero (n : Nat) : AllRecognized (List.replicate n .zero) := by
  intro rl hrl htext
  rw [List.eq_of_mem_replicate hrl] at htext
  exact absurd rfl htext

/-- **An entry is dealt with as the tool recognizes it.** -/
theorem Rule.downloadedAs_iff {src : Rule} (htext : src.proto.chars ≠ [])
    (expected : Option NtfeRule) : src.DownloadedAs expected
      ↔ expected = if src.recognized then some src.image else none := by
  constructor
  · intro h
    -- The dialog that has no other entry.
    have hentries := Dialog.entries_only src
    obtain ⟨himg, hall⟩ := rulesDownload_image (Dialog.only src)
    rw [hentries] at himg hall
    cases expected with
    | none =>
        have hfalse := h.rejected rfl (Dialog.only src) [] _ hentries
        have hrec : src.recognized = false := by
          by_contra hc
          have hrec : src.recognized = true := by simpa using hc
          have hok := hall.mpr (List.forall_mem_cons.mpr
            ⟨fun _ => hrec, allRecognized_zero 31⟩)
          rw [hfalse] at hok
          cases hok
        rw [hrec]
        rfl
    | some rl =>
        obtain ⟨hrules, hok⟩ := h.accepted rl rfl (Dialog.only src) [] _ hentries nofun
        have hrec : src.recognized = true :=
          (List.forall_mem_cons.mp (hall.mp (hok.mpr (allRecognized_zero 31)))).1 htext
        rw [himg.rules, readEntries_cons htext hrec] at hrules
        rw [hrec]
        exact congrArg some (List.cons.inj hrules).1.symm
  · rintro rfl
    constructor
    · intro hnone dlg before rest hentries
      obtain ⟨-, hall⟩ := rulesDownload_image dlg
      rw [hentries] at hall
      refine Bool.eq_false_iff.mpr fun hok => ?_
      have hrec := hall.mp hok src (by simp) htext
      rw [hrec] at hnone
      cases hnone
    · intro rl hsome dlg before rest hentries hbefore
      obtain ⟨himg, hall⟩ := rulesDownload_image dlg
      rw [hentries] at himg hall
      cases hrec : src.recognized with
      | false =>
          rw [hrec] at hsome
          cases hsome
      | true =>
          rw [hrec] at hsome
          cases hsome
          refine ⟨?_, hall.trans ?_⟩
          · rw [himg.rules, readEntries_append hbefore, readEntries_cons htext hrec,
              List.map_append, List.map_cons]
          · rw [List.forall_mem_append, List.forall_mem_cons]
            exact ⟨fun h => h.2.2, fun h => ⟨hbefore, fun _ => hrec, h⟩⟩

/-! ## The comment and the code -/

/-- The rule of a text that is no name. -/
theorem Rule.image_of_number {src : Rule} (hl4 : strToL4.lookup src.normalized = none)
    (hl3 : strToL3.lookup src.normalized = none) {n : Nat}
    (hnum : typedNumber src.proto.chars = some n) (hlen : src.proto.chars.length ≤ 5) :
    src.image = src.setCosts
      (if n % 2 ^ 16 < 0x100 then ⟨ETH_P_IP, 0, 0, 0, 0, BitVec.ofNat 8 n, 0, 0, 0⟩
        else ⟨BitVec.ofNat 16 n, 0, 0, 0, 0, 0, 0, 0, 0⟩) := by
  have hread : customProto src.normalized 0 0 = (true, BitVec.ofNat 16 n) :=
    customProto_of_scan hnum 0 (by simpa using hlen)
  unfold Rule.image Rule.setProto
  rw [hl4, hl3]
  dsimp only
  rw [hread, Bool.true_and, highByte_eq_zero, BitVec.toNat_ofNat]
  by_cases hn : n % 2 ^ 16 < 0x100
  · have hproto : (BitVec.ofNat 16 n).setWidth 8 = BitVec.ofNat 8 n := by
      apply BitVec.eq_of_toNat_eq
      simp only [BitVec.toNat_setWidth, BitVec.toNat_ofNat]
      omega
    rw [decide_eq_true hn, if_pos rfl, if_pos hn, ← hproto]
  · rw [decide_eq_false hn, if_neg Bool.false_ne_true, if_neg hn]

/-- **The width tells the layer**: what the tool takes for a number is one of at most four digits,
and if there are three or four, it does not fit in two. -/
def Rule.WidthTells (src : Rule) : Prop :=
  (∀ c ∈ src.normalized, isHexDigit c = true) → src.proto.chars.length ≤ 5 →
    ∃ n, typedNumber src.proto.chars = some n ∧ src.proto.chars.length ≤ 4
      ∧ (2 < src.proto.chars.length → 0x100 ≤ n)

section

variable {src : Rule}

/-- A text that is no name is recognized if it consists of at most five digits. -/
theorem Rule.recognized_iff (hl4 : strToL4.lookup src.normalized = none)
    (hl3 : strToL3.lookup src.normalized = none) : src.recognized = true
      ↔ (∀ c ∈ src.normalized, isHexDigit c = true) ∧ src.proto.chars.length ≤ 5 := by
  have hzero : (0 : u8).toNat = 0 := rfl
  unfold Rule.recognized
  rw [hl4, hl3, Option.isSome_none, Option.isSome_none, Bool.false_or, Bool.false_or,
    customProto_fst_iff _ _ _ (by decide), Rule.normalized, List.length_map, hzero, Nat.zero_add]

/-- The digits of a number are digits to the tool. -/
theorem typedNumber_digits {n : Nat} (hnum : typedNumber src.proto.chars = some n) :
    ∀ c ∈ src.normalized, isHexDigit c = true := by
  have hsome := (Numeral.isSome_scan _ 16 src.proto.chars 0).mp (Option.isSome_of_eq_some hnum)
  intro c hc
  obtain ⟨b, hb, rfl⟩ := List.mem_map.mp hc
  obtain ⟨d, hd⟩ := Option.isSome_iff_exists.mp (Option.isSome_map.symm.trans (hsome b hb))
  exact (typedDigit_read hd).1

/-- What the tool makes of the text is what is asked for exactly if the width tells. -/
theorem Rule.specified_eq_iff (hl4 : strToL4.lookup src.normalized = none)
    (hl3 : strToL3.lookup src.normalized = none) :
    src.specified = (if src.recognized then some src.image else none) ↔ src.WidthTells := by
  unfold Rule.specified Rule.WidthTells
  have hrec := Rule.recognized_iff hl4 hl3
  cases hnum : typedNumber src.proto.chars with
  | none =>
      -- Not a number; the condition is that the tool does not recognize it.
      dsimp only
      by_cases h : src.recognized = true
      · rw [if_pos h]
        refine iff_of_false nofun fun hwidth => ?_
        obtain ⟨n, hn, -⟩ := hwidth (hrec.mp h).1 (hrec.mp h).2
        cases hn
      · rw [if_neg h]
        exact iff_of_true rfl fun hdigits hlen => absurd (hrec.mpr ⟨hdigits, hlen⟩) h
  | some n =>
      dsimp only
      have hdigits := typedNumber_digits hnum
      have hlt := typedNumber_lt hnum
      by_cases hfive : src.proto.chars.length ≤ 5
      · rw [if_pos (hrec.mpr ⟨hdigits, hfive⟩), Rule.image_of_number hl4 hl3 hnum hfive]
        by_cases htwo : src.proto.chars.length ≤ 2
        · have hpow : 16 ^ src.proto.chars.length ≤ 16 ^ 2 :=
            Nat.pow_le_pow_right (by decide) htwo
          rw [if_pos htwo, if_pos (by omega)]
          exact iff_of_true rfl fun _ _ => ⟨n, rfl, by omega, by omega⟩
        · rw [if_neg htwo]
          by_cases hfour : src.proto.chars.length ≤ 4
          · have hpow : 16 ^ src.proto.chars.length ≤ 16 ^ 4 :=
              Nat.pow_le_pow_right (by decide) hfour
            rw [if_pos hfour, Nat.mod_eq_of_lt (by omega)]
            by_cases hn : n < 0x100
            · -- A protocol of layer 3 is asked for, and one of IPv4 is stored.
              rw [if_pos hn]
              refine iff_of_false (fun h => ?_) fun hwidth => ?_
              · have hether : BitVec.ofNat 16 n = ETH_P_IP :=
                  congrArg NtfeRule.ether (Option.some.inj h)
                have hvalue := congrArg BitVec.toNat hether
                rw [BitVec.toNat_ofNat, Nat.mod_eq_of_lt (by omega)] at hvalue
                have hip : ETH_P_IP.toNat = 0x800 := rfl
                omega
              · obtain ⟨m, hm, -, hlayer⟩ := hwidth hdigits hfive
                cases hm
                exact absurd (hlayer (by omega)) (by omega)
            · rw [if_neg hn]
              exact iff_of_true rfl fun _ _ => ⟨n, rfl, hfour, fun _ => by omega⟩
          · rw [if_neg hfour]
            refine iff_of_false nofun fun hwidth => ?_
            obtain ⟨-, -, hle, -⟩ := hwidth hdigits hfive
            exact hfour hle
      · have hnot : ¬ src.recognized = true := fun h => hfive (hrec.mp h).2
        rw [if_neg hnot, if_neg (by omega), if_neg (by omega)]
        exact iff_of_true rfl fun _ hle => absurd hle hfive

/-- **Custom protocols are read as the comment has it** exactly if the width of what the tool takes
for a number tells its layer. -/
theorem Rule.downloadedAs_specified_iff (htext : src.proto.chars ≠ [])
    (hl4 : strToL4.lookup src.normalized = none) (hl3 : strToL3.lookup src.normalized = none) :
    src.DownloadedAs src.specified ↔ src.WidthTells :=
  (Rule.downloadedAs_iff htext _).trans (Rule.specified_eq_iff hl4 hl3)

end

/-- An entry with a number of four digits, and one with five. -/
def fourDigits : Rule := { Rule.zero with proto := ⟨ascii "9C40", by decide, by decide⟩ }
def fiveDigits : Rule := { Rule.zero with proto := ⟨ascii "18847", by decide, by decide⟩ }

theorem downloadedAs_specified_fourDigits : fourDigits.DownloadedAs fourDigits.specified :=
  (Rule.downloadedAs_specified_iff (by decide) (by decide) (by decide)).mpr
    fun _ _ => ⟨0x9C40, by decide, by decide, by decide⟩

/-- **A number of five digits is accepted**, and its first digit dropped. -/
theorem downloadedAs_specified_fails : ¬ ∀ src : Rule, src.proto.chars ≠ [] →
    strToL4.lookup src.normalized = none → strToL3.lookup src.normalized = none →
    src.DownloadedAs src.specified := by
  intro hclaim
  have h := hclaim fiveDigits (by decide) (by decide) (by decide)
  have hfalse := h.rejected (by decide) (.only fiveDigits) [] _ (Dialog.entries_only fiveDigits)
  exact absurd hfalse (by decide +kernel)

end Ntfw.Tool
