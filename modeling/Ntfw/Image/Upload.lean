import Ntfw.Tool.Upload
import Ntfw.Engine.Parsing

set_option autoImplicit false

/-! # Loading an image stays inside it, and inside the dialog

The engine takes images of up to 128 rules, and the dialog has 32 entries. `RulesUpload` bounds
its loop by the count in the image alone. -/

namespace Ntfw.Tool

open Reader (Inside)

/-! ## Texts and controls -/

/-- The text of a protocol is a name, or the number if there is none. -/
theorem lookup_getD_cases {K : Type} [BEq K] [LawfulBEq K] (names : List (K × List byte)) (k : K)
    (n : Nat) : (∃ e ∈ names, e.1 = k ∧ (names.lookup k).getD (hexText n) = e.2)
      ∨ (names.lookup k = none ∧ (names.lookup k).getD (hexText n) = hexText n) := by
  cases h : names.lookup k with
  | none => exact Or.inr ⟨rfl, rfl⟩
  | some name =>
      obtain ⟨l₁, l₂, hl, -⟩ := List.lookup_eq_some_iff.mp h
      exact Or.inl ⟨(k, name), by rw [hl]; simp, rfl, rfl⟩

theorem length_hexText_le {n k : Nat} (hk : 0 < k) (hn : n < 16 ^ k) :
    (hexText n).length ≤ k := by
  rw [hexText, List.length_map]
  exact Numeral.length_write_le (by decide) hk hn

/-- What holds of the names and of the number holds of the text. -/
theorem lookup_getD_of {K : Type} [BEq K] [LawfulBEq K] {names : List (K × List byte)} {n : Nat}
    {P : List byte → Prop} (hnames : ∀ e ∈ names, P e.2) (hnum : P (hexText n)) (k : K) :
    P ((names.lookup k).getD (hexText n)) := by
  rcases lookup_getD_cases names k n with ⟨e, he, -, htext⟩ | ⟨-, htext⟩
  · rw [htext]
    exact hnames e he
  · rw [htext]
    exact hnum

/-- **The text of a rule** is a name, or a number of at most four digits. -/
theorem protocolText_of {P : List byte → Prop} (hl4 : ∀ e ∈ l4ToStr, P e.2)
    (hl3 : ∀ e ∈ l3ToStr, P e.2) (hnum : ∀ n < 16 ^ 4, P (hexText n)) (rl : NtfeRule) :
    P (if rl.ether ≠ ETH_P_IP then l3Text rl.ether else l4Text rl.proto) := by
  split
  · exact lookup_getD_of hl3 (hnum _ rl.ether.isLt) rl.ether
  · exact lookup_getD_of hl4 (hnum _ (Nat.lt_trans rl.proto.isLt (by decide))) rl.proto

theorem atoiDigits_map {ds : List Nat} (hds : ∀ d ∈ ds, d < 10) (n : Nat) :
    atoiDigits (ds.map digitChar) n = Numeral.read 10 ds n := by
  have hdigit : ∀ d < 10, (0x30 ≤ digitChar d ∧ digitChar d ≤ 0x39)
      ∧ (digitChar d - 0x30).toNat = d := by decide
  induction ds generalizing n with
  | nil => rfl
  | cons d ds ih =>
      rw [List.forall_mem_cons] at hds
      obtain ⟨hrange, hvalue⟩ := hdigit d hds.1
      rw [List.map_cons, atoiDigits, if_pos hrange, hvalue]
      exact ih hds.2 (10 * n + d)

/-- A number that an `int` holds is read as it was written. -/
theorem atoi_itoa {n : Nat} (hn : n < 2 ^ 31) : atoi (itoa n) = n := by
  have hdigit : ∀ d < 10, isSpace (digitChar d) = false ∧ digitChar d ≠ 0x2D
      ∧ digitChar d ≠ 0x2B := by decide
  have hds : ∀ d ∈ Numeral.write 10 n, d < 10 := fun d hd => Numeral.lt_of_mem_write (by decide) hd
  have hread : atoiDigits ((Numeral.write 10 n).map digitChar) 0 = n := by
    rw [atoiDigits_map hds, Numeral.read_write]
  rw [itoa, if_neg (by omega), Int.natAbs_natCast]
  cases hw : Numeral.write 10 n with
  | nil => exact absurd hw (Numeral.write_ne_nil 10 n)
  | cons d ds =>
      rw [hw] at hread hds
      obtain ⟨hspace, hminus, hplus⟩ := hdigit d (hds d List.mem_cons_self)
      rw [List.map_cons] at hread ⊢
      rw [atoi, List.dropWhile_cons_of_neg (by simp [hspace])]
      dsimp only
      rw [if_neg hminus, if_neg hplus, hread]
      omega

theorem editGet_editSet (v : u16) : editGetTextInt (editSetTextInt v.toNat) = v.toNat := by
  have hlt := v.isLt
  have hlen : (itoa v.toNat).length ≤ 5 := by
    rw [itoa, if_neg (by omega), List.length_map]
    exact Numeral.length_write_le (by decide) (by decide) (by show v.toNat < 10 ^ 5; omega)
  rw [editGetTextInt, editSetTextInt, List.take_of_length_le (by omega), atoi_itoa (by omega)]

/-- A field of an entry comes back from its control. -/
theorem ofInt_editGet (v : u16) :
    BitVec.ofInt 16 (editGetTextInt (editSetTextInt v.toNat)) = v := by
  rw [editGet_editSet, BitVec.ofInt_natCast, BitVec.ofNat_toNat, BitVec.setWidth_eq]

theorem ofInt_editGet_meter (v : BitVec 2) :
    (BitVec.ofInt 16 (editGetTextInt (editSetTextInt v.toNat))).setWidth 2 = v := by
  have hwide : v.toNat = (v.setWidth 16).toNat := by
    rw [BitVec.toNat_setWidth]
    exact (Nat.mod_eq_of_lt (Nat.lt_of_lt_of_le v.isLt (by decide))).symm
  rw [hwide, ofInt_editGet, BitVec.setWidth_setWidth_of_le _ (by decide), BitVec.setWidth_eq]

theorem Proto.ofText_eq (proto : Proto) : Proto.ofText proto.chars = proto := by
  have hall : proto.chars.takeWhile (· != 0) = proto.chars :=
    List.takeWhile_eq_self_iff.mpr fun c hc => by simpa using proto.nonzero c hc
  obtain ⟨chars, fits, nonzero⟩ := proto
  unfold Proto.ofText
  congr 1
  rw [hall]
  exact List.take_of_length_le (Nat.le_pred_of_lt fits)

/-- **The controls give back what was put in them.** -/
theorem synchronizeDown_synchronizeUp (rl : Rule) : synchronizeDown (synchronizeUp rl) = rl := by
  unfold synchronizeDown synchronizeUp
  simp only [Proto.ofText_eq, ofInt_editGet, ofInt_editGet_meter]

theorem pageAt_eq (rules : Fin MAX_RULES → Rule) (pos : Fin (MAX_RULES - RULE_PAGE_SZ + 1))
    (i : Fin RULE_PAGE_SZ) : ∃ h, pageAt rules pos i = rules ⟨pos.val + i.val, h⟩ :=
  ⟨_, synchronizeDown_synchronizeUp _⟩

/-- A page that shows its entries changes none of them. -/
theorem Dialog.synchronized_showing (rules : Fin MAX_RULES → Rule)
    (pos : Fin (MAX_RULES - RULE_PAGE_SZ + 1)) :
    (Dialog.showing rules pos).synchronized = rules := by
  funext i
  unfold Dialog.synchronized Dialog.showing
  dsimp only
  by_cases hi : pos.val ≤ i.val ∧ i.val < pos.val + RULE_PAGE_SZ
  · rw [dif_pos hi]
    obtain ⟨hlt, hpage⟩ := pageAt_eq rules pos ⟨i.val - pos.val, by omega⟩
    rw [hpage]
    congr 1
    exact Fin.ext (Nat.add_sub_cancel' hi.1)
  · rw [dif_neg hi]

theorem Dialog.entries_showing (rules : Fin MAX_RULES → Rule)
    (pos : Fin (MAX_RULES - RULE_PAGE_SZ + 1)) :
    (Dialog.showing rules pos).entries = List.ofFn rules := by
  rw [Dialog.entries, Dialog.synchronized_showing, List.ofFn_eq_map]

/-! ## The rule at the cursor -/

/-- The entry of a rule. -/
def Rule.ofNtfeRule (rl : NtfeRule) : Rule where
  proto := .ofText (if rl.ether ≠ ETH_P_IP then l3Text rl.ether else l4Text rl.proto)
  port := rl.dport
  byteCost := rl.byte_scale
  packetCost := rl.packet_scale
  synCost := rl.syn_scale
  byteMeter := rl.byte_tb.setWidth 2
  packetMeter := rl.packet_tb.setWidth 2
  synMeter := rl.syn_tb.setWidth 2

section

variable (cfg : NtfeConfig)

theorem value_protoText (src : Nat) : (protoText src).value cfg
    = if (cfg.ruleAt src).ether ≠ ETH_P_IP then l3Text (cfg.ruleAt src).ether
      else l4Text (cfg.ruleAt src).proto := by
  simp only [protoText, Reader.value_bind, Reader.value_ite, Reader.value_pure]
  rfl

/-- **Every text fits in its buffer**, whatever the image holds. -/
theorem length_protoText_lt (src : Nat) :
    ((protoText src).value cfg).length < MAX_PROTO_NAME := by
  rw [value_protoText]
  exact protocolText_of (P := fun text => text.length < MAX_PROTO_NAME) (by decide) (by decide)
    (fun n hn => Nat.lt_of_le_of_lt (length_hexText_le (by decide) hn) (by decide)) _

theorem value_uploadRule (src : Nat) :
    (uploadRule src).run.value cfg = .ok (.ofNtfeRule (cfg.ruleAt src)) := by
  rw [uploadRule, Reader.value_run_lift_bind, Reader.value_run_ite,
    if_pos (length_protoText_lt cfg src), value_protoText]
  simp only [Reader.value_run_lift_bind, Reader.value_run_pure]
  rfl

theorem inside_uploadRule (src : Nat) :
    (uploadRule src).run.Within (Inside src (src + SZ_NTFE_RULE)) cfg := by
  have h16 : ∀ k, k + 2 ≤ SZ_NTFE_RULE →
      (Reader.le16 (src + k)).Within (Inside src (src + SZ_NTFE_RULE)) cfg := fun k hk =>
    (Reader.inside_le16 _).mpr (by omega)
  have h8 : ∀ k, k + 1 ≤ SZ_NTFE_RULE →
      (Reader.byte (src + k)).Within (Inside src (src + SZ_NTFE_RULE)) cfg := fun k hk =>
    (Reader.inside_byte _).mpr (by omega)
  have htext : (protoText src).Within (Inside src (src + SZ_NTFE_RULE)) cfg :=
    (h16 0 (by decide)).bind (.ite (fun _ => Reader.within_pure _)
      fun _ => (h8 10 (by decide)).bind (Reader.within_pure _))
  simp only [uploadRule, Reader.within_run_lift_bind, Reader.within_run_ite,
    Reader.within_run_pure, Reader.within_run_throw]
  exact ⟨htext, fun _ => ⟨h16 2 (by decide), h16 4 (by decide), h16 6 (by decide),
    h16 8 (by decide), h8 11 (by decide), h8 12 (by decide), h8 13 (by decide), trivial⟩,
    fun _ => trivial⟩

/-! ## The loop -/

/-- The entries once `n` rules have been stored from index `i` on. -/
def uploaded (n i src : Nat) (rules : Fin MAX_RULES → Rule) (j : Fin MAX_RULES) : Rule :=
  if i ≤ j.val ∧ j.val < i + n then
    .ofNtfeRule (cfg.ruleAt (src + (j.val - i) * SZ_NTFE_RULE))
  else rules j

/-- The first rule and the rest. -/
theorem uploaded_succ (n i src : Nat) (rules : Fin MAX_RULES → Rule) (hi : i < MAX_RULES) :
    uploaded cfg n (i + 1) (src + SZ_NTFE_RULE)
      (Function.update rules ⟨i, hi⟩ (.ofNtfeRule (cfg.ruleAt src)))
      = uploaded cfg (n + 1) i src rules := by
  funext j
  unfold uploaded
  by_cases hj : j.val = i
  · obtain rfl : j = ⟨i, hi⟩ := Fin.ext hj
    rw [if_neg (by simp), Function.update_self, if_pos (by simp), Nat.sub_self, Nat.zero_mul,
      Nat.add_zero]
  · rw [Function.update_of_ne (fun hc => hj (congrArg Fin.val hc))]
    by_cases hin : i ≤ j.val ∧ j.val < i + (n + 1)
    · have hofs : src + SZ_NTFE_RULE + (j.val - (i + 1)) * SZ_NTFE_RULE
          = src + (j.val - i) * SZ_NTFE_RULE := by
        unfold SZ_NTFE_RULE
        omega
      rw [if_pos (by omega), if_pos hin, hofs]
    · rw [if_neg (by omega), if_neg hin]

theorem value_uploadRules (n i src : Nat) (rules : Fin MAX_RULES → Rule)
    (hi : i ≤ MAX_RULES) : (uploadRules n i src rules).run.value cfg
      = if i + n ≤ MAX_RULES then .ok (uploaded cfg n i src rules) else .error .outOfBounds := by
  induction n generalizing i src rules with
  | zero =>
      rw [Nat.add_zero, if_pos hi]
      refine congrArg Except.ok (funext fun j => ?_)
      rw [uploaded, if_neg (by omega)]
  | succ n ih =>
      rw [uploadRules]
      by_cases hlt : i < MAX_RULES
      · rw [dif_pos hlt, Reader.value_run_bind, value_uploadRule]
        refine (ih (i + 1) _ _ hlt).trans ?_
        rw [uploaded_succ]
        exact if_congr (by omega) rfl rfl
      · rw [dif_neg hlt, if_neg (by omega)]
        rfl

theorem inside_uploadRules (n i src : Nat) (rules : Fin MAX_RULES → Rule) :
    (uploadRules n i src rules).run.Within (Inside src (src + n * SZ_NTFE_RULE)) cfg := by
  induction n generalizing i src rules with
  | zero => exact Reader.within_run_pure _
  | succ n ih =>
      have hn := next_entry src n SZ_NTFE_RULE
      rw [uploadRules, Reader.within_run_dite]
      refine ⟨fun hi => Reader.within_run_bind.mpr ⟨?_, fun dst _ => ?_⟩,
        fun _ => Reader.within_run_throw _⟩
      · exact (inside_uploadRule cfg src).widen (Nat.le_refl _) (by omega)
      · exact (ih (i + 1) (src + SZ_NTFE_RULE) _).widen (Nat.le_add_right _ _)
          (Nat.le_of_eq hn.symm)

/-! ## The dialog -/

/-- The entries that are made of an image. -/
def entriesOf (j : Fin MAX_RULES) : Rule :=
  uploaded cfg cfg.rule_count.toNat 0 SZ_NTFE_CONFIG (fun _ => .zero) j

/-- **`RulesUpload`** shows an entry for every rule, or leaves the array. -/
theorem value_rulesUpload : rulesUpload.run.value cfg
    = if cfg.rule_count.toNat ≤ MAX_RULES then
        .ok (.showing (entriesOf cfg) scrollTop)
      else .error .outOfBounds := by
  rw [rulesUpload, Reader.value_run_lift_bind, Reader.value_run_bind,
    value_uploadRules cfg _ 0 _ _ (Nat.zero_le _), Nat.zero_add]
  show (if cfg.rule_count.toNat ≤ MAX_RULES then _ else _) >>= _ = _
  split
  · rfl
  · rfl

theorem inside_rulesUpload : rulesUpload.run.Within (Inside 0 cfg.metersOfs) cfg := by
  have hm : SZ_NTFE_CONFIG ≤ cfg.metersOfs := Nat.le_add_right _ _
  rw [rulesUpload, Reader.within_run_lift_bind, Reader.within_run_bind]
  refine ⟨(Reader.inside_le32 _).mpr ⟨Nat.zero_le _, Nat.le_trans (by decide) hm⟩, ?_,
    fun _ _ => Reader.within_run_pure _⟩
  exact (inside_uploadRules cfg _ 0 SZ_NTFE_CONFIG _).widen (Nat.zero_le _) (Nat.le_refl _)

end

/-- **The image is loaded in bounds**: every store is in the array of entries, with a text that
fits in its buffer, and every read in front of the length. -/
structure UploadInBounds (cfg : NtfeConfig) (cfg_len : u32) : Prop where
  stores : ∃ dlg, rulesUpload.run.value cfg = .ok dlg
  reads : ∀ o ∈ rulesUpload.run.trace cfg, o < cfg_len.toNat

/-- **The editor loads what the engine accepts** exactly if the dialog has an entry for every
rule. -/
theorem uploadInBounds_iff {gs : Gs} {cfg : NtfeConfig} {cfg_len : u32}
    (h : ntfeValidateConfiguration gs cfg cfg_len = .ok true) :
    UploadInBounds cfg cfg_len ↔ cfg.rule_count.toNat ≤ MAX_RULES := by
  have hend := Reads.endOfs_le ((ntfeValidateConfiguration_eq_true gs cfg cfg_len).mp h).1
  have hh : cfg.metersOfs ≤ cfg.hostsOfs := Nat.le_add_right _ _
  have he : cfg.hostsOfs ≤ cfg.endOfs := Nat.le_add_right _ _
  constructor
  · rintro ⟨⟨dlg, hdlg⟩, -⟩
    rw [value_rulesUpload] at hdlg
    by_contra hmany
    rw [if_neg hmany] at hdlg
    cases hdlg
  · intro hfew
    refine ⟨⟨_, (value_rulesUpload cfg).trans (if_pos hfew)⟩, fun o ho => ?_⟩
    have hin := (inside_rulesUpload cfg o ho).2
    omega

/-- An image with these rules, and room for as many as the engine takes. -/
def imageOf (rls : List NtfeRule) : NtfeConfig :=
  Mem.ofBytes ([0, 0, 0, 0] ++ Mem.bytes16 NTFE_CFG_VERSION ++ Mem.bytes16 3428
    ++ List.replicate 76 0 ++ Mem.bytes32 7 ++ Mem.bytes32 (BitVec.ofNat 32 rls.length)
    ++ List.replicate 8 0 ++ rls.flatMap fun rl => ruleBytes rl ++ List.replicate 12 0)

/-- As many rules as the dialog has entries: of protocols and ethertypes with a name and of some
that have none. -/
def mixedRules : List NtfeRule :=
  (List.range 8).flatMap fun k =>
    [⟨ETH_P_IP, BitVec.ofNat 16 (8000 + k), 1, 2, 3, IP_P_TCP, 0, 1, 2⟩,
      ⟨ETH_P_IP, BitVec.ofNat 16 (5000 + k), 1, 2, 3, IP_P_UDP, 0, 1, 2⟩,
      ⟨ETH_P_IP, 0, 1, 2, 3, BitVec.ofNat 8 (0x60 + k), 0, 1, 2⟩,
      ⟨BitVec.ofNat 16 (0x88F7 + k), 0, 1, 2, 3, 0, 0, 1, 2⟩]

theorem uploadInBounds_mixed : UploadInBounds (imageOf mixedRules) 3428 :=
  (uploadInBounds_iff (show ntfeValidateConfiguration Gs.zero (imageOf mixedRules) 3428 = .ok true
    by decide +kernel)).mpr (by decide +kernel)

/-- An image with a rule more, all of them zero. -/
def crowdedImage : NtfeConfig := imageOf (List.replicate 33 ⟨0, 0, 0, 0, 0, 0, 0, 0, 0⟩)

/-- **An image with a rule more than the dialog has entries** is accepted by the engine, and its
last rule stored behind the array. -/
theorem uploadInBounds_fails : ¬ ∀ (gs : Gs) (cfg : NtfeConfig) (cfg_len : u32),
    ntfeValidateConfiguration gs cfg cfg_len = .ok true → UploadInBounds cfg cfg_len := by
  intro hclaim
  have hvalid : ntfeValidateConfiguration Gs.zero crowdedImage 3428 = .ok true := by
    decide +kernel
  obtain ⟨⟨dlg, hdlg⟩, -⟩ := hclaim Gs.zero crowdedImage 3428 hvalid
  rw [value_rulesUpload, if_neg (by decide +kernel)] at hdlg
  cases hdlg

end Ntfw.Tool
