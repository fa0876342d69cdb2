import Ntfw.Image.Layout
import Ntfw.Image.Upload

set_option autoImplicit false

/-! # What the tool writes and what the engine accepts

The tool lets the user save a configuration without rules, and stops reading the dialog at an
entry it does not recognize. In both cases the image may have no rule, and then no hash was
searched for it: its `rule_hashsz` is 0, which the engine rejects. Every other image it
writes, the engine accepts and applies. -/

namespace Ntfw.Tool

/-! ## Reading the dialog -/

/-- The protocol of the entry is a known name or a number. -/
def Rule.recognized (rl : Rule) : Bool :=
  (strToL4.lookup rl.normalized).isSome || (strToL3.lookup rl.normalized).isSome
    || (customProto rl.normalized 0 0).1

theorem setProto_fst (src : Rule) (dst : NtfeRule) : (src.setProto dst).1 = src.recognized := by
  unfold Rule.setProto Rule.recognized
  cases strToL4.lookup src.normalized with
  | some proto => rfl
  | none =>
      cases strToL3.lookup src.normalized with
      | some ether => rfl
      | none =>
          generalize customProto src.normalized 0 0 = r
          obtain ⟨ok, ether⟩ := r
          cases ok with
          | false => rfl
          | true =>
              simp only [Bool.true_and, Option.isSome_none, Bool.false_or]
              split <;> rfl

/-- A bit of a character is a bit of them all. -/
theorem charBits_getLsbD (cs : List byte) (v : u8) (i : Nat) :
    (cs.foldl (· ||| ·) v).getLsbD i = (v.getLsbD i || cs.any fun c => c.getLsbD i) := by
  induction cs generalizing v with
  | nil => simp
  | cons c cs ih => rw [List.foldl_cons, ih, BitVec.getLsbD_or, List.any_cons, Bool.or_assoc]

/-- An entry is undefined exactly if its text is empty. -/
theorem undefined_iff (rl : Rule) : rl.undefined = true ↔ rl.proto.chars = [] := by
  unfold Rule.undefined
  rw [beq_iff_eq]
  constructor
  · intro h
    cases hcs : rl.proto.chars with
    | nil => rfl
    | cons c cs =>
        -- Normalization sets bit 5 of the first character.
        have hbit : (rl.charBits &&& 0xE0).getLsbD 5 = true := by
          rw [BitVec.getLsbD_and, Rule.charBits, Rule.normalized, hcs, List.map_cons,
            charBits_getLsbD, List.any_cons, BitVec.getLsbD_or]
          simp
        rw [h] at hbit
        exact absurd hbit (by decide)
  · intro h
    rw [Rule.charBits, Rule.normalized, h]
    rfl

/-- The first entry with a text. -/
def firstDefined (entries : List Rule) : Option Rule :=
  entries.find? fun rl => decide (rl.proto.chars ≠ [])

/-- The entries whose rules are stored: those with a text, up to one that is not recognized. -/
def readEntries (entries : List Rule) : List Rule :=
  (entries.filter fun rl => decide (rl.proto.chars ≠ [])).takeWhile Rule.recognized

/-- The rule an entry makes. -/
def Rule.image (src : Rule) : NtfeRule :=
  src.setCosts (src.setProto ⟨0, 0, 0, 0, 0, 0, 0, 0, 0⟩).2

/-- Every field is written: nothing is left of what was at the cursor. -/
theorem setCosts_setProto (src : Rule) (dst : NtfeRule) :
    src.setCosts (src.setProto dst).2 = src.image := by
  unfold Rule.image Rule.setProto
  cases strToL4.lookup src.normalized with
  | some proto => rfl
  | none =>
      cases strToL3.lookup src.normalized with
      | some ether => rfl
      | none =>
          dsimp only
          split <;> rfl

theorem readEntries_ne_nil (entries : List Rule) :
    readEntries entries ≠ [] ↔ ∃ rl ∈ firstDefined entries, rl.recognized = true := by
  rw [firstDefined, ← List.head?_filter, readEntries]
  cases entries.filter fun rl => decide (rl.proto.chars ≠ []) with
  | nil => simp
  | cons rl rest => simp [List.takeWhile_cons]

/-- Every entry with a text is recognized. -/
def AllRecognized (entries : List Rule) : Prop :=
  ∀ rl ∈ entries, rl.proto.chars ≠ [] → rl.recognized = true

/-- If every entry with a text is recognized, they are all read. -/
theorem readEntries_eq_filter {entries : List Rule} (h : AllRecognized entries) :
    readEntries entries = entries.filter fun rl => decide (rl.proto.chars ≠ []) := by
  refine List.takeWhile_eq_self_iff.mpr fun rl hrl => ?_
  obtain ⟨hmem, htext⟩ := List.mem_filter.mp hrl
  exact h rl hmem (of_decide_eq_true htext)

theorem mem_readEntries {entries : List Rule} (h : AllRecognized entries) {rl : Rule}
    (hrl : rl ∈ entries) (htext : rl.proto.chars ≠ []) : rl ∈ readEntries entries := by
  rw [readEntries_eq_filter h]
  exact List.mem_filter.mpr ⟨hrl, decide_eq_true htext⟩

/-- Recognized entries are read, and so is what is behind them. -/
theorem readEntries_append {before : List Rule} (h : AllRecognized before) (rest : List Rule) :
    readEntries (before ++ rest) = readEntries before ++ readEntries rest := by
  have hall : ∀ rl ∈ before.filter fun rl => decide (rl.proto.chars ≠ []),
      rl.recognized = true := by
    rw [← readEntries_eq_filter h]
    exact fun rl => List.mem_takeWhile_imp
  rw [readEntries_eq_filter h, readEntries, readEntries, List.filter_append,
    List.takeWhile_append_of_pos hall]

theorem readEntries_cons {src : Rule} (htext : src.proto.chars ≠ [])
    (hrec : src.recognized = true) (rest : List Rule) :
    readEntries (src :: rest) = src :: readEntries rest := by
  simp [readEntries, htext, hrec]

/-- **The loop of `RulesDownload`** makes an image of the rules it reads, and gets to the end
exactly if it recognizes every entry with a text. -/
theorem downloadRules_image (entries : List Rule) :
    ∀ (cfg : NtfeConfig) (seed hashsz : u32) (rls : List NtfeRule),
      Image cfg seed hashsz rls → rls.length + entries.length ≤ MAX_RULES →
      Image (downloadRules entries cfg (SZ_NTFE_CONFIG + rls.length * SZ_NTFE_RULE)).2
          seed hashsz (rls ++ (readEntries entries).map Rule.image)
        ∧ ((downloadRules entries cfg (SZ_NTFE_CONFIG + rls.length * SZ_NTFE_RULE)).1 = true
          ↔ ∀ rl ∈ entries, rl.proto.chars ≠ [] → rl.recognized = true) := by
  induction entries with
  | nil =>
      intro cfg seed hashsz rls h _
      refine ⟨?_, by simp [downloadRules]⟩
      show Image cfg seed hashsz (rls ++ [])
      rw [List.append_nil]
      exact h
  | cons src rest ih =>
      intro cfg seed hashsz rls h hlen
      rw [List.length_cons] at hlen
      rw [downloadRules, List.forall_mem_cons]
      by_cases htext : src.proto.chars = []
      · -- An entry without a text is passed over.
        have hread : readEntries (src :: rest) = readEntries rest := by
          simp [readEntries, htext]
        rw [if_pos ((undefined_iff src).mpr htext), hread]
        obtain ⟨himg, hall⟩ := ih cfg seed hashsz rls h (by omega)
        exact ⟨himg, hall.trans (and_iff_right fun hc => absurd htext hc).symm⟩
      · rw [if_neg fun hun => htext ((undefined_iff src).mp hun)]
        simp only [setProto_fst]
        cases hrec : src.recognized with
        | false =>
            -- Its rule is written, but not counted.
            have hread : readEntries (src :: rest) = [] := by
              simp [readEntries, htext, hrec]
            rw [hread, List.map_nil, List.append_nil]
            refine ⟨h.put_behind (Nat.le_refl _) _, iff_of_false Bool.false_ne_true fun hc => ?_⟩
            exact absurd (hc.1 htext) Bool.false_ne_true
        | true =>
            -- The rest is read with the rule among those that are stored.
            have hread := readEntries_cons htext hrec rest
            have happ := h.append (by omega) src.image
            have hlong : (rls ++ [src.image]).length = rls.length + 1 := by simp
            obtain ⟨himg, hall⟩ := ih _ seed hashsz _ happ (by rw [hlong]; omega)
            rw [hlong, Nat.succ_mul, ← Nat.add_assoc] at himg hall
            rw [List.append_assoc, List.singleton_append] at himg
            rw [hread, List.map_cons, setCosts_setProto]
            exact ⟨himg, hall.trans (and_iff_right fun _ => rfl).symm⟩

theorem emptyConfig_image : Image (setRuleCount emptyConfig 0) 0 0 [] := by
  constructor <;> decide +kernel

/-- **`RulesDownload`**, from the image it is given. -/
theorem rulesDownload_image (dlg : Dialog) :
    Image (rulesDownload dlg emptyConfig).2 0 0 ((readEntries dlg.entries).map Rule.image)
      ∧ ((rulesDownload dlg emptyConfig).1 = true
        ↔ ∀ rl ∈ dlg.entries, rl.proto.chars ≠ [] → rl.recognized = true) :=
  downloadRules_image dlg.entries _ 0 0 [] emptyConfig_image (by simp [Dialog.entries])

/-! ## The slots of the search and of the engine -/

/-- The search and the engine agree on where a rule goes. -/
theorem slotOf_toNat (seed bits : u32) (rl : NtfeRule) :
    (slotOf seed bits rl).toNat = rl.index seed (bits.setWidth 8) := by
  obtain ⟨hash, hhash⟩ : ∃ hash, hash = ntfeRuleHashfn seed rl.ether rl.dport rl.proto := ⟨_, rfl⟩
  have hmod : (bits.setWidth 8).toNat % 32 = bits.toNat % 32 := by
    rw [BitVec.toNat_setWidth]
    omega
  have hmask : shl32 1 (bits.setWidth 8).toNat = shl32 1 bits.toNat := by
    unfold shl32
    rw [hmod]
  have hlt : (hash.setWidth 32 &&& (shl32 1 bits.toNat - 1)).toNat < 2 ^ 16 := by
    rw [BitVec.toNat_and, BitVec.toNat_setWidth]
    have := hash.isLt
    exact Nat.lt_of_le_of_lt Nat.and_le_left (by omega)
  rw [slotOf, NtfeRule.index, ruleIndex, ← hhash, hmask, BitVec.toNat_setWidth,
    Nat.mod_eq_of_lt hlt]

theorem CollisionFree.slotsDistinct {cfg : NtfeConfig} {seed hashsz : u32} {rls : List NtfeRule}
    (h : CollisionFree rls seed hashsz) (himg : Image cfg seed hashsz rls) :
    cfg.SlotsDistinct := by
  unfold NtfeConfig.SlotsDistinct
  rw [himg.rules]
  refine List.Pairwise.imp ?_ h
  intro a b hab heq
  unfold NtfeConfig.slot NtfeConfig.hashsz at heq
  rw [himg.rule_seed, himg.rule_hashsz, ← slotOf_toNat, ← slotOf_toNat] at heq
  exact hab (BitVec.eq_of_toNat_eq heq)

/-! ## The engine on the image -/

/-- The engine as `ntfe_init` leaves it. -/
def Initialized (gs : Gs) : Prop := ∃ hz, ntfeInit Gs.zero hz true = (true, gs)

theorem Initialized.slotFree {gs : Gs} (h : Initialized gs) {i : Nat} (hi : i < Ntfw.MAX_RULES) :
    SlotFree gs.toGsRom i := by
  obtain ⟨hz, hz⟩ := h
  refine ⟨hi, ?_⟩
  rw [(ntfeInit_frame hz).1.rules]
  rfl

/-- What it takes for the engine to take a file. -/
def Accepts (env : Env) (gs : Gs) (cfg : NtfeConfig) (cfg_len : u32) : Prop :=
  ntfeValidateConfiguration gs cfg cfg_len = .ok true
    ∧ ∃ gs', ntfeConfigure env gs cfg cfg_len = .ok (true, gs')

/-- A hashed image is validated and applied, and brings no hosts with it. -/
theorem Image.applied {cfg : NtfeConfig} {seed hashsz : u32} {rls : List NtfeRule}
    (h : Image cfg seed hashsz rls) (hpos : 1 ≤ hashsz.toNat) (hle : hashsz.toNat ≤ 7)
    (hfree : CollisionFree rls seed hashsz) {gs : Gs} (hinit : Initialized gs) (env : Env)
    {cfg_len : u32} (hlen : cfg.length.toNat ≤ cfg_len.toNat) :
    ntfeValidateConfiguration gs cfg cfg_len = .ok true
      ∧ ∃ gs', ntfeConfigure env gs cfg cfg_len = .ok (true, gs')
        ∧ ∀ i, Swept (gs.host_tbl i) (gs'.host_tbl i) := by
  have hne : hashsz ≠ 0 := by
    rintro rfl
    exact absurd hpos (by decide)
  have hheader : validateHeader cfg cfg_len = true :=
    (h.validateHeader_iff hlen).mpr ⟨hne, (shl32_check _).mpr (Or.inl (by omega))⟩
  have hsize : cfg.hashsz.toNat % 32 ≤ 7 := by
    rw [hashsz_mod, h.rule_hashsz]
    omega
  -- The table of a fresh engine is empty, so no rule finds its slot taken.
  have hval : ntfeValidateConfiguration gs cfg cfg_len = .ok true := by
    refine (ntfeValidateConfiguration_eq_true _ _ _).mpr ⟨hheader, ?_, ?_⟩
    · exact fun rl _ => hinit.slotFree (ruleIndex_lt_of_le hsize _)
    · rw [h.meter_count]
      decide
  obtain ⟨gs', hconf, -, hswept, -⟩ :=
    ntfeConfigure_without_hosts env hval (hfree.slotsDistinct h) h.hosts
  exact ⟨hval, gs', hconf, hswept⟩

/-- **Hashed images are accepted.** -/
theorem Image.accepted {cfg : NtfeConfig} {seed hashsz : u32} {rls : List NtfeRule}
    (h : Image cfg seed hashsz rls) (hpos : 1 ≤ hashsz.toNat) (hle : hashsz.toNat ≤ 7)
    (hfree : CollisionFree rls seed hashsz) {gs : Gs} (hinit : Initialized gs) (env : Env)
    {cfg_len : u32} (hlen : cfg.length.toNat ≤ cfg_len.toNat) : Accepts env gs cfg cfg_len := by
  obtain ⟨hval, gs', hconf, -⟩ := h.applied hpos hle hfree hinit env hlen
  exact ⟨hval, gs', hconf⟩

/-- An image whose table has no size is rejected. -/
theorem Image.rejected {cfg : NtfeConfig} {seed : u32} {rls : List NtfeRule}
    (h : Image cfg seed 0 rls) {gs : Gs} {env : Env} {cfg_len : u32}
    (hlen : cfg.length.toNat ≤ cfg_len.toNat) : ¬ Accepts env gs cfg cfg_len := by
  rintro ⟨hval, -⟩
  have hheader := ((ntfeValidateConfiguration_eq_true _ _ _).mp hval).1
  exact ((h.validateHeader_iff hlen).mp hheader).1 rfl

/-! ## The file -/

/-- What the search promises on a non-empty list of rules. -/
def SearchSound (findRuleMagic : List NtfeRule → Option (u32 × u32)) : Prop :=
  ∀ rls seed hashsz, rls ≠ [] → findRuleMagic rls = some (seed, hashsz) →
    1 ≤ hashsz.toNat ∧ hashsz.toNat ≤ 7 ∧ CollisionFree rls seed hashsz

/-- The image that is written: hashed if it has rules. -/
theorem prepareConfig_image {findRuleMagic : List NtfeRule → Option (u32 × u32)}
    {answers : Answers} {cfg cfg' : NtfeConfig} {rls : List NtfeRule} (h : Image cfg 0 0 rls)
    (hprep : prepareConfig findRuleMagic answers cfg = some cfg') :
    (rls = [] ∧ Image cfg' 0 0 rls)
    ∨ (rls ≠ [] ∧ ∃ seed hashsz, findRuleMagic rls = some (seed, hashsz)
        ∧ Image cfg' seed hashsz rls) := by
  have hzero : cfg.rule_count = 0 ↔ rls = [] := by
    rw [← BitVec.toNat_inj, h.toNat_rule_count]
    exact List.length_eq_zero_iff
  unfold prepareConfig at hprep
  by_cases hrls : rls = []
  · rw [if_pos (hzero.mpr hrls)] at hprep
    split at hprep
    · cases hprep
      exact Or.inl ⟨hrls, h⟩
    · cases hprep
  · rw [if_neg fun hc => hrls (hzero.mp hc)] at hprep
    obtain ⟨⟨seed, hashsz⟩, hmagic, heq⟩ := Option.map_eq_some_iff.mp hprep
    subst heq
    rw [h.rules] at hmagic
    exact Or.inr ⟨hrls, seed, hashsz, hmagic, h.hashed seed hashsz⟩

/-- A successful save writes the whole image. -/
theorem saveNtfeConfiguration_ok {findRuleMagic : List NtfeRule → Option (u32 × u32)}
    {dlg : Dialog} {answers : Answers} {file file' : File} {written : Option Nat}
    (h : saveNtfeConfiguration findRuleMagic dlg answers file written = (true, file')) :
    ∃ cfg, prepareConfig findRuleMagic answers (rulesDownload dlg emptyConfig).2 = some cfg
      ∧ file' = file.write cfg cfg.length.toNat := by
  unfold saveNtfeConfiguration at h
  dsimp only at h
  split at h
  · cases h
  · rename_i cfg hprep
    refine ⟨cfg, hprep, ?_⟩
    split at h
    · cases h
    · cases written with
      | none => cases h
      | some n =>
          obtain ⟨hn, hfile⟩ := Prod.mk.inj h
          rw [← hfile, beq_iff_eq.mp hn]

/-- A file holds the image that was written to it; behind it, it may still have what was there
before. -/
theorem Image.written {cfg : NtfeConfig} {seed hashsz : u32} {rls : List NtfeRule}
    (h : Image cfg seed hashsz rls) (file : File) :
    Image (file.write cfg cfg.length.toNat).data seed hashsz rls :=
  h.congr fun _ hp => if_pos (h.toNat_length ▸ hp)

/-- **A saved file** is the image of the entries that were read, with the seed that was found
if there are any. -/
theorem saveNtfeConfiguration_image {findRuleMagic : List NtfeRule → Option (u32 × u32)}
    {dlg : Dialog} {answers : Answers} {file file' : File} {written : Option Nat}
    (h : saveNtfeConfiguration findRuleMagic dlg answers file written = (true, file')) :
    ∃ seed hashsz, Image file'.data seed hashsz ((readEntries dlg.entries).map Rule.image)
      ∧ (NtfeConfig.length file'.data).toNat ≤ file'.length
      ∧ ((readEntries dlg.entries = [] ∧ hashsz = 0)
        ∨ (readEntries dlg.entries ≠ []
          ∧ findRuleMagic ((readEntries dlg.entries).map Rule.image) = some (seed, hashsz))) := by
  obtain ⟨cfg, hprep, rfl⟩ := saveNtfeConfiguration_ok h
  have hlength : ∀ {seed hashsz rls}, Image cfg seed hashsz rls →
      (NtfeConfig.length (file.write cfg cfg.length.toNat).data).toNat
        ≤ (file.write cfg cfg.length.toNat).length := by
    intro seed hashsz rls himg
    rw [(himg.written file).toNat_length, ← himg.toNat_length]
    exact Nat.le_max_right _ _
  rcases prepareConfig_image (rulesDownload_image dlg).1 hprep
    with ⟨hnil, himg⟩ | ⟨hne, seed, hashsz, hmagic, himg⟩
  · exact ⟨0, 0, himg.written file, hlength himg, Or.inl ⟨List.map_eq_nil_iff.mp hnil, rfl⟩⟩
  · exact ⟨seed, hashsz, himg.written file, hlength himg,
      Or.inr ⟨fun hnil => hne (List.map_eq_nil_iff.mpr hnil), hmagic⟩⟩

/-- **The engine takes a saved file exactly when it has a rule**: when the first entry of the
dialog with a text is one that the tool recognizes. -/
theorem saveNtfeConfiguration_accepted_iff {findRuleMagic : List NtfeRule → Option (u32 × u32)}
    (hsound : SearchSound findRuleMagic) (dlg : Dialog) (answers : Answers) (file file' : File)
    (written : Option Nat) (env : Env) {gs : Gs} (hinit : Initialized gs) (cfg_len : u32)
    (hsave : saveNtfeConfiguration findRuleMagic dlg answers file written = (true, file'))
    (hlen : cfg_len.toNat = file'.length) :
    Accepts env gs file'.data cfg_len
      ↔ ∃ rl ∈ firstDefined dlg.entries, rl.recognized = true := by
  obtain ⟨seed, hashsz, himg, hlong, hcase⟩ := saveNtfeConfiguration_image hsave
  rw [← hlen] at hlong
  rw [← readEntries_ne_nil]
  rcases hcase with ⟨hnil, rfl⟩ | ⟨hne, hmagic⟩
  · exact iff_of_false (himg.rejected hlong) fun hne => hne hnil
  · obtain ⟨hpos, hle, hfree⟩ :=
      hsound _ seed hashsz (fun hnil => hne (List.map_eq_nil_iff.mp hnil)) hmagic
    exact iff_of_true (himg.accepted hpos hle hfree hinit env hlong) hne

/-- A search that tries the seed 0 alone. -/
def trySeedZero (rls : List NtfeRule) : Option (u32 × u32) :=
  if CollisionFree rls 0 7 then some (0, 7) else none

theorem trySeedZero_sound : SearchSound trySeedZero := by
  intro rls seed hashsz _ h
  unfold trySeedZero at h
  split at h
  · rename_i hfree
    cases h
    exact ⟨by decide, by decide, hfree⟩
  · cases h

/-- A dialog with the text in its first entry, port 80, and nothing else. -/
def dialogOf (proto : Proto) : Dialog where
  rules := fun _ => ⟨⟨[], by decide, by simp⟩, 0, 0, 0, 0, 0, 0, 0⟩
  scrollPos := 0
  page := fun i => ⟨if i.val = 0 then proto else ⟨[], by decide, by simp⟩, 80, 0, 0, 0, 0, 0, 0⟩

def noFile : File := ⟨fun _ => 0, 0⟩

theorem saveNtfeConfiguration_accepted_http : ∃ dlg env gs file',
    saveNtfeConfiguration trySeedZero dlg ⟨false, true⟩ noFile (some 126) = (true, file')
      ∧ Accepts env gs file'.data 126 := by
  let dlg := dialogOf ⟨ascii "tcp", by decide, by decide⟩
  have hok : (saveNtfeConfiguration trySeedZero dlg ⟨false, true⟩ noFile (some 126)).1 = true := by
    decide +kernel
  have hlen : (saveNtfeConfiguration trySeedZero dlg ⟨false, true⟩ noFile (some 126)).2.length
      = 126 := by decide +kernel
  have hsave : saveNtfeConfiguration trySeedZero dlg ⟨false, true⟩ noFile (some 126)
      = (true, (saveNtfeConfiguration trySeedZero dlg ⟨false, true⟩ noFile (some 126)).2) :=
    Prod.ext hok rfl
  have hfirst : ∃ rl ∈ firstDefined dlg.entries, rl.recognized = true := by
    have hany : (firstDefined dlg.entries).any Rule.recognized = true := by decide +kernel
    obtain ⟨rl, hrl, hrec⟩ := (Option.any_eq_true _ _).mp hany
    exact ⟨rl, hrl, hrec⟩
  exact ⟨dlg, ⟨0, false, 0⟩, _, _, hsave, (saveNtfeConfiguration_accepted_iff trySeedZero_sound dlg
    ⟨false, true⟩ noFile _ (some 126) ⟨0, false, 0⟩ ⟨0, rfl⟩ 126 hsave hlen.symm).mpr hfirst⟩

/-- **The tool writes files that the engine rejects**: the user confirms an empty dialog. -/
theorem saveNtfeConfiguration_rejected :
    ¬ ∀ (findRuleMagic : List NtfeRule → Option (u32 × u32)) (dlg : Dialog) (answers : Answers)
      (file file' : File) (written : Option Nat) (env : Env) (gs : Gs) (cfg_len : u32),
      SearchSound findRuleMagic → Initialized gs →
      saveNtfeConfiguration findRuleMagic dlg answers file written = (true, file') →
      cfg_len.toNat = file'.length → Accepts env gs file'.data cfg_len := by
  intro h
  let dlg := dialogOf ⟨[], by decide, by simp⟩
  have hok : (saveNtfeConfiguration trySeedZero dlg ⟨true, true⟩ noFile (some 100)).1 = true := by
    decide +kernel
  have hlen : (saveNtfeConfiguration trySeedZero dlg ⟨true, true⟩ noFile (some 100)).2.length
      = 100 := by decide +kernel
  have hacc := h trySeedZero dlg ⟨true, true⟩ noFile _ (some 100) ⟨0, false, 0⟩ _ 100
    trySeedZero_sound ⟨0, rfl⟩ (Prod.ext hok rfl) hlen.symm
  have hheader := ((ntfeValidateConfiguration_eq_true _ _ _).mp hacc.1).1
  exact absurd hheader (by decide +kernel)

/-! ## A dialog that is rejected

`SaveNtfeConfiguration` does not look at what `RulesDownload` returns. -/

/-- **Nothing is saved of a dialog that `RulesDownload` rejects**: whatever it would come to to
open and to write the file, the save fails and the file is what it was. -/
def RejectedUnsaved (findRuleMagic : List NtfeRule → Option (u32 × u32)) (dlg : Dialog)
    (answers : Answers) : Prop :=
  (rulesDownload dlg emptyConfig).1 = false →
    ∀ file written, saveNtfeConfiguration findRuleMagic dlg answers file written = (false, file)

/-- What else keeps the rules that were read from being saved: the user, whom the tool warns if
there are none or none for ARP, or a search without a result. -/
inductive Refused (findRuleMagic : List NtfeRule → Option (u32 × u32)) (answers : Answers) :
    List NtfeRule → Prop
  | noRules (h : answers.noRules = false) : Refused findRuleMagic answers []
  | noMagic {rls : List NtfeRule} (hne : rls ≠ []) (h : findRuleMagic rls = none) :
      Refused findRuleMagic answers rls
  | noArp {rls : List NtfeRule} (hnone : ∀ rl ∈ rls, rl.ether ≠ ETH_P_ARP)
      (h : answers.noArp = false) : Refused findRuleMagic answers rls

section

variable {findRuleMagic : List NtfeRule → Option (u32 × u32)} {answers : Answers}
  {cfg : NtfeConfig} {rls : List NtfeRule}

/-- The first check of the save path stops at an image exactly if its rules are refused there. -/
theorem prepareConfig_eq_none_iff (h : Image cfg 0 0 rls) :
    prepareConfig findRuleMagic answers cfg = none
      ↔ (rls = [] ∧ answers.noRules = false) ∨ (rls ≠ [] ∧ findRuleMagic rls = none) := by
  have hzero : cfg.rule_count = 0 ↔ rls = [] := by
    rw [← BitVec.toNat_inj, h.toNat_rule_count]
    exact List.length_eq_zero_iff
  unfold prepareConfig
  by_cases hrls : rls = []
  · rw [if_pos (hzero.mpr hrls)]
    cases hanswer : answers.noRules with
    | false => simp [hrls]
    | true => simp [hrls]
  · rw [if_neg fun hc => hrls (hzero.mp hc), Option.map_eq_none_iff, h.rules]
    simp [hrls]

/-- The file is left alone exactly if the rules that were read are refused. -/
theorem saveNtfeConfiguration_unsaved_iff (dlg : Dialog) :
    (∀ file written, saveNtfeConfiguration findRuleMagic dlg answers file written = (false, file))
      ↔ Refused findRuleMagic answers ((readEntries dlg.entries).map Rule.image) := by
  obtain ⟨himg, -⟩ := rulesDownload_image dlg
  generalize (readEntries dlg.entries).map Rule.image = rls at himg ⊢
  have hstop : prepareConfig findRuleMagic answers (rulesDownload dlg emptyConfig).2 = none
      ↔ (rls = [] ∧ answers.noRules = false) ∨ (rls ≠ [] ∧ findRuleMagic rls = none) :=
    prepareConfig_eq_none_iff himg
  unfold saveNtfeConfiguration
  dsimp only
  cases hprep : prepareConfig findRuleMagic answers (rulesDownload dlg emptyConfig).2 with
  | none =>
      refine iff_of_true (fun _ _ => rfl) ?_
      rcases hstop.mp hprep with ⟨rfl, hanswer⟩ | ⟨hne, hmagic⟩
      · exact .noRules hanswer
      · exact .noMagic hne hmagic
  | some cfg =>
      have hrules : cfg.rules = rls := by
        rcases prepareConfig_image himg hprep with ⟨-, h⟩ | ⟨-, seed, hashsz, -, h⟩
        · exact h.rules
        · exact h.rules
      have hgo : ¬ ((rls = [] ∧ answers.noRules = false)
          ∨ (rls ≠ [] ∧ findRuleMagic rls = none)) := fun h => by
        rw [hstop.mpr h] at hprep
        cases hprep
      have hany : (cfg.rules.any fun rl => rl.ether == ETH_P_ARP) = false
          ↔ ∀ rl ∈ rls, rl.ether ≠ ETH_P_ARP := by
        rw [hrules, List.any_eq_false]
        simp
      dsimp only
      by_cases hskip : (!(cfg.rules.any fun rl => rl.ether == ETH_P_ARP) && !answers.noArp) = true
      · simp only [if_pos hskip]
        rw [Bool.and_eq_true, Bool.not_eq_true', Bool.not_eq_true'] at hskip
        exact iff_of_true (fun _ _ => trivial) (.noArp (hany.mp hskip.1) hskip.2)
      · simp only [if_neg hskip]
        refine iff_of_false (fun h => ?_) fun h => ?_
        · -- The file can be opened and takes the whole image.
          have hfail : (cfg.length.toNat == cfg.length.toNat) = false :=
            congrArg Prod.fst (h noFile (some cfg.length.toNat))
          rw [beq_self_eq_true] at hfail
          cases hfail
        · cases h with
          | noRules hanswer => exact hgo (Or.inl ⟨rfl, hanswer⟩)
          | noMagic hne hmagic => exact hgo (Or.inr ⟨hne, hmagic⟩)
          | noArp hnone hanswer =>
              rw [hany.mpr hnone, hanswer] at hskip
              exact hskip rfl

/-- **A rejected dialog is not saved** exactly if the rules in front of the entry that was not
recognized are refused for another reason. -/
theorem rejectedUnsaved_iff (dlg : Dialog) : RejectedUnsaved findRuleMagic dlg answers
    ↔ AllRecognized dlg.entries
      ∨ Refused findRuleMagic answers ((readEntries dlg.entries).map Rule.image) := by
  have hall : (rulesDownload dlg emptyConfig).1 = true ↔ AllRecognized dlg.entries :=
    (rulesDownload_image dlg).2
  rw [RejectedUnsaved, saveNtfeConfiguration_unsaved_iff, ← hall]
  cases (rulesDownload dlg emptyConfig).1 with
  | false => simp
  | true => simp

end

/-- A dialog with a rule for ARP, and an entry behind it that is not recognized. -/
def arpAndMore : Dialog := .showing (fun i =>
  if i.val = 0 then { Rule.zero with proto := ⟨ascii "arp", by decide, by decide⟩ }
  else if i.val = 1 then { Rule.zero with proto := ⟨ascii "tpc", by decide, by decide⟩ }
  else .zero) scrollTop

/-- **The rule in front of a misspelt one is saved alone**, and the save reported as done. -/
theorem rejectedUnsaved_fails :
    ¬ ∀ (findRuleMagic : List NtfeRule → Option (u32 × u32)) (dlg : Dialog) (answers : Answers),
      SearchSound findRuleMagic → RejectedUnsaved findRuleMagic dlg answers := by
  intro hclaim
  have h := hclaim trySeedZero arpAndMore ⟨false, false⟩ trySeedZero_sound (by decide +kernel)
    noFile (some 126)
  exact absurd (congrArg Prod.fst h) (by decide +kernel)

end Ntfw.Tool
