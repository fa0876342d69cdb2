import Ntfw.Engine.Calls

set_option autoImplicit false

/-! # The validator and the running engine

`ntfe_validate_configuration` looks for collisions by a test insertion of every rule, and the
table it tests against is the live one. Its verdict on an image therefore depends on the
image applied before, and an engine that runs an image rejects that image. -/

namespace Ntfw

/-- Some rule of the image finds its slot taken in the live table, before any rule's slot is
out of the table. -/
def NtfeConfig.Collides (cfg : NtfeConfig) (gs : GsRom) : Prop :=
  Ntfw.Collides gs cfg.rule_seed cfg.hashsz cfg.rules

instance (cfg : NtfeConfig) (gs : GsRom) : Decidable (cfg.Collides gs) :=
  inferInstanceAs (Decidable (Ntfw.Collides _ _ _ _))

/-- What is left of the verdict for a good header and no collision. -/
def NtfeConfig.tailVerdict (cfg : NtfeConfig) : Exec Bool :=
  if ∀ rl ∈ cfg.rules, cfg.slot rl < MAX_RULES then
    .ok (decide (cfg.meter_count.toNat ≤ MAX_METERS))
  else .error .outOfBounds

/-- **The verdict**, as a function of the image and of which of its slots are taken. -/
theorem ntfeValidateConfiguration_eq (gs : Gs) (cfg : NtfeConfig) {cfg_len : u32}
    (hh : validateHeader cfg cfg_len = true) :
    ntfeValidateConfiguration gs cfg cfg_len
      = if cfg.Collides gs.toGsRom then .ok false else cfg.tailVerdict := by
  unfold ntfeValidateConfiguration
  rw [hh, if_neg (by simp)]
  by_cases hcol : cfg.Collides gs.toGsRom
  · have hrules : validateRules gs cfg.rule_seed (cfg.rule_hashsz.setWidth 8) cfg.rules
        = .ok false := by
      rw [validateRules_eq]
      exact if_pos hcol
    rw [hrules, if_pos hcol]
    rfl
  · rw [if_neg hcol]
    unfold NtfeConfig.tailVerdict
    by_cases hall : ∀ rl ∈ cfg.rules, cfg.slot rl < MAX_RULES
    · have hrules : validateRules gs cfg.rule_seed (cfg.rule_hashsz.setWidth 8) cfg.rules
          = .ok true := by
        rw [validateRules_eq]
        exact (if_neg hcol).trans (if_pos hall)
      rw [hrules, if_pos hall]
      by_cases hm : cfg.meter_count.toNat ≤ MAX_METERS
      · rw [decide_eq_true hm]
        exact if_neg (Nat.not_lt.mpr hm)
      · rw [decide_eq_false hm]
        exact if_pos (Nat.lt_of_not_le hm)
    · have hrules : validateRules gs cfg.rule_seed (cfg.rule_hashsz.setWidth 8) cfg.rules
          = .error .outOfBounds := by
        rw [validateRules_eq]
        exact (if_neg hcol).trans (if_neg hall)
      rw [hrules, if_neg hall]
      rfl

theorem ntfeValidateConfiguration_of_header (gs : Gs) {cfg : NtfeConfig} {cfg_len : u32}
    (hh : validateHeader cfg cfg_len = false) :
    ntfeValidateConfiguration gs cfg cfg_len = .ok false := by
  rw [ntfeValidateConfiguration, hh]
  rfl

/-- An image that does not collide is rejected only for its meters. -/
theorem NtfeConfig.tailVerdict_eq_false (cfg : NtfeConfig) :
    cfg.tailVerdict = .ok false
      ↔ (∀ rl ∈ cfg.rules, cfg.slot rl < MAX_RULES) ∧ MAX_METERS < cfg.meter_count.toNat := by
  unfold NtfeConfig.tailVerdict
  by_cases hall : ∀ rl ∈ cfg.rules, cfg.slot rl < MAX_RULES
  · rw [if_pos hall, and_iff_right hall, Except.ok.injEq, decide_eq_false_iff_not, Nat.not_le]
  · rw [if_neg hall]
    exact iff_of_false (by simp) fun h => hall h.1

/-- There is a verdict at all exactly when every slot is in the table. -/
theorem NtfeConfig.tailVerdict_returns (cfg : NtfeConfig) :
    (∃ v, cfg.tailVerdict = .ok v) ↔ ∀ rl ∈ cfg.rules, cfg.slot rl < MAX_RULES := by
  unfold NtfeConfig.tailVerdict
  by_cases hall : ∀ rl ∈ cfg.rules, cfg.slot rl < MAX_RULES
  · rw [if_pos hall]
    exact iff_of_true ⟨_, rfl⟩ hall
  · rw [if_neg hall]
    exact iff_of_false (by simp) hall

/-- The validation returns in both states, with one verdict. -/
def SameVerdict (gs₁ gs₂ : Gs) (cfg : NtfeConfig) (cfg_len : u32) : Prop :=
  ∃ v, ntfeValidateConfiguration gs₁ cfg cfg_len = .ok v
    ∧ ntfeValidateConfiguration gs₂ cfg cfg_len = .ok v

/-- **The verdict is the same in two states** exactly when the image is rejected for its header,
or it collides in both tables before a slot is out of the table, or no slot is and it is rejected
for its meters or collides in neither table. -/
theorem validate_same_iff (gs₁ gs₂ : Gs) (cfg : NtfeConfig) (cfg_len : u32) :
    SameVerdict gs₁ gs₂ cfg cfg_len
      ↔ validateHeader cfg cfg_len = false
        ∨ (cfg.Collides gs₁.toGsRom ∧ cfg.Collides gs₂.toGsRom)
        ∨ (∀ rl ∈ cfg.rules, cfg.slot rl < MAX_RULES)
          ∧ (MAX_METERS < cfg.meter_count.toNat
            ∨ ¬ cfg.Collides gs₁.toGsRom ∧ ¬ cfg.Collides gs₂.toGsRom) := by
  unfold SameVerdict
  cases hh : validateHeader cfg cfg_len with
  | false =>
      rw [ntfeValidateConfiguration_of_header gs₁ hh, ntfeValidateConfiguration_of_header gs₂ hh]
      exact iff_of_true ⟨false, rfl, rfl⟩ (Or.inl rfl)
  | true =>
      have hfalse := cfg.tailVerdict_eq_false
      rw [ntfeValidateConfiguration_eq gs₁ cfg hh, ntfeValidateConfiguration_eq gs₂ cfg hh,
        or_iff_right (by simp)]
      by_cases h1 : cfg.Collides gs₁.toGsRom
      · by_cases h2 : cfg.Collides gs₂.toGsRom
        · rw [if_pos h1, if_pos h2]
          exact iff_of_true ⟨false, rfl, rfl⟩ (Or.inl ⟨h1, h2⟩)
        · -- Where only one collides the other rejects the image for its meters, if at all.
          rw [if_pos h1, if_neg h2, or_iff_right fun h => h2 h.2, or_iff_left fun h => h.1 h1,
            ← hfalse]
          refine ⟨?_, fun h => ⟨false, rfl, h⟩⟩
          rintro ⟨v, hv, htail⟩
          cases hv
          exact htail
      · by_cases h2 : cfg.Collides gs₂.toGsRom
        · rw [if_neg h1, if_pos h2, or_iff_right fun h => h1 h.1, or_iff_left fun h => h.2 h2,
            ← hfalse]
          refine ⟨?_, fun h => ⟨false, h, rfl⟩⟩
          rintro ⟨v, htail, hv⟩
          cases hv
          exact htail
        · rw [if_neg h1, if_neg h2, or_iff_right fun h => h1 h.1,
            and_iff_left (Or.inr ⟨h1, h2⟩), ← cfg.tailVerdict_returns]
          exact exists_congr fun v => and_self_iff

/-- An engine that runs an image accepts no image of the same seed and size that has a rule
in common with it. -/
theorem Applies.rejects {gs : Gs} {cfg cfg' : NtfeConfig} (h : Applies gs cfg)
    (hseed : cfg'.rule_seed = cfg.rule_seed) (hsize : cfg'.hashsz = cfg.hashsz) {rl : NtfeRule}
    (hrl : rl ∈ cfg.rules) (hrl' : rl ∈ cfg'.rules) (cfg_len : u32) :
    ntfeValidateConfiguration gs cfg' cfg_len ≠ .ok true := by
  intro hval
  have hfree := ((ntfeValidateConfiguration_eq_true gs cfg' cfg_len).mp hval).2.1 rl hrl'
  have hholds := h.compiled.complete rl hrl
  rw [h.rule_seed, h.rule_hashsz] at hholds
  rw [NtfeConfig.slot, hseed, hsize] at hfree
  exact hholds.not_free hfree

/-- **On a restart**, an engine that runs an image accepts an extension of it exactly when the
image has no rules and the extension would be accepted at first. -/
theorem Applies.accepts_iff {gs : Gs} {cfg cfg' : NtfeConfig} (h : Applies gs cfg)
    (hseed : cfg'.rule_seed = cfg.rule_seed) (hsize : cfg'.hashsz = cfg.hashsz)
    (hext : ∀ rl ∈ cfg.rules, rl ∈ cfg'.rules) (cfg_len : u32) :
    ntfeValidateConfiguration gs cfg' cfg_len = .ok true
      ↔ cfg.rules = [] ∧ ntfeValidateConfiguration Gs.zero cfg' cfg_len = .ok true := by
  rw [ntfeValidateConfiguration_eq_true Gs.zero]
  constructor
  · intro hval
    obtain ⟨hh, hfree, hm⟩ := (ntfeValidateConfiguration_eq_true gs cfg' cfg_len).mp hval
    refine ⟨List.eq_nil_iff_forall_not_mem.mpr fun rl hrl => ?_, hh, fun rl hrl => ?_, hm⟩
    · exact h.rejects hseed hsize hrl (hext rl hrl) cfg_len hval
    · exact ⟨(hfree rl hrl).lt, rfl⟩
  · rintro ⟨hnil, hh, hfree, hm⟩
    refine (ntfeValidateConfiguration_eq_true gs cfg' cfg_len).mpr ⟨hh, fun rl hrl => ?_, hm⟩
    refine ⟨(hfree rl hrl).lt, ?_⟩
    -- An image without rules leaves every slot empty.
    rcases h.compiled.sound ⟨cfg'.slot rl, (hfree rl hrl).lt⟩ with hz | ⟨r, hr, -, -⟩
    · exact hz
    · rw [hnil] at hr
      cases hr

/-- The state the loader leaves accepts the sample image; an engine that runs it does not. -/
theorem validate_depends_on_state :
    ¬ ∀ (verify : Verify) (gs₁ gs₂ : Gs) (cfg : NtfeConfig) (cfg_len : u32) (v₁ v₂ : Bool),
      Reachable verify gs₁ → Reachable verify gs₂ →
      ntfeValidateConfiguration gs₁ cfg cfg_len = .ok v₁ →
      ntfeValidateConfiguration gs₂ cfg cfg_len = .ok v₂ → v₁ = v₂ := by
  intro hall
  obtain ⟨gs, hconf, happ, -, -⟩ := httpImage_applied
  have hzero : ntfeValidateConfiguration Gs.zero httpImage 126 = .ok true := by
    refine (ntfeValidateConfiguration_eq_true _ _ _).mpr ⟨?_, ?_, ?_⟩ <;> decide +kernel
  have hreach : Reachable (fun _ _ _ => false) gs :=
    (Transition.reaches_refl Gs.zero).snoc (e := .configure quietEnv httpImage 126) hconf
  have hin : ∀ rl ∈ httpImage.rules, httpImage.slot rl < MAX_RULES := by decide +kernel
  have hheader : validateHeader httpImage 126 = true := by decide +kernel
  -- The running engine returns a verdict too, as every slot is in the table.
  obtain ⟨v, hv⟩ : ∃ v, ntfeValidateConfiguration gs httpImage 126 = .ok v := by
    rw [ntfeValidateConfiguration_eq gs httpImage hheader]
    split
    · exact ⟨false, rfl⟩
    · exact httpImage.tailVerdict_returns.mpr hin
  have hsame := hall (fun _ _ _ => false) Gs.zero gs httpImage 126 true v
    (Transition.reaches_refl _) hreach hzero hv
  have hnil := ((happ.accepts_iff rfl rfl (fun _ => id) 126).mp (hsame ▸ hv)).1
  exact absurd hnil (by decide +kernel)

end Ntfw
