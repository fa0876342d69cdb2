import Ntfw.Engine.Validator

set_option autoImplicit false

/-! # The indices of the rule table

The table has `MAX_RULES` slots, and a slot is selected by masking a hash with
`(1 << rule_hashsz) - 1`. The validator bounds the shift itself, in signed arithmetic: a
count of 31 yields the most negative integer, which is below every bound. -/

namespace Ntfw

/-! ## The mask -/

theorem toNat_shl32_one (n : Nat) : (shl32 1 n).toNat = 2 ^ (n % 32) := by
  have hn : n % 32 < 32 := Nat.mod_lt n (by decide)
  have hlt : 2 ^ (n % 32) < 2 ^ 32 := Nat.pow_lt_pow_right (by decide) hn
  show ((1 : u32) <<< (n % 32)).toNat = _
  rw [BitVec.toNat_shiftLeft, Nat.shiftLeft_eq]
  show 1 * 2 ^ (n % 32) % 2 ^ 32 = _
  rw [Nat.one_mul, Nat.mod_eq_of_lt hlt]

theorem toNat_mask (n : Nat) : (shl32 1 n - 1).toNat = 2 ^ (n % 32) - 1 := by
  have hone : (1 : u32) ≤ shl32 1 n := by
    show 1 ≤ (shl32 1 n).toNat
    rw [toNat_shl32_one]
    exact Nat.one_le_two_pow
  rw [BitVec.toNat_sub_of_le hone, toNat_shl32_one]
  rfl

theorem ruleIndex_lt_of_le {hashsz : u8} (h : hashsz.toNat % 32 ≤ 7) (hash : u16) :
    ruleIndex hash hashsz < MAX_RULES := by
  have hpow : 2 ^ (hashsz.toNat % 32) ≤ 2 ^ 7 := Nat.pow_le_pow_right (by decide) h
  have hpos : 0 < 2 ^ (hashsz.toNat % 32) := Nat.two_pow_pos _
  calc ruleIndex hash hashsz
      ≤ (shl32 1 hashsz.toNat - 1).toNat := by
        rw [ruleIndex, BitVec.toNat_and]
        exact Nat.and_le_right
    _ = 2 ^ (hashsz.toNat % 32) - 1 := toNat_mask _
    _ < 2 ^ 7 := by omega
    _ = MAX_RULES := by decide

/-- With a count of 31 the mask keeps the whole hash. -/
theorem ruleIndex_of_31 {hashsz : u8} (h : hashsz.toNat % 32 = 31) (hash : u16) :
    ruleIndex hash hashsz = hash.toNat := by
  have hmask : shl32 1 hashsz.toNat - 1 = BitVec.ofNat 32 (2 ^ 31 - 1) := by
    apply BitVec.eq_of_toNat_eq
    rw [toNat_mask, h]
    rfl
  have hlt : hash.toNat < 2 ^ 31 := Nat.lt_trans hash.isLt (by decide)
  rw [ruleIndex, hmask, BitVec.toNat_and, BitVec.toNat_setWidth, BitVec.toNat_ofNat,
    Nat.mod_eq_of_lt (by omega), Nat.mod_eq_of_lt (by decide), Nat.and_two_pow_sub_one_eq_mod,
    Nat.mod_eq_of_lt hlt]

/-- What the validator's comparison lets through. -/
theorem shl32_check (n : Nat) :
    ¬ (MAX_RULES : Int) < (shl32 1 n).toInt ↔ n % 32 ≤ 7 ∨ n % 32 = 31 := by
  have hall : ∀ k < 32, ¬ (MAX_RULES : Int) < ((1 : u32) <<< k).toInt ↔ k ≤ 7 ∨ k = 31 := by
    decide
  exact hall (n % 32) (Nat.mod_lt n (by decide))

theorem validateHeader_hashsz {cfg : NtfeConfig} {cfg_len : u32}
    (h : validateHeader cfg cfg_len = true) :
    cfg.rule_hashsz.toNat % 32 ≤ 7 ∨ cfg.rule_hashsz.toNat % 32 = 31 := by
  rw [← shl32_check]
  intro hbig
  have hsize : decide ((MAX_RULES : Int) < (shl32 1 cfg.rule_hashsz.toNat).toInt) = true :=
    decide_eq_true hbig
  unfold validateHeader at h
  rw [hsize] at h
  simp at h

theorem hashsz_mod (cfg : NtfeConfig) : cfg.hashsz.toNat % 32 = cfg.rule_hashsz.toNat % 32 := by
  rw [NtfeConfig.hashsz, BitVec.toNat_setWidth]
  omega

/-! ## Hashes that select no slot -/

theorem sub_sub_self32 (x y : u32) : x - (x - y) = y := by
  apply BitVec.eq_of_toNat_eq
  rw [BitVec.toNat_sub, BitVec.toNat_sub]
  have := x.isLt
  have := y.isLt
  omega

/-- The hash multiplies the signature by an odd number and adds the seed: every seed has a
signature with the same hash as a given pair. -/
theorem exists_ruleHashfn (seed y : u32) :
    ∃ fs : FlowSig, ruleHashfn fs seed = ruleHashfn 0 (y - 0x165667B5) := by
  have hinv : (1465984747 : u32) * 0x3D4D51C3 = 1 := by decide
  refine ⟨(seed + 0x165667B5 - y) * 1465984747, ?_⟩
  have hsum : seed + 0x165667B5 - (seed + 0x165667B5 - y) * 1465984747 * 0x3D4D51C3
      = y - 0x165667B5 + 0x165667B5 - 0 * 0x3D4D51C3 := by
    have hone : (seed + 0x165667B5 - y) * (1465984747 * 0x3D4D51C3)
        = seed + 0x165667B5 - y := by
      rw [hinv]
      exact BitVec.mul_one _
    have hzero : (0 : u32) * 0x3D4D51C3 = 0 := by decide
    rw [BitVec.mul_assoc, hone, sub_sub_self32, hzero, BitVec.sub_add_cancel]
    exact (BitVec.sub_zero y).symm
  unfold ruleHashfn
  rw [hsum]

/-- **Under a count of 31** every seed has a signature whose slot is not in the table. -/
theorem exists_hashFlowsig_ge (gs : GsRom) (h : gs.rule_hashsz.toNat % 32 = 31) :
    ∃ fs, MAX_RULES ≤ hashFlowsig gs fs := by
  obtain ⟨fs, hfs⟩ := exists_ruleHashfn gs.rule_seed 1
  refine ⟨fs, ?_⟩
  rw [hashFlowsig, ruleIndex_of_31 h, hfs]
  decide

/-! ## The whole engine -/

/-- **No index leaves the table**, in the validation of an image, in the call that configures
it, and in any lookup from then to the next configuration. -/
structure IndicesInBounds (verify : Verify) (env : Env) (gs : Gs) (cfg : NtfeConfig)
    (cfg_len : u32) : Prop where
  slot : ∀ rl ∈ cfg.rules, cfg.slot rl < MAX_RULES
  validate : ntfeValidateConfiguration gs cfg cfg_len ≠ .error .outOfBounds
  configure : ntfeConfigure env gs cfg cfg_len ≠ .error .outOfBounds
  lookup : ∀ ok gs₁ calls gs₂, ntfeConfigure env gs cfg cfg_len = .ok (ok, gs₁) →
    NoConfigure calls → Transition.run (engineStep verify) gs₁ calls = .ok gs₂ →
    ∀ fs, hashFlowsig gs₂.toGsRom fs < MAX_RULES

/-- The table size is that of the image, whether the call succeeds or not. -/
theorem ntfeConfigure_hashsz {env : Env} {gs gs' : Gs} {cfg : NtfeConfig} {cfg_len : u32}
    {ok : Bool} (h : ntfeConfigure env gs cfg cfg_len = .ok (ok, gs'))
    (hval : ntfeValidateConfiguration gs cfg cfg_len ≠ .ok false) :
    gs'.rule_hashsz = cfg.hashsz := by
  rcases ntfeConfigure_rules h with ⟨hrej, -, -⟩ | ⟨gs0, loaded, gs1, hw, hload, -, hsame⟩
  · exact absurd hrej hval
  · obtain ⟨rules, rfl⟩ := (loadRules_ok hload).1.frame
    exact hsame.rule_hashsz.trans hw.rule_hashsz

/-- A validated image is configured without a stray access. -/
theorem ntfeConfigure_returns {gs : Gs} {cfg : NtfeConfig} {cfg_len : u32} (env : Env)
    (hval : ntfeValidateConfiguration gs cfg cfg_len = .ok true) :
    ∃ ok gs', ntfeConfigure env gs cfg cfg_len = .ok (ok, gs') := by
  by_cases hdist : cfg.SlotsDistinct
  · obtain ⟨gs2, -, -, -, heq⟩ := ntfeConfigure_of_distinct env hval hdist
    exact ⟨_, _, heq⟩
  · obtain ⟨gs1, heq⟩ := ntfeConfigure_of_not_distinct env hval hdist
    exact ⟨false, gs1, heq⟩

/-- The validation returns if every slot is in the table. -/
theorem ntfeValidateConfiguration_returns (gs : Gs) {cfg : NtfeConfig} (cfg_len : u32)
    (hslot : ∀ rl ∈ cfg.rules, cfg.slot rl < MAX_RULES) :
    ∃ ok, ntfeValidateConfiguration gs cfg cfg_len = .ok ok := by
  cases hh : validateHeader cfg cfg_len with
  | false => exact ⟨false, ntfeValidateConfiguration_of_header gs hh⟩
  | true =>
      rw [ntfeValidateConfiguration_eq gs cfg hh]
      by_cases hcol : cfg.Collides gs.toGsRom
      · exact ⟨false, if_pos hcol⟩
      · refine ⟨decide (cfg.meter_count.toNat ≤ MAX_METERS), (if_neg hcol).trans ?_⟩
        exact if_pos hslot

/-- **Exactly the count of 31 slips through.** For an image the validation does not reject (it
accepts it, or it has itself left the table), every index is in bounds if and only if
`rule_hashsz` is not 31 modulo 32. -/
theorem indicesInBounds_iff (verify : Verify) (env : Env) (gs : Gs) (cfg : NtfeConfig)
    (cfg_len : u32) (hval : ntfeValidateConfiguration gs cfg cfg_len ≠ .ok false) :
    IndicesInBounds verify env gs cfg cfg_len ↔ cfg.rule_hashsz.toNat % 32 ≠ 31 := by
  have hheader : validateHeader cfg cfg_len = true := by
    cases hh : validateHeader cfg cfg_len with
    | false => exact absurd (ntfeValidateConfiguration_of_header gs hh) hval
    | true => rfl
  constructor
  · intro hin h31
    obtain ⟨ok, hok⟩ := ntfeValidateConfiguration_returns gs cfg_len hin.slot
    obtain rfl : ok = true := by
      cases ok with
      | true => rfl
      | false => exact absurd hok hval
    obtain ⟨ok, gs', hconf⟩ := ntfeConfigure_returns env hok
    have hsz := ntfeConfigure_hashsz hconf hval
    -- The signature that leaves the table depends on the seed alone, so no rule is needed.
    obtain ⟨fs, hfs⟩ := exists_hashFlowsig_ge gs'.toGsRom
      (by rw [hsz, hashsz_mod]; exact h31)
    have hlt := hin.lookup ok gs' [] gs' hconf noConfigure_nil rfl fs
    omega
  · intro h31
    have h7 := (validateHeader_hashsz hheader).resolve_right h31
    rw [← hashsz_mod] at h7
    have hslot : ∀ rl ∈ cfg.rules, cfg.slot rl < MAX_RULES :=
      fun rl _ => ruleIndex_lt_of_le h7 _
    obtain ⟨ok, hok⟩ := ntfeValidateConfiguration_returns gs cfg_len hslot
    obtain rfl : ok = true := by
      cases ok with
      | true => rfl
      | false => exact absurd hok hval
    obtain ⟨ok', gs', hconf⟩ := ntfeConfigure_returns env hok
    refine ⟨hslot, by rw [hok]; simp, by rw [hconf]; simp, ?_⟩
    intro ok₁ gs₁ calls gs₂ h₁ hcalls hrun fs
    have hsz : gs₂.rule_hashsz = cfg.hashsz :=
      (run_samePolicy hcalls hrun).rule_hashsz.trans (ntfeConfigure_hashsz h₁ hval)
    exact ruleIndex_lt_of_le (by rw [hsz]; exact h7) _

/-- An image without rules, with the given table size. -/
def emptyImage (hashsz : byte) : NtfeConfig :=
  Mem.ofBytes ([0, 0, 0, 0, 1, 0, 100, 0] ++ List.replicate 76 0 ++ [hashsz]
    ++ List.replicate 15 0)

theorem emptyImage_validated (hashsz : byte) (h : hashsz = 7 ∨ hashsz = 31) :
    ntfeValidateConfiguration Gs.zero (emptyImage hashsz) 100 = .ok true := by
  refine (ntfeValidateConfiguration_eq_true _ _ _).mpr ⟨?_, ?_, ?_⟩
  · rcases h with rfl | rfl <;> decide
  · rcases h with rfl | rfl <;> decide
  · rcases h with rfl | rfl <;> decide

/-- The indices under the largest table the engine has. -/
theorem indicesInBounds_at_7 :
    IndicesInBounds (fun _ _ _ => false) quietEnv Gs.zero (emptyImage 7) 100 :=
  (indicesInBounds_iff _ quietEnv Gs.zero (emptyImage 7) 100
    (by rw [emptyImage_validated 7 (Or.inl rfl)]; simp)).mpr (by decide +kernel)

/-- With `rule_hashsz = 31` the validation accepts the image, the engine applies it, and some
frame's lookup leaves the table. -/
theorem indicesInBounds_fails_at_31 :
    ntfeValidateConfiguration Gs.zero (emptyImage 31) 100 = .ok true
    ∧ (∃ gs, ntfeConfigure quietEnv Gs.zero (emptyImage 31) 100 = .ok (true, gs)
      ∧ ∃ fs, ruleLookup gs.toGsRom fs = .error .outOfBounds)
    ∧ ¬ IndicesInBounds (fun _ _ _ => false) quietEnv Gs.zero (emptyImage 31) 100 := by
  have hval := emptyImage_validated 31 (Or.inr rfl)
  obtain ⟨gs, hconf, -⟩ := ntfeConfigure_without_hosts quietEnv hval (by decide +kernel)
    (by decide +kernel)
  have hsz := ntfeConfigure_hashsz hconf (by rw [hval]; simp)
  obtain ⟨fs, hfs⟩ := exists_hashFlowsig_ge gs.toGsRom (by rw [hsz]; decide +kernel)
  refine ⟨hval, ⟨gs, hconf, fs, ?_⟩, ?_⟩
  · rw [ruleLookup, dif_neg (Nat.not_lt.mpr hfs)]
  · intro hin
    have hlt := hin.lookup true gs [] gs hconf noConfigure_nil rfl fs
    omega

end Ntfw
