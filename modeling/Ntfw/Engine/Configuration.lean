import Ntfw.Engine.Rules
import Ntfw.Host.Insert

set_option autoImplicit false

/-! # Applying a configuration

`ntfe_configure` has three ways to return: the validation rejects the image and nothing has
happened yet; the rule loop fails, after the old configuration has been wiped; or the host
loop ends, with success or without. `ntfeConfigure_ok` is that case distinction. -/

namespace Ntfw

/-! ## The validation -/

/-- The size of an image's rule table, as the engine keeps it. -/
def NtfeConfig.hashsz (cfg : NtfeConfig) : u8 := cfg.rule_hashsz.setWidth 8

/-- The slot of a rule under the seed and the size of its image. -/
def NtfeConfig.slot (cfg : NtfeConfig) (rl : NtfeRule) : Nat := rl.index cfg.rule_seed cfg.hashsz

/-- The slot that a signature is looked up in, under the seed and the size of an image. -/
def NtfeConfig.sigSlot (cfg : NtfeConfig) (fs : FlowSig) : Nat :=
  ruleIndex (ruleHashfn fs cfg.rule_seed) cfg.hashsz

/-- **The validation accepts** an image exactly when its header is good, every rule's slot is
empty in the live table, and the meters fit. -/
theorem ntfeValidateConfiguration_eq_true (gs : Gs) (cfg : NtfeConfig) (cfg_len : u32) :
    ntfeValidateConfiguration gs cfg cfg_len = .ok true
      ↔ validateHeader cfg cfg_len = true
        ∧ (∀ rl ∈ cfg.rules, SlotFree gs.toGsRom (cfg.slot rl))
        ∧ cfg.meter_count.toNat ≤ MAX_METERS := by
  unfold ntfeValidateConfiguration
  cases hh : validateHeader cfg cfg_len with
  | false => simp
  | true =>
      rw [if_neg (by simp), Except.bind_eq_ok]
      constructor
      · rintro ⟨ok, hrules, hrest⟩
        cases ok with
        | false => simp at hrest
        | true =>
            rw [if_neg (by simp)] at hrest
            have hm : ¬ MAX_METERS < cfg.meter_count.toNat := by
              intro hlt
              simp [hlt] at hrest
            exact ⟨rfl, (validateRules_eq_true _ _ _ _).mp hrules, Nat.le_of_not_lt hm⟩
      · rintro ⟨-, hfree, hm⟩
        refine ⟨true, (validateRules_eq_true _ _ _ _).mpr hfree, ?_⟩
        rw [if_neg (by simp), if_neg (Nat.not_lt.mpr hm)]

/-! ## The parts of a configuration -/

/-- The two states have the same rules, meters and key. -/
structure SamePolicy (gs gs' : Gs) : Prop where
  rules : gs'.rules = gs.rules
  rule_seed : gs'.rule_seed = gs.rule_seed
  rule_hashsz : gs'.rule_hashsz = gs.rule_hashsz
  tbdesc : gs'.tbdesc = gs.tbdesc
  pkey : gs'.pkey = gs.pkey

theorem SamePolicy.of_rom {gs gs' : Gs} (h : gs'.toGsRom = gs.toGsRom) : SamePolicy gs gs' := by
  refine ⟨?_, ?_, ?_, ?_, ?_⟩ <;> simp [h]

/-- The two states have the same rules and key. -/
structure SameRules (gs gs' : Gs) : Prop where
  rules : gs'.rules = gs.rules
  rule_seed : gs'.rule_seed = gs.rule_seed
  rule_hashsz : gs'.rule_hashsz = gs.rule_hashsz
  pkey : gs'.pkey = gs.pkey

theorem SamePolicy.sameRules {gs gs' : Gs} (h : SamePolicy gs gs') : SameRules gs gs' :=
  ⟨h.rules, h.rule_seed, h.rule_hashsz, h.pkey⟩

theorem SameRules.compiled {gs gs' : Gs} (h : SameRules gs gs') {rls : List NtfeRule}
    (hc : Compiled gs.toGsRom rls) : Compiled gs'.toGsRom rls := by
  refine ⟨?_, ?_⟩
  · intro i
    rw [h.rules, h.rule_seed, h.rule_hashsz]
    exact hc.sound i
  · intro rl hrl
    rw [h.rule_seed, h.rule_hashsz]
    obtain ⟨hi, hslot⟩ := hc.complete rl hrl
    exact ⟨hi, by rw [h.rules]; exact hslot⟩

/-! ## The loops -/

/-- What the wipe leaves: an empty rule table, no meters, no key, no static host. -/
structure Wiped (gs gs' : Gs) (cfg : NtfeConfig) : Prop where
  hpool : gs'.hpool = gs.hpool
  rules : gs'.rules = fun _ => Rule.zero
  rule_seed : gs'.rule_seed = cfg.rule_seed
  rule_hashsz : gs'.rule_hashsz = cfg.hashsz
  pkey : gs'.pkey = NtfePkey.zero
  swept : ∀ i, Swept (gs.host_tbl i) (gs'.host_tbl i)

theorem resetConfiguration_wiped (gs : Gs) (cfg : NtfeConfig) :
    Wiped gs (resetConfiguration gs cfg) cfg := by
  obtain ⟨gs1, hgs1⟩ : ∃ gs1, gs1 = hostClearStaticallyAuthorized
      { gs with rules := fun _ => Rule.zero, tbdesc := fun _ => TBucketDesc.zero,
                pkey := NtfePkey.zero } := ⟨_, rfl⟩
  obtain ⟨hrom, hswept⟩ := hostClear_spec
    { gs with rules := fun _ => Rule.zero, tbdesc := fun _ => TBucketDesc.zero,
              pkey := NtfePkey.zero }
  rw [← hgs1] at hrom hswept
  simp only [resetConfiguration, ← hgs1]
  have hpool : gs1.hpool = gs.hpool := by rw [hrom]
  exact ⟨hpool, congrArg GsRom.rules hrom, rfl, rfl, congrArg GsRom.pkey hrom, hswept⟩

theorem Wiped.slotFree {gs gs' : Gs} {cfg : NtfeConfig} (h : Wiped gs gs' cfg) (i : Nat) :
    SlotFree gs'.toGsRom i ↔ i < MAX_RULES := by
  refine ⟨fun hf => hf.lt, fun hi => ⟨hi, ?_⟩⟩
  rw [h.rules]
  rfl

theorem loadMeters_ok {gs gs' : Gs} {i : Nat} {ms : List NtfeMeter}
    (h : loadMeters gs i ms = .ok gs') : ∃ tbdesc, gs' = { gs with tbdesc := tbdesc } := by
  induction ms generalizing gs i with
  | nil =>
      cases h
      exact ⟨_, rfl⟩
  | cons m ms ih =>
      rw [loadMeters] at h
      by_cases hi : i < MAX_METERS
      · rw [dif_pos hi] at h
        obtain ⟨tbdesc, hgs'⟩ := ih h
        exact ⟨tbdesc, hgs'⟩
      · rw [dif_neg hi] at h
        cases h

theorem loadMeters_returns (gs : Gs) {i : Nat} {ms : List NtfeMeter}
    (h : i + ms.length ≤ MAX_METERS) : ∃ gs', loadMeters gs i ms = .ok gs' := by
  induction ms generalizing gs i with
  | nil => exact ⟨gs, rfl⟩
  | cons m ms ih =>
      rw [List.length_cons] at h
      rw [loadMeters, dif_pos (by omega)]
      exact ih _ (by omega)

theorem HOST_PRI_STATIC_le : HOST_PRI_STATIC ≤ 3 := by decide

/-- **The rule for the host loop.** What every insertion of a listed host preserves, the loop
preserves. -/
theorem loadHosts_invariant {I : Gs → Prop} {env : Env} {hs : List be32}
    (hstep : ∀ s s' a r, a ∈ hs → I s →
      hostInsertAuthorized env s (hostFetchBucket a) a HOST_PRI_STATIC = (r, s') → I s')
    {gs gs' : Gs} {ok : Bool} (h : loadHosts env gs hs = (ok, gs')) (hI : I gs) : I gs' := by
  induction hs generalizing gs with
  | nil =>
      cases h
      exact hI
  | cons a hs ih =>
      rw [loadHosts] at h
      rcases hr : hostInsertAuthorized env gs (hostFetchBucket a) a HOST_PRI_STATIC with ⟨r, gs1⟩
      rw [hr] at h
      have hI1 : I gs1 := hstep gs gs1 a r List.mem_cons_self hI hr
      cases r with
      | none =>
          -- The host got no slot: the loop ends here, with what it has done so far.
          cases h
          exact hI1
      | some k =>
          exact ih (fun s s' b r hb => hstep s s' b r (List.mem_cons_of_mem a hb)) h hI1

theorem loadHosts_toGsRom {env : Env} {gs gs' : Gs} {hs : List be32} {ok : Bool}
    (h : loadHosts env gs hs = (ok, gs')) : gs'.toGsRom = gs.toGsRom :=
  loadHosts_invariant (I := fun s => s.toGsRom = gs.toGsRom)
    (fun _ _ _ _ _ hs hr => (hostInsertAuthorized_ok HOST_PRI_STATIC_le hr).1.rom.trans hs) h rfl

/-! ## The whole call -/

/-- **The outcomes of `ntfe_configure`.** -/
theorem ntfeConfigure_ok {env : Env} {gs gs' : Gs} {cfg : NtfeConfig} {cfg_len : u32} {ok : Bool}
    (h : ntfeConfigure env gs cfg cfg_len = .ok (ok, gs')) :
    (ntfeValidateConfiguration gs cfg cfg_len = .ok false ∧ ok = false ∧ gs' = gs)
    ∨ (ntfeValidateConfiguration gs cfg cfg_len = .ok true
      ∧ ∃ gs0 loaded gs1, Wiped gs gs0 cfg
        ∧ loadRules gs0 cfg.rule_seed cfg.hashsz cfg.rules = .ok (loaded, gs1)
        ∧ ((loaded = false ∧ ok = false ∧ gs' = gs1)
          ∨ (loaded = true ∧ ∃ gs2, loadMeters gs1 0 cfg.meters = .ok gs2
            ∧ loadHosts env gs2 cfg.hosts = (ok, gs')))) := by
  rw [ntfeConfigure, Except.bind_eq_ok] at h
  obtain ⟨v, hval, h⟩ := h
  cases v with
  | false =>
      cases h
      exact Or.inl ⟨hval, rfl, rfl⟩
  | true =>
      rw [if_neg (by simp), Except.bind_eq_ok] at h
      obtain ⟨⟨loaded, gs1⟩, hload, h⟩ := h
      -- From here on the old configuration is gone, whatever the loops answer.
      refine Or.inr ⟨hval, _, loaded, gs1, resetConfiguration_wiped gs cfg, hload, ?_⟩
      cases loaded with
      | false =>
          cases h
          exact Or.inl ⟨rfl, rfl, rfl⟩
      | true =>
          simp only [Bool.not_true, Bool.false_eq_true, if_false] at h
          obtain ⟨gs2, hmet, h⟩ := Except.bind_eq_ok.mp h
          exact Or.inr ⟨rfl, gs2, hmet, Except.ok.inj h⟩

/-- The rules and the key are final once the rule loop ends. -/
theorem ntfeConfigure_rules {env : Env} {gs gs' : Gs} {cfg : NtfeConfig} {cfg_len : u32}
    {ok : Bool} (h : ntfeConfigure env gs cfg cfg_len = .ok (ok, gs')) :
    (ntfeValidateConfiguration gs cfg cfg_len = .ok false ∧ ok = false ∧ gs' = gs)
    ∨ ∃ gs0 loaded gs1, Wiped gs gs0 cfg
      ∧ loadRules gs0 cfg.rule_seed cfg.hashsz cfg.rules = .ok (loaded, gs1)
      ∧ (ok = true → loaded = true) ∧ SameRules gs1 gs' := by
  rcases ntfeConfigure_ok h with hrej | ⟨-, gs0, loaded, gs1, hw, hload, hcase⟩
  · exact Or.inl hrej
  · refine Or.inr ⟨gs0, loaded, gs1, hw, hload, ?_⟩
    rcases hcase with ⟨-, rfl, rfl⟩ | ⟨rfl, gs2, hmet, hhosts⟩
    · exact ⟨fun hok => absurd hok Bool.false_ne_true, ⟨rfl, rfl, rfl, rfl⟩⟩
    · -- The meter loop writes the meters, the host loop nothing of the configuration.
      have hrom := loadHosts_toGsRom hhosts
      obtain ⟨tbdesc, rfl⟩ := loadMeters_ok hmet
      refine ⟨fun _ => rfl, ?_⟩
      constructor <;> rw [hrom]

/-- An image the engine has applied: its rules are the rule table, under its seed and size,
and the key is wiped. -/
structure Applies (gs : Gs) (cfg : NtfeConfig) : Prop where
  compiled : Compiled gs.toGsRom cfg.rules
  rule_seed : gs.rule_seed = cfg.rule_seed
  rule_hashsz : gs.rule_hashsz = cfg.hashsz
  pkey : gs.pkey = NtfePkey.zero

theorem SameRules.applies {gs gs' : Gs} (h : SameRules gs gs') {cfg : NtfeConfig}
    (ha : Applies gs cfg) : Applies gs' cfg :=
  ⟨h.compiled ha.compiled, h.rule_seed.trans ha.rule_seed, h.rule_hashsz.trans ha.rule_hashsz,
    h.pkey.trans ha.pkey⟩

/-- Lookups go by the seed and the size of the image. -/
theorem Applies.hashFlowsig_eq {gs : Gs} {cfg : NtfeConfig} (h : Applies gs cfg) (fs : FlowSig) :
    hashFlowsig gs.toGsRom fs = cfg.sigSlot fs := by
  rw [hashFlowsig, h.rule_seed, h.rule_hashsz]
  rfl

/-- Every rule of the image is found under its signature, in its compiled form. -/
theorem Applies.finds_rule {gs : Gs} {cfg : NtfeConfig} (h : Applies gs cfg) {rl : NtfeRule}
    (hrl : rl ∈ cfg.rules) : ruleLookup gs.toGsRom rl.compile.fsig = .ok (some rl.compile) :=
  ruleLookup_eq_some.mpr ⟨h.compiled.complete rl hrl, rfl⟩

/-- A rule table loaded into a wiped state is the compiled form of the rules. -/
theorem Wiped.applies {gs gs0 gs1 : Gs} {cfg : NtfeConfig} (hw : Wiped gs gs0 cfg)
    (h : loadRules gs0 cfg.rule_seed cfg.hashsz cfg.rules = .ok (true, gs1)) :
    Applies gs1 cfg := by
  obtain ⟨hloaded, -, hall, -⟩ := loadRules_ok h
  have horigin := hloaded.origin
  -- The loop writes the rule table only, so seed, size and key are those of the wipe.
  obtain ⟨rules, rfl⟩ := hloaded.frame
  refine ⟨⟨?_, ?_⟩, hw.rule_seed, hw.rule_hashsz, hw.pkey⟩
  · intro i
    rcases horigin i with heq | ⟨rl, hrl, hcomp, hidx⟩
    · rw [heq, hw.rules]
      exact Or.inl rfl
    · refine Or.inr ⟨rl, hrl, hcomp, ?_⟩
      show rl.index gs0.rule_seed gs0.rule_hashsz = i
      rw [hw.rule_seed, hw.rule_hashsz]
      exact hidx
  · intro rl hrl
    obtain ⟨hi, hslot⟩ := hall rfl rl hrl
    show SlotHolds _ (rl.index gs0.rule_seed gs0.rule_hashsz) rl.compile
    rw [hw.rule_seed, hw.rule_hashsz]
    exact ⟨hi, hslot⟩

/-- **A call that succeeds applies its image.** -/
theorem ntfeConfigure_applies {env : Env} {gs gs' : Gs} {cfg : NtfeConfig} {cfg_len : u32}
    (h : ntfeConfigure env gs cfg cfg_len = .ok (true, gs')) : Applies gs' cfg := by
  rcases ntfeConfigure_rules h with ⟨-, hok, -⟩ | ⟨gs0, loaded, gs1, hw, hload, hok, hsame⟩
  · cases hok
  · obtain rfl := hok rfl
    exact hsame.applies (hw.applies hload)

/-- The rules of an image go to different slots. -/
def NtfeConfig.SlotsDistinct (cfg : NtfeConfig) : Prop :=
  cfg.rules.Pairwise fun a b => cfg.slot a ≠ cfg.slot b

instance (cfg : NtfeConfig) : Decidable cfg.SlotsDistinct :=
  inferInstanceAs (Decidable (List.Pairwise _ _))

/-- In the wiped table, different slots are all the rules need. -/
theorem Wiped.loadable_iff {gs gs0 : Gs} {cfg : NtfeConfig} (hw : Wiped gs gs0 cfg)
    (hin : ∀ rl ∈ cfg.rules, cfg.slot rl < MAX_RULES) :
    Loadable gs0.toGsRom cfg.rule_seed cfg.hashsz cfg.rules ↔ cfg.SlotsDistinct := by
  refine ⟨fun h => h.distinct, fun h => ⟨?_, h⟩⟩
  intro rl hrl
  exact (hw.slotFree _).mpr (hin rl hrl)

/-- **A validated image** is applied up to its hosts if its rules go to different slots. -/
theorem ntfeConfigure_of_distinct {gs : Gs} {cfg : NtfeConfig} {cfg_len : u32} (env : Env)
    (hval : ntfeValidateConfiguration gs cfg cfg_len = .ok true) (hdist : cfg.SlotsDistinct) :
    ∃ gs2, Applies gs2 cfg ∧ (∀ i, Swept (gs.host_tbl i) (gs2.host_tbl i))
      ∧ gs2.hpool = gs.hpool
      ∧ ntfeConfigure env gs cfg cfg_len = .ok (loadHosts env gs2 cfg.hosts) := by
  obtain ⟨-, hfree, hmeters⟩ := (ntfeValidateConfiguration_eq_true gs cfg cfg_len).mp hval
  obtain ⟨gs0, hgs0⟩ : ∃ gs0, gs0 = resetConfiguration gs cfg := ⟨_, rfl⟩
  have hw := resetConfiguration_wiped gs cfg
  rw [← hgs0] at hw
  -- The validation looked at the live table, but its bound on the slots holds of any table.
  obtain ⟨ok, gs1, hload⟩ := loadRules_returns gs0 fun rl hrl => (hfree rl hrl).lt
  obtain rfl : ok = true :=
    (loadRules_ok hload).2.1.mpr ((hw.loadable_iff fun rl hrl => (hfree rl hrl).lt).mpr hdist)
  have hlen : 0 + cfg.meters.length ≤ MAX_METERS := by simpa [NtfeConfig.meters] using hmeters
  obtain ⟨gs2, hmet⟩ := loadMeters_returns gs1 hlen
  have happ := hw.applies hload
  have heq : ntfeConfigure env gs cfg cfg_len = .ok (loadHosts env gs2 cfg.hosts) := by
    rw [ntfeConfigure, hval, ← hgs0]
    exact Except.bind_eq_ok.mpr ⟨true, rfl, Except.bind_eq_ok.mpr ⟨(true, gs1), hload,
      Except.bind_eq_ok.mpr ⟨gs2, hmet, rfl⟩⟩⟩
  have hframe : Applies gs2 cfg ∧ gs2.host_tbl = gs0.host_tbl ∧ gs2.hpool = gs0.hpool := by
    obtain ⟨rules, rfl⟩ := (loadRules_ok hload).1.frame
    obtain ⟨tbdesc, rfl⟩ := loadMeters_ok hmet
    exact ⟨⟨⟨happ.compiled.sound, happ.compiled.complete⟩, happ.rule_seed, happ.rule_hashsz,
      happ.pkey⟩, rfl, rfl⟩
  obtain ⟨happ2, htbl, hpool⟩ := hframe
  refine ⟨gs2, happ2, ?_, hpool.trans hw.hpool, heq⟩
  intro i
  rw [htbl]
  exact hw.swept i

/-- Without hosts that is all. -/
theorem ntfeConfigure_without_hosts {gs : Gs} {cfg : NtfeConfig} {cfg_len : u32} (env : Env)
    (hval : ntfeValidateConfiguration gs cfg cfg_len = .ok true) (hdist : cfg.SlotsDistinct)
    (hhosts : cfg.hosts = []) :
    ∃ gs', ntfeConfigure env gs cfg cfg_len = .ok (true, gs') ∧ Applies gs' cfg
      ∧ (∀ i, Swept (gs.host_tbl i) (gs'.host_tbl i)) ∧ gs'.hpool = gs.hpool := by
  obtain ⟨gs2, happ, hswept, hpool, heq⟩ := ntfeConfigure_of_distinct env hval hdist
  rw [hhosts] at heq
  exact ⟨gs2, heq, happ, hswept, hpool⟩

/-- A validated image two of whose rules go to one slot is given up after the wipe; the first
rule is in the table then. -/
theorem ntfeConfigure_of_not_distinct {gs : Gs} {cfg : NtfeConfig} {cfg_len : u32} (env : Env)
    (hval : ntfeValidateConfiguration gs cfg cfg_len = .ok true) (hdist : ¬ cfg.SlotsDistinct) :
    ∃ gs1, ntfeConfigure env gs cfg cfg_len = .ok (false, gs1) := by
  obtain ⟨-, hfree, -⟩ := (ntfeValidateConfiguration_eq_true gs cfg cfg_len).mp hval
  obtain ⟨gs0, hgs0⟩ : ∃ gs0, gs0 = resetConfiguration gs cfg := ⟨_, rfl⟩
  have hw := resetConfiguration_wiped gs cfg
  rw [← hgs0] at hw
  obtain ⟨ok, gs1, hload⟩ := loadRules_returns gs0 fun rl hrl => (hfree rl hrl).lt
  have hok : ok = false := by
    cases ok with
    | false => rfl
    | true =>
        have hl := (loadRules_ok hload).2.1.mp rfl
        exact absurd ((hw.loadable_iff fun rl hrl => (hfree rl hrl).lt).mp hl) hdist
  subst hok
  refine ⟨gs1, ?_⟩
  rw [ntfeConfigure, hval, ← hgs0]
  exact Except.bind_eq_ok.mpr ⟨true, rfl, Except.bind_eq_ok.mpr ⟨(false, gs1), hload, rfl⟩⟩

/-- Whatever comes of a call, the table holds nothing but compiled rules. -/
theorem ntfeConfigure_marked {env : Env} {gs gs' : Gs} {cfg : NtfeConfig} {cfg_len : u32}
    {ok : Bool} (h : ntfeConfigure env gs cfg cfg_len = .ok (ok, gs')) (hm : Marked gs.toGsRom) :
    Marked gs'.toGsRom := by
  rcases ntfeConfigure_rules h with ⟨-, -, rfl⟩ | ⟨gs0, loaded, gs1, hw, hload, -, hsame⟩
  · exact hm
  · intro i
    rw [hsame.rules]
    rcases (loadRules_ok hload).1.origin i with heq | ⟨rl, -, hcomp, -⟩
    · rw [heq, hw.rules]
      exact Or.inl rfl
    · exact Or.inr ⟨rl, hcomp⟩

/-- Whatever comes of a call, the key is the one before or wiped. -/
theorem ntfeConfigure_pkey {env : Env} {gs gs' : Gs} {cfg : NtfeConfig} {cfg_len : u32} {ok : Bool}
    (h : ntfeConfigure env gs cfg cfg_len = .ok (ok, gs')) :
    gs'.pkey = gs.pkey ∨ gs'.pkey = NtfePkey.zero := by
  rcases ntfeConfigure_rules h with ⟨-, -, rfl⟩ | ⟨gs0, loaded, gs1, hw, hload, -, hsame⟩
  · exact Or.inl rfl
  · obtain ⟨rules, rfl⟩ := (loadRules_ok hload).1.frame
    exact Or.inr (hsame.pkey.trans hw.pkey)

/-- The first rule of a validated image is in the table after the call, even if it failed. -/
theorem ntfeConfigure_first_rule {env : Env} {gs gs' : Gs} {cfg : NtfeConfig} {cfg_len : u32}
    {ok : Bool} {rl : NtfeRule} (h : ntfeConfigure env gs cfg cfg_len = .ok (ok, gs'))
    (hval : ntfeValidateConfiguration gs cfg cfg_len = .ok true) (hrl : rl ∈ cfg.rules.head?) :
    SlotHolds gs'.toGsRom (cfg.slot rl) rl.compile := by
  have hfree := ((ntfeValidateConfiguration_eq_true gs cfg cfg_len).mp hval).2.1 rl
    (List.mem_of_mem_head? hrl)
  rcases ntfeConfigure_rules h with ⟨hrej, -, -⟩ | ⟨gs0, loaded, gs1, hw, hload, -, hsame⟩
  · rw [hval] at hrej
    cases hrej
  · obtain ⟨hi, hslot⟩ := (loadRules_ok hload).2.2.2 rl hrl ((hw.slotFree _).mpr hfree.lt)
    exact ⟨hi, by rw [hsame.rules]; exact hslot⟩

end Ntfw
