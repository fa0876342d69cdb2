import Ntfw.Engine.Signature
import Ntfw.Lib.Transition
import Mathlib.Data.List.TakeWhile

set_option autoImplicit false

/-! # The rule table

A direct-mapped table: a rule's slot is a hash of its signature, a slot is empty when its
signature is zero, and an insertion into a slot that is not empty fails. `Compiled` says that
the table is exactly the compiled form of a list of rules, and `Compiled.finds_iff` what
lookups then answer. A lookup whose slot is out of the table answers nothing at all. -/

namespace Ntfw

/-! ## Slots -/

/-- The slot `i` is in the table and empty. -/
def SlotFree (gs : GsRom) (i : Nat) : Prop :=
  ∃ h : i < MAX_RULES, (gs.rules ⟨i, h⟩).fsig = 0

/-- The slot `i` is in the table and holds the compiled rule. -/
def SlotHolds (gs : GsRom) (i : Nat) (rl : Rule) : Prop :=
  ∃ h : i < MAX_RULES, gs.rules ⟨i, h⟩ = rl

instance (gs : GsRom) (i : Nat) : Decidable (SlotFree gs i) :=
  if h : i < MAX_RULES then
    decidable_of_iff ((gs.rules ⟨i, h⟩).fsig = 0) ⟨fun h0 => ⟨h, h0⟩, fun ⟨_, h0⟩ => h0⟩
  else .isFalse (fun ⟨hi, _⟩ => h hi)

theorem SlotFree.lt {gs : GsRom} {i : Nat} (h : SlotFree gs i) : i < MAX_RULES := h.1

theorem SlotHolds.not_free {gs : GsRom} {i : Nat} {rl : NtfeRule}
    (h : SlotHolds gs i rl.compile) : ¬ SlotFree gs i := by
  obtain ⟨hi, hrl⟩ := h
  rintro ⟨_, h0⟩
  rw [hrl] at h0
  exact compile_fsig_ne_zero rl h0

/-! ## Insertion -/

/-- What a (non-test) insertion does: it needs an empty slot, and fills it. -/
theorem ruleInsert_ok {gs gs' : Gs} {rl : NtfeRule} {seed : u32} {hashsz : u8} {ok : Bool}
    (h : ruleInsert gs rl seed hashsz false = .ok (ok, gs')) :
    (ok = false ∧ ¬ SlotFree gs.toGsRom (rl.index seed hashsz) ∧ gs' = gs)
    ∨ ∃ hi : rl.index seed hashsz < MAX_RULES,
        ok = true ∧ (gs.rules ⟨rl.index seed hashsz, hi⟩).fsig = 0
        ∧ gs' = { gs with
            rules := Function.update gs.rules ⟨rl.index seed hashsz, hi⟩ rl.compile } := by
  unfold ruleInsert at h
  split at h
  · rename_i hi
    simp only at h
    split at h
    · rename_i h0
      cases h
      exact Or.inl ⟨rfl, fun ⟨_, hz⟩ => h0 hz, rfl⟩
    · rename_i h0
      rw [if_neg (by simp)] at h
      cases h
      exact Or.inr ⟨hi, rfl, not_not.mp h0, rfl⟩
  · cases h

/-- The test answers whether the slot is empty, and changes nothing. -/
theorem ruleInsert_test {gs : Gs} {rl : NtfeRule} {seed : u32} {hashsz : u8} :
    ruleInsert gs rl seed hashsz true
      = if rl.index seed hashsz < MAX_RULES
        then .ok (decide (SlotFree gs.toGsRom (rl.index seed hashsz)), gs)
        else .error .outOfBounds := by
  unfold ruleInsert
  by_cases hi : rl.index seed hashsz < MAX_RULES
  · rw [dif_pos hi, if_pos hi]
    by_cases h0 : (gs.rules ⟨rl.index seed hashsz, hi⟩).fsig = 0
    · have hfree : SlotFree gs.toGsRom (rl.index seed hashsz) := ⟨hi, h0⟩
      simp [h0, hfree]
    · have hfree : ¬ SlotFree gs.toGsRom (rl.index seed hashsz) := fun ⟨_, hz⟩ => h0 hz
      rw [decide_eq_false hfree]
      exact if_pos h0
  · rw [dif_neg hi, if_neg hi]

/-! ## The rule loop of a load -/

/-- The rules can be placed one after another: every slot is empty, and no two are the same. -/
structure Loadable (gs : GsRom) (seed : u32) (hashsz : u8) (rls : List NtfeRule) : Prop where
  free : ∀ rl ∈ rls, SlotFree gs (rl.index seed hashsz)
  distinct : rls.Pairwise fun a b => a.index seed hashsz ≠ b.index seed hashsz

/-- What the rule loop makes of the table. -/
structure RulesLoaded (gs gs' : Gs) (seed : u32) (hashsz : u8) (rls : List NtfeRule) : Prop where
  /-- Only the rule table is written. -/
  frame : ∃ rules, gs' = { gs with rules := rules }
  /-- A slot that is not empty stays. -/
  keep : ∀ i, (gs.rules i).fsig ≠ 0 → gs'.rules i = gs.rules i
  /-- What is new is a rule of the list, in its slot. -/
  origin : ∀ i, gs'.rules i = gs.rules i
    ∨ ∃ rl ∈ rls, gs'.rules i = rl.compile ∧ rl.index seed hashsz = i

/-- The state once the rule at the head of the list is in its slot. -/
theorem slotFree_update {gs : Gs} {rl : NtfeRule} {n : Nat} {hn : n < MAX_RULES} (i : Nat) :
    SlotFree { gs with rules := Function.update gs.rules ⟨n, hn⟩ rl.compile }.toGsRom i
      ↔ SlotFree gs.toGsRom i ∧ n ≠ i := by
  constructor
  · rintro ⟨hlt, hz⟩
    by_cases heq : n = i
    · subst heq
      simp only [Function.update_self] at hz
      exact absurd hz (compile_fsig_ne_zero rl)
    · have hne : (⟨i, hlt⟩ : Fin MAX_RULES) ≠ ⟨n, hn⟩ := fun hc => heq (congrArg Fin.val hc).symm
      simp only [Function.update_of_ne hne] at hz
      exact ⟨⟨hlt, hz⟩, heq⟩
  · rintro ⟨⟨hlt, hz⟩, hne⟩
    refine ⟨hlt, ?_⟩
    have hne' : (⟨i, hlt⟩ : Fin MAX_RULES) ≠ ⟨n, hn⟩ := fun hc => hne (congrArg Fin.val hc).symm
    simp only [Function.update_of_ne hne']
    exact hz

theorem Loadable.of_cons {gs : Gs} {rl : NtfeRule} {rls : List NtfeRule} {seed : u32}
    {hashsz : u8} {hi : rl.index seed hashsz < MAX_RULES}
    (h0 : (gs.rules ⟨rl.index seed hashsz, hi⟩).fsig = 0) :
    Loadable gs.toGsRom seed hashsz (rl :: rls)
      ↔ Loadable { gs with
          rules := Function.update gs.rules ⟨rl.index seed hashsz, hi⟩ rl.compile }.toGsRom
          seed hashsz rls := by
  constructor
  · rintro ⟨hfree, hdist⟩
    obtain ⟨hhead, htail⟩ := List.pairwise_cons.mp hdist
    exact ⟨fun r hr => (slotFree_update _).mpr ⟨hfree r (List.mem_cons_of_mem _ hr), hhead r hr⟩,
      htail⟩
  · rintro ⟨hfree, hdist⟩
    refine ⟨?_, List.pairwise_cons.mpr
      ⟨fun r hr => ((slotFree_update _).mp (hfree r hr)).2, hdist⟩⟩
    intro r hr
    rcases List.mem_cons.mp hr with rfl | hr
    · exact ⟨hi, h0⟩
    · exact ((slotFree_update _).mp (hfree r hr)).1

/-- **The rule loop** succeeds exactly on loadable rules, and then every one of them is in
its slot; in either case the first rule is, if its slot was empty. -/
theorem loadRules_ok {gs gs' : Gs} {seed : u32} {hashsz : u8} {rls : List NtfeRule} {ok : Bool}
    (h : loadRules gs seed hashsz rls = .ok (ok, gs')) :
    RulesLoaded gs gs' seed hashsz rls
    ∧ (ok = true ↔ Loadable gs.toGsRom seed hashsz rls)
    ∧ (ok = true → ∀ rl ∈ rls, SlotHolds gs'.toGsRom (rl.index seed hashsz) rl.compile)
    ∧ (∀ rl ∈ rls.head?, SlotFree gs.toGsRom (rl.index seed hashsz) →
        SlotHolds gs'.toGsRom (rl.index seed hashsz) rl.compile) := by
  induction rls generalizing gs with
  | nil =>
      cases h
      refine ⟨⟨⟨_, rfl⟩, fun _ _ => rfl, fun _ => Or.inl rfl⟩, ?_, by simp, by simp⟩
      exact iff_of_true rfl ⟨by simp, List.Pairwise.nil⟩
  | cons rl rls ih =>
      rw [loadRules, Except.bind_eq_ok] at h
      obtain ⟨⟨ok1, gs1⟩, hins, hrest⟩ := h
      rcases ruleInsert_ok hins with ⟨rfl, hnot, rfl⟩ | ⟨hi, rfl, h0, rfl⟩
      · -- The slot is taken: the load stops here.
        cases hrest
        refine ⟨⟨⟨_, rfl⟩, fun _ _ => rfl, fun _ => Or.inl rfl⟩, ?_, by simp, ?_⟩
        · exact iff_of_false Bool.false_ne_true fun hl => hnot (hl.free rl List.mem_cons_self)
        · intro r hr hfree
          obtain rfl : rl = r := Option.some.inj hr
          exact absurd hfree hnot
      · -- The head is placed; it is not empty any more, so the rest of the load keeps it.
        obtain ⟨⟨hframe, hkeep, horigin⟩, hiff, hall, -⟩ := ih hrest
        have hself : SlotHolds gs'.toGsRom (rl.index seed hashsz) rl.compile := by
          refine ⟨hi, ?_⟩
          rw [hkeep _ (by simpa using compile_fsig_ne_zero rl)]
          simp
        refine ⟨⟨hframe, ?_, ?_⟩, ?_, ?_, ?_⟩
        · intro i hne
          have hidx : i ≠ ⟨rl.index seed hashsz, hi⟩ := by
            rintro rfl
            exact hne h0
          have hsame : Function.update gs.rules ⟨rl.index seed hashsz, hi⟩ rl.compile i
              = gs.rules i := Function.update_of_ne hidx _ _
          exact (hkeep i (by simpa only [hsame] using hne)).trans hsame
        · intro i
          rcases horigin i with heq | ⟨r, hr, hcomp, hidx⟩
          · -- What the rest left alone is the head's slot, or as it was at the start.
            by_cases hi' : i = ⟨rl.index seed hashsz, hi⟩
            · subst hi'
              refine Or.inr ⟨rl, List.mem_cons_self, ?_, rfl⟩
              rw [heq]
              simp
            · left
              rw [heq]
              exact Function.update_of_ne hi' _ _
          · exact Or.inr ⟨r, List.mem_cons_of_mem _ hr, hcomp, hidx⟩
        · exact hiff.trans (Loadable.of_cons h0).symm
        · intro hok r hr
          rcases List.mem_cons.mp hr with rfl | hr
          · exact hself
          · exact hall hok r hr
        · intro r hr _
          obtain rfl : rl = r := Option.some.inj hr
          exact hself

/-- The rule loop returns if every rule's slot is in the table. -/
theorem loadRules_returns (gs : Gs) {seed : u32} {hashsz : u8} {rls : List NtfeRule}
    (h : ∀ rl ∈ rls, rl.index seed hashsz < MAX_RULES) :
    ∃ ok gs', loadRules gs seed hashsz rls = .ok (ok, gs') := by
  induction rls generalizing gs with
  | nil => exact ⟨true, gs, rfl⟩
  | cons rl rls ih =>
      have hi := h rl List.mem_cons_self
      rw [loadRules, ruleInsert, dif_pos hi]
      simp only
      split
      · exact ⟨false, gs, rfl⟩
      · exact ih _ fun r hr => h r (List.mem_cons_of_mem _ hr)

/-! ## The rule loop of the validation -/

/-- Some rule finds its slot taken before any rule's slot is out of the table. -/
def Collides (gs : GsRom) (seed : u32) (hashsz : u8) (rls : List NtfeRule) : Prop :=
  ∃ rl ∈ rls.takeWhile fun rl => rl.index seed hashsz < MAX_RULES,
    ¬ SlotFree gs (rl.index seed hashsz)

instance (gs : GsRom) (seed : u32) (hashsz : u8) (rls : List NtfeRule) :
    Decidable (Collides gs seed hashsz rls) :=
  inferInstanceAs (Decidable (∃ rl ∈ _, _))

/-- **The validation's rule loop** looks every rule up in the live table. -/
theorem validateRules_eq (gs : Gs) (seed : u32) (hashsz : u8) (rls : List NtfeRule) :
    validateRules gs seed hashsz rls
      = if Collides gs.toGsRom seed hashsz rls then .ok false
        else if ∀ rl ∈ rls, rl.index seed hashsz < MAX_RULES then .ok true
        else .error .outOfBounds := by
  induction rls with
  | nil => simp [validateRules, Collides]
  | cons rl rls ih =>
      rw [validateRules, ruleInsert_test]
      by_cases hi : rl.index seed hashsz < MAX_RULES
      · rw [if_pos hi]
        have htake : (rl :: rls).takeWhile (fun r => decide (r.index seed hashsz < MAX_RULES))
            = rl :: rls.takeWhile (fun r => decide (r.index seed hashsz < MAX_RULES)) :=
          List.takeWhile_cons_of_pos (decide_eq_true hi)
        by_cases hfree : SlotFree gs.toGsRom (rl.index seed hashsz)
        · -- The test passes and changes nothing: the verdict is that on the rest.
          have hcol : Collides gs.toGsRom seed hashsz (rl :: rls)
              ↔ Collides gs.toGsRom seed hashsz rls := by
            unfold Collides
            rw [htake, List.exists_mem_cons_iff]
            exact or_iff_right (not_not.mpr hfree)
          have hall : (∀ r ∈ rl :: rls, r.index seed hashsz < MAX_RULES)
              ↔ ∀ r ∈ rls, r.index seed hashsz < MAX_RULES := by
            rw [List.forall_mem_cons]
            exact and_iff_right hi
          rw [decide_eq_true hfree]
          refine ih.trans ?_
          by_cases hc : Collides gs.toGsRom seed hashsz rls
          · rw [if_pos hc, if_pos (hcol.mpr hc)]
          · rw [if_neg hc, if_neg (fun h => hc (hcol.mp h))]
            by_cases ha : ∀ r ∈ rls, r.index seed hashsz < MAX_RULES
            · rw [if_pos ha, if_pos (hall.mpr ha)]
            · rw [if_neg ha, if_neg (fun h => ha (hall.mp h))]
        · have hcol : Collides gs.toGsRom seed hashsz (rl :: rls) :=
            ⟨rl, by rw [htake]; exact List.mem_cons_self, hfree⟩
          rw [decide_eq_false hfree, if_pos hcol]
          rfl
      · -- The access is out of bounds, and no rule before it decides.
        have hcol : ¬ Collides gs.toGsRom seed hashsz (rl :: rls) := by
          rintro ⟨r, hr, -⟩
          rw [List.takeWhile_cons_of_neg (by simpa using hi)] at hr
          cases hr
        rw [if_neg hi, if_neg hcol, if_neg (fun h => hi (h rl List.mem_cons_self))]
        rfl

/-- It accepts exactly when every slot is empty. -/
theorem validateRules_eq_true (gs : Gs) (seed : u32) (hashsz : u8) (rls : List NtfeRule) :
    validateRules gs seed hashsz rls = .ok true
      ↔ ∀ rl ∈ rls, SlotFree gs.toGsRom (rl.index seed hashsz) := by
  rw [validateRules_eq]
  by_cases hall : ∀ rl ∈ rls, rl.index seed hashsz < MAX_RULES
  · have htake : rls.takeWhile (fun rl => decide (rl.index seed hashsz < MAX_RULES)) = rls := by
      rw [List.takeWhile_eq_self_iff]
      simpa using hall
    by_cases hcol : Collides gs.toGsRom seed hashsz rls
    · rw [if_pos hcol]
      obtain ⟨rl, hrl, hnot⟩ := hcol
      rw [htake] at hrl
      exact iff_of_false (by simp) fun h => hnot (h rl hrl)
    · rw [if_neg hcol, if_pos hall]
      refine iff_of_true rfl fun rl hrl => ?_
      by_contra hnot
      exact hcol ⟨rl, by rw [htake]; exact hrl, hnot⟩
  · rw [if_neg hall]
    refine iff_of_false ?_ fun h => hall fun rl hrl => (h rl hrl).lt
    split <;> simp

/-! ## Lookup -/

/-- A lookup finds the slot its signature selects, if that holds the signature. -/
theorem ruleLookup_eq_some {gs : GsRom} {fs : FlowSig} {rl : Rule} :
    ruleLookup gs fs = .ok (some rl) ↔ SlotHolds gs (hashFlowsig gs fs) rl ∧ rl.fsig = fs := by
  unfold ruleLookup
  by_cases hi : hashFlowsig gs fs < MAX_RULES
  · rw [dif_pos hi]
    by_cases hfs : (gs.rules ⟨hashFlowsig gs fs, hi⟩).fsig = fs
    · simp only [if_pos hfs, Except.ok.injEq, Option.some.injEq]
      constructor
      · rintro rfl
        exact ⟨⟨hi, rfl⟩, hfs⟩
      · rintro ⟨⟨_, hrl⟩, -⟩
        exact hrl
    · simp only [if_neg hfs, Except.ok.injEq]
      refine iff_of_false (by simp) ?_
      rintro ⟨⟨_, hrl⟩, h0⟩
      rw [hrl] at hfs
      exact hfs h0
  · rw [dif_neg hi]
    refine iff_of_false (by simp) ?_
    rintro ⟨⟨hlt, -⟩, -⟩
    exact hi hlt

/-- A lookup returns exactly if its slot is in the table. -/
theorem ruleLookup_returns_iff {gs : GsRom} {fs : FlowSig} :
    (∃ rl, ruleLookup gs fs = .ok rl) ↔ hashFlowsig gs fs < MAX_RULES := by
  by_cases h : hashFlowsig gs fs < MAX_RULES
  · rw [ruleLookup, dif_pos h]
    exact iff_of_true ⟨_, rfl⟩ h
  · rw [ruleLookup, dif_neg h]
    exact iff_of_false (by simp) h

/-- The lookup finds a rule. -/
def Finds (gs : GsRom) (fs : FlowSig) : Prop := ∃ rl, ruleLookup gs fs = .ok (some rl)

/-- What a lookup that returns has answered. -/
theorem isSome_iff_finds {gs : GsRom} {fs : FlowSig} {rl : Option Rule}
    (h : ruleLookup gs fs = .ok rl) : rl.isSome = true ↔ Finds gs fs := by
  rw [Finds, h, Option.isSome_iff_exists]
  simp only [Except.ok.injEq]

/-- Every slot is empty or holds a compiled rule. -/
def Marked (gs : GsRom) : Prop :=
  ∀ i, (gs.rules i).fsig = 0 ∨ ∃ rl : NtfeRule, gs.rules i = rl.compile

/-- A signature no rule can have is found only in an empty slot, as zero. -/
theorem Marked.finds_of_no_rule {gs : GsRom} (h : Marked gs) {fs : FlowSig}
    (hne : ∀ rl : NtfeRule, rl.compile.fsig ≠ fs) :
    Finds gs fs ↔ fs = 0 ∧ SlotFree gs (hashFlowsig gs 0) := by
  constructor
  · rintro ⟨rl, hrl⟩
    obtain ⟨⟨hi, hslot⟩, hfs⟩ := ruleLookup_eq_some.mp hrl
    rcases h ⟨hashFlowsig gs fs, hi⟩ with hz | ⟨r, hr⟩
    · rw [hslot, hfs] at hz
      subst hz
      exact ⟨rfl, hi, by rw [hslot, hfs]⟩
    · rw [← hfs, ← hslot, hr] at hne
      exact absurd rfl (hne r)
  · rintro ⟨rfl, hi, hz⟩
    exact ⟨gs.rules ⟨hashFlowsig gs 0, hi⟩, ruleLookup_eq_some.mpr ⟨⟨hi, rfl⟩, hz⟩⟩

/-- **A lookup without the mark** finds no rule; the zero signature finds an empty slot. -/
theorem Marked.finds_unmarked {gs : GsRom} (h : Marked gs) (p : u8) (d : be16) :
    Finds gs (FlowSig.mk 0 p d) ↔ (p = 0 ∧ d = 0) ∧ SlotFree gs (hashFlowsig gs 0) := by
  have hzero : FlowSig.mk 0 p d = 0 ↔ p = 0 ∧ d = 0 := by
    rw [← FlowSig.mk_zero, FlowSig.mk_inj]
    simp
  rw [h.finds_of_no_rule fun rl => ruleSig_ne_unmarked rl p d, hzero]

/-- The rule table is the compiled form of the rules. -/
structure Compiled (gs : GsRom) (rls : List NtfeRule) : Prop where
  /-- Every slot is empty or holds a rule of the list, in its slot. -/
  sound : ∀ i, (gs.rules i).fsig = 0
    ∨ ∃ rl ∈ rls, gs.rules i = rl.compile ∧ rl.index gs.rule_seed gs.rule_hashsz = i
  /-- Every rule of the list is in its slot. -/
  complete : ∀ rl ∈ rls, SlotHolds gs (rl.index gs.rule_seed gs.rule_hashsz) rl.compile

theorem Compiled.marked {gs : GsRom} {rls : List NtfeRule} (h : Compiled gs rls) : Marked gs :=
  fun i => (h.sound i).imp id fun ⟨rl, _, hcomp, _⟩ => ⟨rl, hcomp⟩

/-- A slot of the table is empty if it is no rule's. -/
theorem Compiled.slotFree_iff {gs : GsRom} {rls : List NtfeRule} (h : Compiled gs rls) (i : Nat) :
    SlotFree gs i ↔ i < MAX_RULES ∧ ∀ rl ∈ rls, rl.index gs.rule_seed gs.rule_hashsz ≠ i := by
  constructor
  · intro hfree
    refine ⟨hfree.lt, ?_⟩
    rintro rl hrl rfl
    exact (h.complete rl hrl).not_free hfree
  · rintro ⟨hi, hne⟩
    refine ⟨hi, ?_⟩
    rcases h.sound ⟨i, hi⟩ with h0 | ⟨rl, hrl, -, hidx⟩
    · exact h0
    · exact absurd hidx (hne rl hrl)

/-- **A lookup of a non-zero signature finds exactly the rules of the list.** -/
theorem Compiled.finds_iff {gs : GsRom} {rls : List NtfeRule} (h : Compiled gs rls)
    {fs : FlowSig} (h0 : fs ≠ 0) : Finds gs fs ↔ ∃ rl ∈ rls, rl.compile.fsig = fs := by
  constructor
  · rintro ⟨rl, hrl⟩
    obtain ⟨⟨hi, hslot⟩, hfs⟩ := ruleLookup_eq_some.mp hrl
    rcases h.sound ⟨hashFlowsig gs fs, hi⟩ with hz | ⟨r, hr, hcomp, -⟩
    · rw [hslot, hfs] at hz
      exact absurd hz h0
    · exact ⟨r, hr, by rw [← hcomp, hslot, hfs]⟩
  · rintro ⟨rl, hrl, rfl⟩
    exact ⟨rl.compile, ruleLookup_eq_some.mpr ⟨h.complete rl hrl, rfl⟩⟩

end Ntfw
