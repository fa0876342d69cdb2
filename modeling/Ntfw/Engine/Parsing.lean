import Ntfw.Ntfe.Reads
import Ntfw.Engine.Configuration

set_option autoImplicit false

/-! # Parsing an image stays inside it

The programs of `Ntfw.Reads` return what the functions of the engine return, and the bytes
they read lie in the image: in its header and, loop by loop, in the section the loop is
for. -/

namespace Ntfw

/-! ## Sections -/

/-- The entries of a section: `n` of them, of `k` bytes each, from the cursor `o` on. -/
def entriesFrom {α : Type} (f : Nat → α) (k o n : Nat) : List α :=
  (List.range n).map fun i => f (o + i * k)

theorem entriesFrom_succ {α : Type} (f : Nat → α) (k o n : Nat) :
    entriesFrom f k o (n + 1) = f o :: entriesFrom f k (o + k) n := by
  unfold entriesFrom
  rw [List.range_succ_eq_map, List.map_cons, List.map_map, Nat.zero_mul, Nat.add_zero]
  congr 1
  refine List.map_congr_left fun i _ => ?_
  show f (o + (i + 1) * k) = _
  rw [Nat.succ_mul, Nat.add_comm (i * k) k, Nat.add_assoc]

/-- One entry and the rest of a section. -/
theorem next_entry (o n k : Nat) : o + (n + 1) * k = o + k + n * k := by
  rw [Nat.succ_mul]
  omega

namespace NtfeConfig

/-- Where the host section, and with it the image, ends. -/
def endOfs (cfg : NtfeConfig) : Nat := cfg.hostsOfs + cfg.host_count.toNat * SZ_NTFE_HOST

theorem rules_eq (cfg : NtfeConfig) : cfg.rules
    = entriesFrom cfg.ruleAt SZ_NTFE_RULE SZ_NTFE_CONFIG cfg.rule_count.toNat := rfl

theorem meters_eq (cfg : NtfeConfig) : cfg.meters
    = entriesFrom cfg.meterAt SZ_NTFE_METER cfg.metersOfs cfg.meter_count.toNat := rfl

theorem hosts_eq (cfg : NtfeConfig) : cfg.hosts
    = entriesFrom cfg.hostAt SZ_NTFE_HOST cfg.hostsOfs cfg.host_count.toNat := rfl

end NtfeConfig

namespace Reads

open Reader (Inside)

/-! ## The rule at the cursor -/

theorem value_ruleInsert (gs : Gs) (cfg : NtfeConfig) (rl : Nat) (seed : u32) (hashsz : u8)
    (test : Bool) : (ruleInsert gs rl seed hashsz test).run.value cfg
      = Ntfw.ruleInsert gs (cfg.ruleAt rl) seed hashsz test := by
  simp only [ruleInsert, Reader.value_run_lift_bind, Reader.value_run_dite, Reader.value_run_ite,
    Reader.value_run_pure, Reader.value_run_throw]
  rfl

theorem inside_ruleInsert (gs : Gs) (cfg : NtfeConfig) (rl : Nat) (seed : u32) (hashsz : u8)
    (test : Bool) :
    (ruleInsert gs rl seed hashsz test).run.Within (Inside rl (rl + SZ_NTFE_RULE)) cfg := by
  have h16 : ∀ k, k + 2 ≤ SZ_NTFE_RULE →
      (Reader.le16 (rl + k)).Within (Inside rl (rl + SZ_NTFE_RULE)) cfg := fun k hk =>
    (Reader.inside_le16 _).mpr (by omega)
  have h8 : ∀ k, k + 1 ≤ SZ_NTFE_RULE →
      (Reader.byte (rl + k)).Within (Inside rl (rl + SZ_NTFE_RULE)) cfg := fun k hk =>
    (Reader.inside_byte _).mpr (by omega)
  simp only [ruleInsert, Reader.within_run_lift_bind, Reader.within_run_dite,
    Reader.within_run_ite, Reader.within_run_pure, Reader.within_run_throw]
  refine ⟨h16 0 (by decide), h16 2 (by decide), h8 10 (by decide), fun _ => ⟨fun _ => trivial,
    fun _ => ⟨fun _ => trivial, fun _ => ?_⟩⟩, fun _ => trivial⟩
  -- The costs and the meters are read only where the rule is entered.
  exact ⟨h16 4 (by decide), h16 6 (by decide), h16 8 (by decide), h8 11 (by decide),
    h8 12 (by decide), h8 13 (by decide), trivial⟩

/-! ## Validation -/

theorem value_validateRules (gs : Gs) (cfg : NtfeConfig) (seed : u32) (hashsz : u8) (n o : Nat) :
    (validateRules gs seed hashsz n o).run.value cfg
      = Ntfw.validateRules gs seed hashsz (entriesFrom cfg.ruleAt SZ_NTFE_RULE o n) := by
  induction n generalizing o with
  | zero => rfl
  | succ n ih =>
      rw [validateRules, Reader.value_run_bind, value_ruleInsert, entriesFrom_succ,
        Ntfw.validateRules]
      simp only [Reader.value_run_ite, ih]
      rfl

/-- The 64-bit sum of the sizes does not wrap around: it is where the host section ends. -/
theorem toNat_sectionsSize (cfg : NtfeConfig) :
    (sectionsSize cfg.rule_count cfg.meter_count cfg.host_count).toNat = cfg.endOfs := by
  have h1 := cfg.rule_count.isLt
  have h2 := cfg.meter_count.isLt
  have h3 := cfg.host_count.isLt
  unfold sectionsSize NtfeConfig.endOfs NtfeConfig.hostsOfs NtfeConfig.metersOfs SZ_NTFE_CONFIG
    SZ_NTFE_RULE SZ_NTFE_METER SZ_NTFE_HOST
  simp only [BitVec.toNat_add, BitVec.toNat_mul, BitVec.toNat_setWidth, BitVec.toNat_ofNat]
  omega

theorem value_validateHeader (cfg : NtfeConfig) (cfg_len : u32) :
    (validateHeader cfg_len).value cfg = Ntfw.validateHeader cfg cfg_len := by
  have hsize : cfg.length.setWidth 64
        < sectionsSize cfg.rule_count cfg.meter_count cfg.host_count
      ↔ cfg.length.toNat < cfg.endOfs := by
    rw [BitVec.lt_def, toNat_sectionsSize, BitVec.toNat_setWidth]
    have := cfg.length.isLt
    omega
  have hread : (validateHeader cfg_len).value cfg
      = if cfg_len.toNat < SZ_NTFE_CONFIG then false
        else if cfg_len < cfg.length.setWidth 32 then false
        else if cfg.length.setWidth 64
          < sectionsSize cfg.rule_count cfg.meter_count cfg.host_count then false
        else if cfg.reserved ≠ 0 then false
        else if cfg.version ≠ NTFE_CFG_VERSION then false
        else if MAX_RULES < cfg.rule_count.toNat then false
        else if (MAX_RULES : Int) < (shl32 1 cfg.rule_hashsz.toNat).toInt then false
        else cfg.rule_hashsz != 0 := by
    simp only [validateHeader, Reader.value_bind, Reader.value_ite, Reader.value_pure]
    rfl
  rw [hread]
  simp only [hsize]
  unfold Ntfw.validateHeader NtfeConfig.endOfs NtfeConfig.hostsOfs NtfeConfig.metersOfs
  simp [Bool.if_false_left, Bool.and_assoc, bne, beq_eq_decide]

theorem value_ntfeValidateConfiguration (gs : Gs) (cfg : NtfeConfig) (cfg_len : u32) :
    (ntfeValidateConfiguration gs cfg_len).run.value cfg
      = Ntfw.ntfeValidateConfiguration gs cfg cfg_len := by
  rw [ntfeValidateConfiguration, Reader.value_run_lift_bind, value_validateHeader,
    Reader.value_run_ite, Ntfw.ntfeValidateConfiguration]
  refine if_congr Iff.rfl rfl ?_
  rw [Reader.value_run_lift_bind, Reader.value_run_lift_bind, Reader.value_run_lift_bind,
    Reader.value_run_bind, value_validateRules]
  refine congrArg _ (funext fun ok => ?_)
  rw [Reader.value_run_ite, Reader.value_run_lift_bind, Reader.value_run_ite]
  rfl

/-- The loads of a header that is there. -/
theorem inside_header {cfg : NtfeConfig} {n : Nat} (h : SZ_NTFE_CONFIG ≤ n) :
    (∀ o, o + 2 ≤ SZ_NTFE_CONFIG → (Reader.le16 o).Within (Inside 0 n) cfg)
    ∧ ∀ o, o + 4 ≤ SZ_NTFE_CONFIG → (Reader.le32 o).Within (Inside 0 n) cfg :=
  ⟨fun o ho => (Reader.inside_le16 o).mpr ⟨Nat.zero_le o, Nat.le_trans ho h⟩,
    fun o ho => (Reader.inside_le32 o).mpr ⟨Nat.zero_le o, Nat.le_trans ho h⟩⟩

theorem inside_validateHeader (cfg : NtfeConfig) (cfg_len : u32) :
    (validateHeader cfg_len).Within (Inside 0 cfg_len.toNat) cfg := by
  unfold validateHeader
  refine .ite (fun _ => Reader.within_pure _) fun hlen => ?_
  -- The first check makes sure of the header; each later one loads a field of it.
  obtain ⟨h16, h32⟩ := inside_header (Nat.le_of_not_lt hlen)
  refine (h16 6 (by decide)).bind (.ite (fun _ => Reader.within_pure _) fun _ => ?_)
  refine (h32 88 (by decide)).bind ((h32 92 (by decide)).bind ((h32 96 (by decide)).bind ?_))
  refine .ite (fun _ => Reader.within_pure _) fun _ => ?_
  refine (h32 0 (by decide)).bind (.ite (fun _ => Reader.within_pure _) fun _ => ?_)
  refine (h16 4 (by decide)).bind (.ite (fun _ => Reader.within_pure _) fun _ => ?_)
  refine .ite (fun _ => Reader.within_pure _) fun _ => (h32 84 (by decide)).bind ?_
  exact .ite (fun _ => Reader.within_pure _) fun _ => Reader.within_pure _

theorem inside_validateRules (gs : Gs) (cfg : NtfeConfig) (seed : u32) (hashsz : u8) (n o : Nat) :
    (validateRules gs seed hashsz n o).run.Within (Inside o (o + n * SZ_NTFE_RULE)) cfg := by
  induction n generalizing o with
  | zero => exact Reader.within_run_pure _
  | succ n ih =>
      have hn := next_entry o n SZ_NTFE_RULE
      rw [validateRules, Reader.within_run_bind]
      refine ⟨(inside_ruleInsert gs cfg o seed hashsz true).widen (Nat.le_refl o) (by omega),
        fun r _ => Reader.within_run_ite.mpr ⟨fun _ => Reader.within_run_pure _, fun _ => ?_⟩⟩
      exact (ih (o + SZ_NTFE_RULE)).widen (Nat.le_add_right o _) (Nat.le_of_eq hn.symm)

/-- The header is good only if the sections end inside the image. -/
theorem endOfs_le {cfg : NtfeConfig} {cfg_len : u32}
    (h : Ntfw.validateHeader cfg cfg_len = true) : cfg.endOfs ≤ cfg_len.toNat := by
  unfold Ntfw.validateHeader at h
  simp only [Bool.and_eq_true, Bool.not_eq_true', Bool.or_eq_false_iff, decide_eq_false_iff_not]
    at h
  obtain ⟨⟨⟨⟨⟨-, hlen⟩, hsize⟩, -⟩, -⟩, -⟩ := h
  have hlen' : cfg.length.toNat ≤ cfg_len.toNat := by
    have h1 : cfg.length.toNat < 2 ^ 16 := cfg.length.isLt
    rw [BitVec.lt_def, BitVec.toNat_setWidth] at hlen
    omega
  unfold NtfeConfig.endOfs NtfeConfig.hostsOfs NtfeConfig.metersOfs
  omega

theorem inside_ntfeValidateConfiguration (gs : Gs) (cfg : NtfeConfig) (cfg_len : u32) :
    (ntfeValidateConfiguration gs cfg_len).run.Within (Inside 0 cfg_len.toNat) cfg := by
  rw [ntfeValidateConfiguration, Reader.within_run_lift_bind, value_validateHeader]
  refine ⟨inside_validateHeader cfg cfg_len,
    Reader.within_run_ite.mpr ⟨fun _ => Reader.within_run_pure _, fun hok => ?_⟩⟩
  have hend := endOfs_le (by simpa using hok)
  have hrules : SZ_NTFE_CONFIG + cfg.rule_count.toNat * SZ_NTFE_RULE ≤ cfg_len.toNat := by
    unfold NtfeConfig.endOfs NtfeConfig.hostsOfs NtfeConfig.metersOfs at hend
    omega
  obtain ⟨-, h32⟩ := inside_header (Nat.le_trans (Nat.le_add_right _ _) hrules)
  rw [Reader.within_run_lift_bind, Reader.within_run_lift_bind, Reader.within_run_lift_bind,
    Reader.within_run_bind]
  refine ⟨h32 88 (by decide), h32 80 (by decide), h32 84 (by decide),
    (inside_validateRules gs cfg _ _ _ SZ_NTFE_CONFIG).widen (Nat.zero_le _) hrules, fun ok _ => ?_⟩
  refine Reader.within_run_ite.mpr ⟨fun _ => Reader.within_run_pure _, fun _ => ?_⟩
  refine Reader.within_run_lift_bind.mpr ⟨h32 92 (by decide), Reader.within_run_ite.mpr ?_⟩
  exact ⟨fun _ => Reader.within_run_pure _, fun _ => Reader.within_run_pure _⟩

/-! ## The loops of a configuration -/

/-- The rule loop, with the cursor at the end of the section once it has gone through it. -/
theorem value_loadRules (gs : Gs) (cfg : NtfeConfig) (seed : u32) (hashsz : u8) (n o : Nat) :
    ((loadRules gs seed hashsz n o).run.value cfg).map Prod.fst
        = Ntfw.loadRules gs seed hashsz (entriesFrom cfg.ruleAt SZ_NTFE_RULE o n)
      ∧ ∀ gs' meter, (loadRules gs seed hashsz n o).run.value cfg = .ok ((true, gs'), meter) →
        meter = o + n * SZ_NTFE_RULE := by
  induction n generalizing gs o with
  | zero =>
      refine ⟨rfl, fun gs' meter h => ?_⟩
      cases h
      rfl
  | succ n ih =>
      rw [loadRules, Reader.value_run_bind, value_ruleInsert, entriesFrom_succ, Ntfw.loadRules]
      cases Ntfw.ruleInsert gs (cfg.ruleAt o) seed hashsz false with
      | error e => exact ⟨rfl, fun _ _ h => by cases h⟩
      | ok r =>
          -- A rule without a slot ends the loop, and the call, wherever the cursor is.
          obtain ⟨ok, gs1⟩ := r
          cases ok with
          | false => exact ⟨rfl, fun _ _ h => by cases h⟩
          | true =>
              obtain ⟨hval, hcur⟩ := ih gs1 (o + SZ_NTFE_RULE)
              refine ⟨hval, fun gs' meter h => ?_⟩
              rw [hcur gs' meter h, Nat.succ_mul]
              omega

theorem inside_loadRules (gs : Gs) (cfg : NtfeConfig) (seed : u32) (hashsz : u8) (n o : Nat) :
    (loadRules gs seed hashsz n o).run.Within (Inside o (o + n * SZ_NTFE_RULE)) cfg := by
  induction n generalizing gs o with
  | zero => exact Reader.within_run_pure _
  | succ n ih =>
      have hn := next_entry o n SZ_NTFE_RULE
      rw [loadRules, Reader.within_run_bind]
      refine ⟨(inside_ruleInsert gs cfg o seed hashsz false).widen (Nat.le_refl o) (by omega),
        fun r _ => Reader.within_run_ite.mpr ⟨fun _ => Reader.within_run_pure _, fun _ => ?_⟩⟩
      exact (ih r.2 (o + SZ_NTFE_RULE)).widen (Nat.le_add_right o _) (Nat.le_of_eq hn.symm)

theorem value_loadMeters (gs : Gs) (cfg : NtfeConfig) (i n o : Nat) :
    (loadMeters gs i n o).run.value cfg
      = Ntfw.loadMeters gs i (entriesFrom cfg.meterAt SZ_NTFE_METER o n) >>= fun gs' =>
          .ok (gs', o + n * SZ_NTFE_METER) := by
  induction n generalizing gs i o with
  | zero => rfl
  | succ n ih =>
      have hn := next_entry o n SZ_NTFE_METER
      rw [entriesFrom_succ, Ntfw.loadMeters, loadMeters, Reader.value_run_lift_bind,
        Reader.value_run_lift_bind, Reader.value_run_lift_bind, Reader.value_run_dite, hn]
      by_cases hi : i < MAX_METERS
      · rw [dif_pos hi, dif_pos hi]
        exact ih _ (i + 1) (o + SZ_NTFE_METER)
      · rw [dif_neg hi, dif_neg hi]
        rfl

theorem inside_loadMeters (gs : Gs) (cfg : NtfeConfig) (i n o : Nat) :
    (loadMeters gs i n o).run.Within (Inside o (o + n * SZ_NTFE_METER)) cfg := by
  induction n generalizing gs i o with
  | zero => exact Reader.within_run_pure _
  | succ n ih =>
      have hn := next_entry o n SZ_NTFE_METER
      have h32 : ∀ k, k + 4 ≤ SZ_NTFE_METER → (Reader.le32 (o + k)).Within
          (Inside o (o + (n + 1) * SZ_NTFE_METER)) cfg := fun k hk =>
        (Reader.inside_le32 _).mpr (by omega)
      simp only [loadMeters, Reader.within_run_lift_bind, Reader.within_run_dite]
      refine ⟨h32 0 (by decide), h32 4 (by decide), h32 8 (by decide), fun hi => ?_,
        fun _ => Reader.within_run_throw _⟩
      exact (ih _ (i + 1) (o + SZ_NTFE_METER)).widen (Nat.le_add_right o _) (Nat.le_of_eq hn.symm)

theorem value_loadHosts (env : Env) (gs : Gs) (cfg : NtfeConfig) (n o : Nat) :
    (loadHosts env gs n o).value cfg
      = Ntfw.loadHosts env gs (entriesFrom cfg.hostAt SZ_NTFE_HOST o n) := by
  induction n generalizing gs o with
  | zero => rfl
  | succ n ih =>
      rw [loadHosts, Reader.value_bind, Reader.value_ite, entriesFrom_succ, Ntfw.loadHosts, ih]
      rfl

theorem inside_loadHosts (env : Env) (gs : Gs) (cfg : NtfeConfig) (n o : Nat) :
    (loadHosts env gs n o).Within (Inside o (o + n * SZ_NTFE_HOST)) cfg := by
  induction n generalizing gs o with
  | zero => exact Reader.within_pure _
  | succ n ih =>
      have hn := next_entry o n SZ_NTFE_HOST
      have h32 : (Reader.le32 (o + 28)).Within (Inside o (o + (n + 1) * SZ_NTFE_HOST)) cfg :=
        (Reader.inside_le32 _).mpr (by unfold SZ_NTFE_HOST; omega)
      rw [loadHosts]
      refine h32.bind (.ite (fun _ => Reader.within_pure _) fun _ => ?_)
      exact (ih _ (o + SZ_NTFE_HOST)).widen (Nat.le_add_right o _) (Nat.le_of_eq hn.symm)

/-! ## The three sections -/

theorem value_loadMetersHosts (env : Env) (gs : Gs) (cfg : NtfeConfig) :
    (loadMetersHosts env gs cfg.metersOfs).run.value cfg
      = Ntfw.loadMeters gs 0 cfg.meters >>= fun gs => .ok (Ntfw.loadHosts env gs cfg.hosts) := by
  have hm := value_loadMeters gs cfg 0 cfg.meter_count.toNat cfg.metersOfs
  rw [← cfg.meters_eq] at hm
  rw [loadMetersHosts, Reader.value_run_lift_bind, Reader.value_run_bind]
  show (loadMeters gs 0 cfg.meter_count.toNat cfg.metersOfs).run.value cfg >>= _ = _
  rw [hm]
  cases Ntfw.loadMeters gs 0 cfg.meters with
  | error e => rfl
  | ok gs1 =>
      show ((liftM (Reader.le32 96) : ReadExec u32) >>= fun host_count =>
        liftM (loadHosts env gs1 host_count.toNat cfg.hostsOfs)).run.value cfg
          = .ok (Ntfw.loadHosts env gs1 cfg.hosts)
      rw [Reader.value_run_lift_bind, Reader.value_run_lift, value_loadHosts, cfg.hosts_eq]
      rfl

theorem value_loadSections (env : Env) (gs : Gs) (cfg : NtfeConfig) :
    (loadSections env gs).run.value cfg
      = Ntfw.loadRules gs gs.rule_seed gs.rule_hashsz cfg.rules >>= fun (ok, gs) =>
        if !ok then .ok (false, gs)
        else
        Ntfw.loadMeters gs 0 cfg.meters >>= fun gs =>
        .ok (Ntfw.loadHosts env gs cfg.hosts) := by
  obtain ⟨hval, hcur⟩ := value_loadRules gs cfg gs.rule_seed gs.rule_hashsz cfg.rule_count.toNat
    SZ_NTFE_CONFIG
  rw [← cfg.rules_eq] at hval
  rw [← hval, loadSections, Reader.value_run_lift_bind, Reader.value_run_bind]
  show (loadRules gs gs.rule_seed gs.rule_hashsz cfg.rule_count.toNat SZ_NTFE_CONFIG).run.value cfg
      >>= _ = _
  cases hr : (loadRules gs gs.rule_seed gs.rule_hashsz cfg.rule_count.toNat
      SZ_NTFE_CONFIG).run.value cfg with
  | error e => rfl
  | ok r =>
      obtain ⟨⟨ok, gs1⟩, meter⟩ := r
      cases ok with
      | false => rfl
      | true =>
          obtain rfl : meter = cfg.metersOfs := hcur gs1 meter hr
          exact value_loadMetersHosts env gs1 cfg

theorem value_ntfeConfigure (env : Env) (gs : Gs) (cfg : NtfeConfig) (cfg_len : u32) :
    (ntfeConfigure env gs cfg_len).run.value cfg = Ntfw.ntfeConfigure env gs cfg cfg_len := by
  rw [ntfeConfigure, Reader.value_run_bind, value_ntfeValidateConfiguration, Ntfw.ntfeConfigure]
  refine congrArg _ (funext fun ok => ?_)
  rw [Reader.value_run_ite]
  refine if_congr Iff.rfl rfl ?_
  rw [loadConfiguration, Reader.value_run_lift_bind, Reader.value_run_lift_bind,
    value_loadSections]
  rfl

/-- An access of a loop: to the header, for the bound of the loop, or to its section. -/
def InPart (lo hi q : Nat) : Prop := q < SZ_NTFE_CONFIG ∨ Inside lo hi q

theorem inPart_of_inside {lo hi : Nat} {tr : List Nat} (h : ∀ q ∈ tr, Inside lo hi q) :
    ∀ q ∈ tr, InPart lo hi q := fun q hq => Or.inr (h q hq)

/-- The bound of a loop, and what the loop reads then. -/
theorem inPart_append {lo hi o : Nat} {tr : List Nat} (ho : o + 4 ≤ SZ_NTFE_CONFIG)
    (h : ∀ q ∈ tr, Inside lo hi q) : ∀ q ∈ Reader.span o 4 ++ tr, InPart lo hi q := by
  refine List.forall_mem_append.mpr ⟨fun q hq => Or.inl ?_, inPart_of_inside h⟩
  have := (Reader.mem_span.mp hq).2
  omega

theorem trace_loadMetersHosts (env : Env) (gs : Gs) (cfg : NtfeConfig) : ∃ ms hs,
    (loadMetersHosts env gs cfg.metersOfs).run.trace cfg = ms ++ hs
      ∧ (∀ q ∈ ms, InPart cfg.metersOfs cfg.hostsOfs q)
      ∧ (∀ q ∈ hs, InPart cfg.hostsOfs cfg.endOfs q) := by
  have hval := value_loadMeters gs cfg 0 cfg.meter_count.toNat cfg.metersOfs
  have hin := inPart_append (o := 92) (by decide)
    (inside_loadMeters gs cfg 0 cfg.meter_count.toNat cfg.metersOfs)
  rw [loadMetersHosts, Reader.trace_run_lift_bind]
  cases hm : Ntfw.loadMeters gs 0 (entriesFrom cfg.meterAt SZ_NTFE_METER cfg.metersOfs
      cfg.meter_count.toNat) with
  | error e =>
      -- A meter index out of bounds ends the call before the hosts are read.
      rw [hm] at hval
      refine ⟨_, [], ?_, hin, by simp⟩
      rw [List.append_nil]
      exact congrArg _ (Reader.trace_run_bind_error hval)
  | ok gs1 =>
      rw [hm] at hval
      refine ⟨_, _, ?_, hin, inPart_append (o := 96) (by decide)
        (inside_loadHosts env gs1 cfg cfg.host_count.toNat cfg.hostsOfs)⟩
      rw [List.append_assoc]
      refine congrArg _ ((Reader.trace_run_bind_ok hval).trans (congrArg _ ?_))
      rw [Reader.trace_run_lift_bind, Reader.trace_run_lift]
      rfl

theorem trace_loadSections (env : Env) (gs : Gs) (cfg : NtfeConfig) : ∃ rs ms hs,
    (loadSections env gs).run.trace cfg = rs ++ ms ++ hs
      ∧ (∀ q ∈ rs, InPart SZ_NTFE_CONFIG cfg.metersOfs q)
      ∧ (∀ q ∈ ms, InPart cfg.metersOfs cfg.hostsOfs q)
      ∧ (∀ q ∈ hs, InPart cfg.hostsOfs cfg.endOfs q) := by
  obtain ⟨-, hcur⟩ := value_loadRules gs cfg gs.rule_seed gs.rule_hashsz cfg.rule_count.toNat
    SZ_NTFE_CONFIG
  have hin := inPart_append (o := 88) (by decide)
    (inside_loadRules gs cfg gs.rule_seed gs.rule_hashsz cfg.rule_count.toNat SZ_NTFE_CONFIG)
  rw [loadSections, Reader.trace_run_lift_bind]
  cases hr : (loadRules gs gs.rule_seed gs.rule_hashsz cfg.rule_count.toNat
      SZ_NTFE_CONFIG).run.value cfg with
  | error e =>
      refine ⟨_, [], [], ?_, hin, by simp, by simp⟩
      rw [List.append_nil, List.append_nil]
      exact congrArg _ (Reader.trace_run_bind_error hr)
  | ok r =>
      obtain ⟨⟨ok, gs1⟩, meter⟩ := r
      cases ok with
      | false =>
          refine ⟨_, [], [], ?_, hin, by simp, by simp⟩
          rw [List.append_nil, List.append_nil]
          exact congrArg _ ((Reader.trace_run_bind_ok hr).trans (List.append_nil _))
      | true =>
          -- The cursor has gone through all the rules.
          obtain rfl : meter = cfg.metersOfs := hcur gs1 meter hr
          obtain ⟨ms, hs, htr, hms, hhs⟩ := trace_loadMetersHosts env gs1 cfg
          refine ⟨_, ms, hs, ?_, hin, hms, hhs⟩
          rw [List.append_assoc, List.append_assoc, ← htr]
          exact congrArg _ (Reader.trace_run_bind_ok hr)

/-- Behind the validation the size and the seed of the table are read first. -/
theorem trace_loadConfiguration (env : Env) (gs : Gs) (cfg : NtfeConfig) : ∃ gs1,
    (loadConfiguration env gs).run.trace cfg
      = Reader.span 84 4 ++ (Reader.span 80 4 ++ (loadSections env gs1).run.trace cfg) := by
  rw [loadConfiguration, Reader.trace_run_lift_bind, Reader.trace_run_lift_bind,
    Reader.trace_le32, Reader.trace_le32]
  exact ⟨_, rfl⟩

/-- A configuration reads what its validation reads, and then, if there is nothing to complain
of, the sections one after another. -/
theorem trace_ntfeConfigure (env : Env) (gs : Gs) (cfg : NtfeConfig) (cfg_len : u32) :
    ∃ rs ms hs, (ntfeConfigure env gs cfg_len).run.trace cfg
        = (ntfeValidateConfiguration gs cfg_len).run.trace cfg ++ (rs ++ ms ++ hs)
      ∧ (rs ++ ms ++ hs ≠ [] → Ntfw.ntfeValidateConfiguration gs cfg cfg_len = .ok true)
      ∧ (∀ q ∈ rs, InPart SZ_NTFE_CONFIG cfg.metersOfs q)
      ∧ (∀ q ∈ ms, InPart cfg.metersOfs cfg.hostsOfs q)
      ∧ (∀ q ∈ hs, InPart cfg.hostsOfs cfg.endOfs q) := by
  have hval := value_ntfeValidateConfiguration gs cfg cfg_len
  cases hv : Ntfw.ntfeValidateConfiguration gs cfg cfg_len with
  | error e =>
      rw [hv] at hval
      refine ⟨[], [], [], ?_, by simp, by simp, by simp, by simp⟩
      exact (Reader.trace_run_bind_error hval).trans (List.append_nil _).symm
  | ok ok =>
      rw [hv] at hval
      cases ok with
      | false =>
          refine ⟨[], [], [], ?_, by simp, by simp, by simp, by simp⟩
          exact Reader.trace_run_bind_ok hval
      | true =>
          obtain ⟨gs1, hconf⟩ := trace_loadConfiguration env gs cfg
          obtain ⟨rs, ms, hs, htr, hrs, hms, hhs⟩ := trace_loadSections env gs1 cfg
          refine ⟨Reader.span 84 4 ++ (Reader.span 80 4 ++ rs), ms, hs, ?_, fun _ => rfl, ?_, hms,
            hhs⟩
          · refine (Reader.trace_run_bind_ok hval).trans (congrArg _ (hconf.trans ?_))
            rw [htr]
            simp only [List.append_assoc]
          · intro q hq
            simp only [List.mem_append, Reader.mem_span] at hq
            rcases hq with hq | hq | hq
            · exact Or.inl (by unfold SZ_NTFE_CONFIG; omega)
            · exact Or.inl (by unfold SZ_NTFE_CONFIG; omega)
            · exact hrs q hq

theorem inside_ntfeConfigure (env : Env) (gs : Gs) (cfg : NtfeConfig) (cfg_len : u32) :
    (ntfeConfigure env gs cfg_len).run.Within (Inside 0 cfg_len.toNat) cfg := by
  obtain ⟨rs, ms, hs, htr, hvalid, hrs, hms, hhs⟩ := trace_ntfeConfigure env gs cfg cfg_len
  have hm : SZ_NTFE_CONFIG ≤ cfg.metersOfs := Nat.le_add_right _ _
  have hh : cfg.metersOfs ≤ cfg.hostsOfs := Nat.le_add_right _ _
  have he : cfg.hostsOfs ≤ cfg.endOfs := Nat.le_add_right _ _
  intro q hq
  rw [htr, List.mem_append] at hq
  rcases hq with hq | hq
  · exact inside_ntfeValidateConfiguration gs cfg cfg_len q hq
  · -- Something is read behind the validation, so the header is good.
    have hok := hvalid (List.ne_nil_of_mem hq)
    have hend := endOfs_le ((ntfeValidateConfiguration_eq_true gs cfg cfg_len).mp hok).1
    have hpart : ∀ lo hi, hi ≤ cfg.endOfs → InPart lo hi q → Inside 0 cfg_len.toNat q := by
      rintro lo hi hle (hq | ⟨-, hq⟩) <;> refine ⟨Nat.zero_le q, ?_⟩ <;> omega
    rw [List.mem_append, List.mem_append] at hq
    rcases hq with (hq | hq) | hq
    · exact hpart _ _ (by omega) (hrs q hq)
    · exact hpart _ _ he (hms q hq)
    · exact hpart _ _ (Nat.le_refl _) (hhs q hq)

end Reads

/-! ## Staying inside the image -/

open Reader (Inside)

/-- **The engine does not see what lies behind an image**: two buffers that agree up to the
length they are given with are configured alike. -/
theorem ntfeConfigure_congr (env : Env) (gs : Gs) {cfg cfg' : NtfeConfig} {cfg_len : u32}
    (h : ∀ q < cfg_len.toNat, cfg' q = cfg q) :
    ntfeConfigure env gs cfg' cfg_len = ntfeConfigure env gs cfg cfg_len := by
  rw [← Reads.value_ntfeConfigure, ← Reads.value_ntfeConfigure]
  exact Reader.value_congr _ fun q hq =>
    h q (Reads.inside_ntfeConfigure env gs cfg cfg_len q hq).2

/-- The sections lie behind the header, and each behind the one before, without a gap. -/
structure SectionsInOrder (cfg : NtfeConfig) : Prop where
  rules_before_meters : ∀ q r, Inside SZ_NTFE_CONFIG cfg.metersOfs q →
    Inside cfg.metersOfs cfg.hostsOfs r → q < r
  meters_before_hosts : ∀ q r, Inside cfg.metersOfs cfg.hostsOfs q →
    Inside cfg.hostsOfs cfg.endOfs r → q < r
  rules_before_hosts : ∀ q r, Inside SZ_NTFE_CONFIG cfg.metersOfs q →
    Inside cfg.hostsOfs cfg.endOfs r → q < r
  no_gap : ∀ q, Inside SZ_NTFE_CONFIG cfg.endOfs q ↔ Inside SZ_NTFE_CONFIG cfg.metersOfs q
    ∨ Inside cfg.metersOfs cfg.hostsOfs q ∨ Inside cfg.hostsOfs cfg.endOfs q

theorem sectionsInOrder (cfg : NtfeConfig) : SectionsInOrder cfg := by
  have hm : SZ_NTFE_CONFIG ≤ cfg.metersOfs := Nat.le_add_right _ _
  have hh : cfg.metersOfs ≤ cfg.hostsOfs := Nat.le_add_right _ _
  have he : cfg.hostsOfs ≤ cfg.endOfs := Nat.le_add_right _ _
  constructor <;> unfold Inside <;> omega

/-- **Parsing stays inside the image**, for every buffer: the programs that compute the
validation and the configuration read bytes in front of the length, and behind its validation a
configuration reads the three sections one after another. -/
theorem configuration_reads_inside (env : Env) (gs : Gs) (cfg : NtfeConfig) (cfg_len : u32) :
    ((Reads.ntfeValidateConfiguration gs cfg_len).run.value cfg
          = ntfeValidateConfiguration gs cfg cfg_len
      ∧ ∀ q ∈ (Reads.ntfeValidateConfiguration gs cfg_len).run.trace cfg, q < cfg_len.toNat)
    ∧ ((Reads.ntfeConfigure env gs cfg_len).run.value cfg = ntfeConfigure env gs cfg cfg_len
      ∧ ∀ q ∈ (Reads.ntfeConfigure env gs cfg_len).run.trace cfg, q < cfg_len.toNat)
    ∧ (∃ rs ms hs, (Reads.ntfeConfigure env gs cfg_len).run.trace cfg
          = (Reads.ntfeValidateConfiguration gs cfg_len).run.trace cfg ++ (rs ++ ms ++ hs)
        ∧ (∀ q ∈ rs, q < SZ_NTFE_CONFIG ∨ Inside SZ_NTFE_CONFIG cfg.metersOfs q)
        ∧ (∀ q ∈ ms, q < SZ_NTFE_CONFIG ∨ Inside cfg.metersOfs cfg.hostsOfs q)
        ∧ (∀ q ∈ hs, q < SZ_NTFE_CONFIG ∨ Inside cfg.hostsOfs cfg.endOfs q))
    ∧ SectionsInOrder cfg := by
  obtain ⟨rs, ms, hs, htr, -, hrs, hms, hhs⟩ := Reads.trace_ntfeConfigure env gs cfg cfg_len
  refine ⟨⟨Reads.value_ntfeValidateConfiguration gs cfg cfg_len, fun q hq => ?_⟩,
    ⟨Reads.value_ntfeConfigure env gs cfg cfg_len, fun q hq => ?_⟩,
    ⟨rs, ms, hs, htr, hrs, hms, hhs⟩, sectionsInOrder cfg⟩
  · exact (Reads.inside_ntfeValidateConfiguration gs cfg cfg_len q hq).2
  · exact (Reads.inside_ntfeConfigure env gs cfg cfg_len q hq).2

end Ntfw
