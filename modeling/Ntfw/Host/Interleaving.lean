import Ntfw.Host.Reservation
import Ntfw.Ntfe.Growth
import Ntfw.Lib.Counting

set_option autoImplicit false

/-! # Pool growth under interleaving

A growth is two reads and a store with a commit between them, and no lock around them. What keeps
two of them apart is that an index is handed out only once the pool has it: before the next growth
index is drawn, half an interval of indices has to be drawn by CPUs that then wait. -/

namespace Ntfw.Growth

open Transition

/-! ## What the growth is to achieve -/

/-- **No range is committed twice, the size counts the finished growths, and every index that was
handed out is in a committed range.** -/
structure Sound (s : Pool) : Prop where
  once : s.committed.Nodup
  size : s.hp_true_sz.toNat = HPOOL_GROW.toNat * (1 + s.grown)
  inside : ∀ idx ∈ s.handed, ∃ base ∈ s.committed,
    base.toNat ≤ idx.toNat ∧ idx.toNat < base.toNat + HPOOL_GROW.toNat

/-- The condition, of a step: a range is committed only where the pool ends and while no other
growth is between its commit and its store; and the size stored fits its 32 bits. -/
def StepApart (s : Pool) (c : Cpu) : Prop :=
  match s.pc c with
  | .commit _ base => base = s.hp_true_sz ∧ ∀ d, (s.pc d).growing = false
  | .store _ _ => s.hp_true_sz.toNat + HPOOL_GROW.toNat < 2 ^ 32
  | _ => True

/-! ## The invariant -/

/-- What holds between the steps as long as growths keep apart. -/
structure Inv (s : Pool) : Prop where
  /-- The ranges below the size are committed, and the one at it while a growth is under way. -/
  committed : ∀ b, b ∈ s.committed ↔ 64 ∣ b.toNat ∧ (b.toNat < s.hp_true_sz.toNat
    ∨ b = s.hp_true_sz ∧ ∃ c, (s.pc c).growing = true)
  one : ∀ c d, (s.pc c).growing = true → (s.pc d).growing = true → c = d
  store : ∀ c idx size, s.pc c = .store idx size → size = s.hp_true_sz + HPOOL_GROW
  base : ∀ c idx b, s.pc c = .commit idx b → 64 ∣ b.toNat ∧ b.toNat ≤ s.hp_true_sz.toNat
  /-- What is drawn and not in the pool, somebody still holds. -/
  held : ∀ idx : u32, s.hp_true_sz.toNat ≤ idx.toNat → idx.toNat ≤ s.hp_size.toNat →
    ∃ c, (s.pc c).index = some idx
  drawn : ∀ c idx, (s.pc c).index = some idx → idx.toNat ≤ s.hp_size.toNat

theorem inv_init : Inv Pool.init where
  committed := by
    intro b
    have hsize : Pool.init.hp_true_sz.toNat = 64 := rfl
    have hzero : b = 0 ↔ b.toNat = 0 := by rw [← BitVec.toNat_inj]; rfl
    show b ∈ [0] ↔ _
    rw [List.mem_singleton, hsize, hzero]
    constructor
    · intro h
      rw [h]
      exact ⟨Nat.dvd_zero 64, Or.inl (by decide)⟩
    · rintro ⟨hdvd, hlt | ⟨-, c, hc⟩⟩
      · exact Nat.eq_zero_of_dvd_of_lt hdvd hlt
      · cases hc
  one := fun c d hc => by cases hc
  store := fun c idx size hc => by cases hc
  base := fun c idx b hc => by cases hc
  held := fun idx h h' => absurd (Nat.le_trans h h') (by decide)
  drawn := fun c idx hc => by cases hc

theorem sound_init : Sound Pool.init where
  once := List.nodup_singleton _
  size := rfl
  inside := fun _ h => by cases h

/-- **No more is drawn than there are CPUs to hold it**: every CPU that is free of an index
outside the pool makes one less. -/
theorem Inv.drawn_le {s : Pool} (h : Inv s) (free : Finset Cpu)
    (hfree : ∀ c ∈ free, ∀ idx, (s.pc c).index = some idx → idx.toNat < s.hp_true_sz.toNat) :
    s.hp_size.toNat + 1 + free.card ≤ s.hp_true_sz.toNat + MAX_CPUS := by
  have hcard : freeᶜ.card = MAX_CPUS - free.card := by
    rw [Finset.card_compl, Fintype.card_fin]
  have hle : free.card ≤ MAX_CPUS := by
    have := Finset.card_le_univ free
    rwa [Fintype.card_fin] at this
  by_cases hin : s.hp_size.toNat + 1 ≤ s.hp_true_sz.toNat
  · omega
  · have hheld := Counting.le_card_of_held freeᶜ
      (fun c i => ∃ idx, (s.pc c).index = some idx ∧ idx.toNat = i)
      s.hp_true_sz.toNat (s.hp_size.toNat + 1 - s.hp_true_sz.toNat)
      (by
        rintro c i j ⟨idx, hidx, rfl⟩ ⟨idx', hidx', rfl⟩
        rw [hidx] at hidx'
        cases hidx'
        rfl)
      (by
        intro i hi hlt
        have hsize := s.hp_size.isLt
        have hnat : (BitVec.ofNat 32 i).toNat = i := by
          rw [BitVec.toNat_ofNat, Nat.mod_eq_of_lt (by omega)]
        obtain ⟨c, hc⟩ := h.held (BitVec.ofNat 32 i) (by omega) (by omega)
        refine ⟨c, Finset.mem_compl.mpr fun hmem => ?_, _, hc, hnat⟩
        have := hfree c hmem _ hc
        omega)
    omega

/-! ## The steps keep it -/

theorem setPc_self (s : Pool) (c : Cpu) (pc : Pc) : (s.setPc c pc).pc c = pc :=
  Function.update_self _ _ _

theorem setPc_of_ne (s : Pool) {c d : Cpu} (pc : Pc) (h : d ≠ c) :
    (s.setPc c pc).pc d = s.pc d := Function.update_of_ne h _ _

/-- What holds of the CPU that has moved, and of the others where they were, holds of all. -/
theorem forall_setPc {s : Pool} {c : Cpu} {pc : Pc} (P : Cpu → Pc → Prop) (hself : P c pc)
    (hother : ∀ d, d ≠ c → P d (s.pc d)) (d : Cpu) : P d ((s.setPc c pc).pc d) :=
  (Function.forall_update_iff s.pc P).mpr ⟨hself, hother⟩ d

/-- What the invariant speaks of. -/
theorem Inv.congr {s t : Pool} (h : Inv s) (hsize : t.hp_size = s.hp_size)
    (htrue : t.hp_true_sz = s.hp_true_sz) (hpc : t.pc = s.pc)
    (hcommitted : t.committed = s.committed) : Inv t := by
  constructor
  · rw [hcommitted, htrue, hpc]
    exact h.committed
  · rw [hpc]
    exact h.one
  · rw [hpc, htrue]
    exact h.store
  · rw [hpc, htrue]
    exact h.base
  · rw [hpc, htrue, hsize]
    exact h.held
  · rw [hpc, hsize]
    exact h.drawn

/-- **A CPU moves on** without touching the pool. It keeps its index, or lets go of one that the
pool has. -/
theorem Inv.setPc {s : Pool} (h : Inv s) (c : Cpu) (pc : Pc)
    (hgrowing : pc.growing = (s.pc c).growing)
    (hindex : pc.index = (s.pc c).index
      ∨ pc.index = none ∧ ∀ idx, (s.pc c).index = some idx → idx.toNat < s.hp_true_sz.toNat)
    (hstore : ∀ idx size, pc = .store idx size → size = s.hp_true_sz + HPOOL_GROW)
    (hbase : ∀ idx b, pc = .commit idx b → 64 ∣ b.toNat ∧ b.toNat ≤ s.hp_true_sz.toNat) :
    Inv (s.setPc c pc) := by
  have hsame : ∀ d, ((s.setPc c pc).pc d).growing = (s.pc d).growing :=
    forall_setPc (fun d q => q.growing = (s.pc d).growing) hgrowing fun _ _ => rfl
  constructor
  · intro b
    simp only [hsame]
    exact h.committed b
  · intro d e
    rw [hsame, hsame]
    exact h.one d e
  · exact forall_setPc (fun _ q => ∀ idx size, q = .store idx size →
      size = s.hp_true_sz + HPOOL_GROW) hstore fun d _ => h.store d
  · exact forall_setPc (fun _ q => ∀ idx b, q = .commit idx b →
      64 ∣ b.toNat ∧ b.toNat ≤ s.hp_true_sz.toNat) hbase fun d _ => h.base d
  · intro idx hle hle'
    obtain ⟨d, hd⟩ := h.held idx hle hle'
    refine ⟨d, ?_⟩
    by_cases hdc : d = c
    · subst hdc
      rcases hindex with hkeep | ⟨-, hlt⟩
      · rw [setPc_self, hkeep, hd]
      · exact absurd hle (Nat.not_le_of_lt (hlt idx hd))
    · rw [setPc_of_ne s pc hdc, hd]
  · refine forall_setPc (fun _ q => ∀ idx, q.index = some idx → idx.toNat ≤ s.hp_size.toNat)
      (fun idx hidx => ?_) fun d _ => h.drawn d
    rcases hindex with hkeep | ⟨hnone, -⟩
    · exact h.drawn c idx (hkeep ▸ hidx)
    · rw [hnone] at hidx
      cases hidx

/-- The size is a multiple of 64, so the next one fits if it does not wrap to nothing. -/
theorem Sound.size_le {s : Pool} (h : Sound s) : s.hp_true_sz.toNat + 64 ≤ 2 ^ 32 := by
  have hsize := h.size
  have hlt := s.hp_true_sz.isLt
  have hgrow : HPOOL_GROW.toNat = 64 := rfl
  rw [hgrow] at hsize
  omega

theorem Sound.dvd {s : Pool} (h : Sound s) : 64 ∣ s.hp_true_sz.toNat := ⟨_, h.size⟩

theorem toNat_succ {w : u32} (h : w.toNat + 1 < 2 ^ 32) : (w + 1).toNat = w.toNat + 1 := by
  rw [BitVec.toNat_add]
  show (w.toNat + 1) % 2 ^ 32 = _
  rw [Nat.mod_eq_of_lt h]

/-- A CPU that can draw is one that holds nothing, so the counter does not wrap. -/
theorem Inv.draw {s : Pool} {c : Cpu} (h : Inv s) (hs : Sound s) (hpc : s.pc c = .idle) {pc : Pc}
    (hindex : pc.index = some (s.hp_size + 1)) (hgrowing : pc.growing = false)
    (hstore : ∀ idx size, pc ≠ .store idx size) (hbase : ∀ idx b, pc ≠ .commit idx b) :
    Inv ({ s with hp_size := s.hp_size + 1 }.setPc c pc) := by
  have hdrawn := h.drawn_le {c} fun d hd idx hidx => by
    rw [Finset.mem_singleton.mp hd, hpc] at hidx
    cases hidx
  have hcpus : MAX_CPUS = 64 := rfl
  have hle := hs.size_le
  rw [Finset.card_singleton] at hdrawn
  have hsucc := toNat_succ (w := s.hp_size) (by omega)
  have hother : ∀ d, d ≠ c → ({ s with hp_size := s.hp_size + 1 }.setPc c pc).pc d = s.pc d :=
    fun d hd => setPc_of_ne _ pc hd
  have hself : ({ s with hp_size := s.hp_size + 1 }.setPc c pc).pc c = pc := setPc_self _ c pc
  have hsame : ∀ d, (({ s with hp_size := s.hp_size + 1 }.setPc c pc).pc d).growing
      = (s.pc d).growing :=
    forall_setPc (fun d q => q.growing = (s.pc d).growing) (by rw [hpc, hgrowing]; rfl)
      fun _ _ => rfl
  constructor
  · intro b
    simp only [hsame]
    exact h.committed b
  · intro d e
    rw [hsame, hsame]
    exact h.one d e
  · exact forall_setPc (fun _ q => ∀ idx size, q = .store idx size →
      size = s.hp_true_sz + HPOOL_GROW) (fun idx size hq => absurd hq (hstore idx size))
      fun d _ => h.store d
  · exact forall_setPc (fun _ q => ∀ idx b, q = .commit idx b →
      64 ∣ b.toNat ∧ b.toNat ≤ s.hp_true_sz.toNat) (fun idx b hq => absurd hq (hbase idx b))
      fun d _ => h.base d
  · intro idx hle hle'
    by_cases hnew : idx = s.hp_size + 1
    · exact ⟨c, by rw [hself, hindex, hnew]⟩
    · have hold : idx.toNat ≤ s.hp_size.toNat := by
        have hne : idx.toNat ≠ (s.hp_size + 1).toNat := fun heq => hnew (BitVec.eq_of_toNat_eq heq)
        have hup : idx.toNat ≤ (s.hp_size + 1).toNat := hle'
        omega
      obtain ⟨d, hd⟩ := h.held idx hle hold
      have hdc : d ≠ c := by
        rintro rfl
        rw [hpc] at hd
        cases hd
      exact ⟨d, by rw [hother d hdc, hd]⟩
  · refine forall_setPc (fun _ q => ∀ idx, q.index = some idx →
      idx.toNat ≤ (s.hp_size + 1).toNat) (fun idx hidx => ?_) fun d _ idx hidx => ?_
    · rw [hindex] at hidx
      rw [Option.some.inj hidx]
    · have := h.drawn d idx hidx
      omega

/-- The range at the end of the pool is committed, by the only growth under way. -/
theorem Inv.commit {s : Pool} {c : Cpu} {idx : u32} (h : Inv s) (hs : Sound s)
    (hpc : s.pc c = .commit idx s.hp_true_sz) (hapart : ∀ d, (s.pc d).growing = false) :
    Inv { s.setPc c (.readSize idx) with committed := s.hp_true_sz :: s.committed } := by
  have honly : ∀ d, ((s.setPc c (.readSize idx)).pc d).growing = true ↔ d = c :=
    forall_setPc (fun d q => q.growing = true ↔ d = c) (iff_of_true rfl rfl) fun d hd => by
      rw [hapart d]
      exact iff_of_false Bool.false_ne_true hd
  constructor
  · intro b
    show b ∈ s.hp_true_sz :: s.committed ↔ 64 ∣ b.toNat ∧ (b.toNat < s.hp_true_sz.toNat
      ∨ b = s.hp_true_sz ∧ ∃ d, ((s.setPc c (.readSize idx)).pc d).growing = true)
    rw [List.mem_cons, h.committed b]
    simp only [honly, hapart, Bool.false_eq_true, exists_false, and_false, or_false, exists_eq,
      and_true]
    constructor
    · rintro (rfl | ⟨hdvd, hlt⟩)
      · exact ⟨hs.dvd, Or.inr rfl⟩
      · exact ⟨hdvd, Or.inl hlt⟩
    · rintro ⟨hdvd, hlt | rfl⟩
      · exact Or.inr ⟨hdvd, hlt⟩
      · exact Or.inl rfl
  · intro d e hd he
    rw [(honly d).mp hd, (honly e).mp he]
  · exact forall_setPc (fun _ q => ∀ i size, q = .store i size →
      size = s.hp_true_sz + HPOOL_GROW) nofun fun d _ => h.store d
  · exact forall_setPc (fun _ q => ∀ i b, q = .commit i b →
      64 ∣ b.toNat ∧ b.toNat ≤ s.hp_true_sz.toNat) nofun fun d _ => h.base d
  · intro i hle hle'
    -- The CPU keeps the index it has drawn.
    have hsame : ∀ d, ((s.setPc c (.readSize idx)).pc d).index = (s.pc d).index :=
      forall_setPc (fun d q => q.index = (s.pc d).index) (by rw [hpc]; rfl) fun _ _ => rfl
    obtain ⟨d, hd⟩ := h.held i hle hle'
    exact ⟨d, (hsame d).trans hd⟩
  · exact forall_setPc (fun _ q => ∀ i, q.index = some i → i.toNat ≤ s.hp_size.toNat)
      (fun i hi => h.drawn c i (by rw [hpc]; exact hi)) fun d _ => h.drawn d

/-- The size stored is the next one. -/
theorem Inv.toNat_size {s : Pool} {c : Cpu} {idx size : u32} (h : Inv s)
    (hpc : s.pc c = .store idx size) (hfits : s.hp_true_sz.toNat + HPOOL_GROW.toNat < 2 ^ 32) :
    size.toNat = s.hp_true_sz.toNat + 64 := by
  rw [h.store c idx size hpc, BitVec.toNat_add]
  exact Nat.mod_eq_of_lt hfits

/-- With the growth under way finished, the pool has everything that was drawn. -/
theorem Inv.stored {s : Pool} {c : Cpu} {idx size : u32} (h : Inv s) (hs : Sound s)
    (hpc : s.pc c = .store idx size)
    (hfits : s.hp_true_sz.toNat + HPOOL_GROW.toNat < 2 ^ 32) :
    Inv { s.handOut c idx with hp_true_sz := size, grown := s.grown + 1 } := by
  have hsize := h.toNat_size hpc hfits
  have hdrawn := h.drawn_le ∅ fun d hd => absurd hd (Finset.notMem_empty d)
  have hcpus : MAX_CPUS = 64 := rfl
  rw [Finset.card_empty] at hdrawn
  have hgrowing : (s.pc c).growing = true := by rw [hpc]; rfl
  have hnone : ∀ d, ((s.setPc c .idle).pc d).growing = false :=
    forall_setPc (fun _ q => q.growing = false) rfl fun d hd => by
      by_contra hcon
      exact hd (h.one d c (by simpa using hcon) hgrowing)
  constructor
  · intro b
    show b ∈ s.committed ↔ 64 ∣ b.toNat ∧ (b.toNat < size.toNat
      ∨ b = size ∧ ∃ d, ((s.setPc c .idle).pc d).growing = true)
    rw [h.committed b, hsize]
    simp only [hnone, Bool.false_eq_true, exists_false, and_false, or_false]
    refine and_congr_right fun hdvd => ?_
    have hat : b = s.hp_true_sz ↔ b.toNat = s.hp_true_sz.toNat := BitVec.toNat_inj.symm
    have hold := hs.dvd
    rw [and_iff_left ⟨c, hgrowing⟩, hat]
    omega
  · intro d e hd
    exact absurd ((hnone d).symm.trans hd) Bool.false_ne_true
  · intro d i sz hd
    -- There was no other growth that far.
    have hgrow : ((s.setPc c .idle).pc d).growing = true := by
      rw [show (s.setPc c .idle).pc d = .store i sz from hd]
      rfl
    exact absurd ((hnone d).symm.trans hgrow) Bool.false_ne_true
  · refine forall_setPc (fun _ q => ∀ i b, q = .commit i b →
      64 ∣ b.toNat ∧ b.toNat ≤ size.toNat) nofun fun d _ i b hd => ?_
    obtain ⟨hdvd, hle⟩ := h.base d i b hd
    exact ⟨hdvd, by omega⟩
  · intro i hle hle'
    have hle : size.toNat ≤ i.toNat := hle
    have hle' : i.toNat ≤ s.hp_size.toNat := hle'
    omega
  · exact forall_setPc (fun _ q => ∀ i, q.index = some i → i.toNat ≤ s.hp_size.toNat) nofun
      fun d _ => h.drawn d

/-! ## Soundness of one step -/

/-- What is below the size is in a committed range. -/
theorem Inv.mem_committed {s : Pool} (h : Inv s) {idx : u32}
    (hlt : idx.toNat < s.hp_true_sz.toNat) : ∃ base ∈ s.committed,
      base.toNat ≤ idx.toNat ∧ idx.toNat < base.toNat + HPOOL_GROW.toNat := by
  have hgrow : HPOOL_GROW.toNat = 64 := rfl
  have hnat : (BitVec.ofNat 32 (64 * (idx.toNat / 64))).toNat = 64 * (idx.toNat / 64) := by
    rw [BitVec.toNat_ofNat, Nat.mod_eq_of_lt (by omega)]
  refine ⟨BitVec.ofNat 32 (64 * (idx.toNat / 64)), (h.committed _).mpr ⟨?_, Or.inl ?_⟩, ?_, ?_⟩
  · rw [hnat]
    exact Nat.dvd_mul_right 64 _
  · omega
  · omega
  · omega

theorem Sound.handOut {s : Pool} {c : Cpu} {idx : u32} (hs : Sound s) (h : Inv s)
    (hlt : idx.toNat < s.hp_true_sz.toNat) : Sound (s.handOut c idx) := by
  refine ⟨hs.once, hs.size, fun i hi => ?_⟩
  rcases List.mem_cons.mp hi with rfl | hi
  · exact h.mem_committed hlt
  · exact hs.inside i hi

theorem Inv.handOut {s : Pool} {c : Cpu} {idx : u32} (h : Inv s)
    (hindex : (s.pc c).index = some idx) (hgrowing : (s.pc c).growing = false)
    (hlt : idx.toNat < s.hp_true_sz.toNat) : Inv (s.handOut c idx) := by
  refine (h.setPc c .idle hgrowing.symm (Or.inr ⟨rfl, ?_⟩) nofun nofun).congr
    rfl rfl rfl rfl
  intro i hi
  rw [hindex] at hi
  cases hi
  exact hlt

/-- A commit is the first of its range exactly if the range is at the end of the pool and nobody
else is there. -/
theorem Sound.commit_iff {s : Pool} {c : Cpu} {idx base : u32} (hs : Sound s) (h : Inv s)
    (hpc : s.pc c = .commit idx base) :
    Sound { s.setPc c (.readSize idx) with committed := base :: s.committed }
      ↔ base = s.hp_true_sz ∧ ∀ d, (s.pc d).growing = false := by
  obtain ⟨hdvd, hle⟩ := h.base c idx base hpc
  have hfresh : base ∉ s.committed ↔ base = s.hp_true_sz ∧ ∀ d, (s.pc d).growing = false := by
    rw [h.committed base]
    constructor
    · intro hnot
      have heq : base = s.hp_true_sz := by
        by_contra hne
        have hlt : base.toNat ≠ s.hp_true_sz.toNat := fun heq => hne (BitVec.eq_of_toNat_eq heq)
        exact hnot ⟨hdvd, Or.inl (by omega)⟩
      refine ⟨heq, fun d => ?_⟩
      by_contra hcon
      exact hnot ⟨hdvd, Or.inr ⟨heq, d, by simpa using hcon⟩⟩
    · rintro ⟨rfl, hapart⟩ ⟨-, hlt | ⟨-, d, hd⟩⟩
      · exact Nat.lt_irrefl _ hlt
      · exact absurd ((hapart d).symm.trans hd) Bool.false_ne_true
  rw [← hfresh]
  constructor
  · exact fun ht => (List.nodup_cons.mp ht.once).1
  · intro hnot
    refine ⟨List.nodup_cons.mpr ⟨hnot, hs.once⟩, hs.size, fun i hi => ?_⟩
    obtain ⟨b, hb, hin⟩ := hs.inside i hi
    exact ⟨b, List.mem_cons_of_mem _ hb, hin⟩

/-- A store counts the growth exactly if the new size fits. -/
theorem Sound.store_iff {s : Pool} {c : Cpu} {idx size : u32} (hs : Sound s) (h : Inv s)
    (hpc : s.pc c = .store idx size) :
    Sound { s.handOut c idx with hp_true_sz := size, grown := s.grown + 1 }
      ↔ s.hp_true_sz.toNat + HPOOL_GROW.toNat < 2 ^ 32 := by
  have hgrow : HPOOL_GROW.toNat = 64 := rfl
  constructor
  · intro ht
    have hsize : size.toNat = HPOOL_GROW.toNat * (1 + (s.grown + 1)) := ht.size
    have hlt := size.isLt
    have hold := hs.size
    rw [hgrow] at hsize hold ⊢
    omega
  · intro hfits
    have hsize := h.toNat_size hpc hfits
    have hold := hs.size
    have hnew := h.stored hs hpc hfits
    refine ⟨hs.once, ?_, fun i hi => ?_⟩
    · show size.toNat = HPOOL_GROW.toNat * (1 + (s.grown + 1))
      rw [hgrow] at hold ⊢
      omega
    · rcases List.mem_cons.mp hi with rfl | hi
      · -- Its own index was drawn, and the pool now has everything that was.
        refine hnew.mem_committed ?_
        have hdrawn := h.drawn_le ∅ fun d hd => absurd hd (Finset.notMem_empty d)
        have hcpus : MAX_CPUS = 64 := rfl
        have hidx := h.drawn c i (by rw [hpc]; rfl)
        rw [Finset.card_empty] at hdrawn
        show i.toNat < size.toNat
        omega
      · exact hs.inside i hi

/-- **One step** from a sound pool is sound exactly under the condition, and then keeps the
invariant. -/
theorem step_sound_iff {s t : Pool} {c : Cpu} {r : Option u32} (h : Inv s) (hs : Sound s)
    (hstep : step s c = .ok (r, t)) :
    (Sound t ↔ StepApart s c) ∧ (StepApart s c → Inv t) := by
  unfold step at hstep
  unfold StepApart
  cases hpc : s.pc c with
  | idle =>
      rw [hpc] at hstep
      cases hstep
      refine ⟨iff_of_true ⟨hs.once, hs.size, hs.inside⟩ trivial, fun _ => ?_⟩
      refine h.draw hs hpc ?_ ?_ ?_ ?_ <;> split <;> simp [Pc.index, Pc.growing]
  | readBase idx =>
      rw [hpc] at hstep
      cases hstep
      refine ⟨iff_of_true ⟨hs.once, hs.size, hs.inside⟩ trivial, fun _ => ?_⟩
      refine h.setPc c _ (by rw [hpc]; rfl) (Or.inl (by rw [hpc]; rfl)) nofun ?_
      intro i b hb
      cases hb
      exact ⟨hs.dvd, Nat.le_refl _⟩
  | commit idx base =>
      rw [hpc] at hstep
      cases hstep
      refine ⟨hs.commit_iff h hpc, ?_⟩
      rintro ⟨rfl, hapart⟩
      exact h.commit hs hpc hapart
  | readSize idx =>
      rw [hpc] at hstep
      cases hstep
      refine ⟨iff_of_true ⟨hs.once, hs.size, hs.inside⟩ trivial, fun _ => ?_⟩
      refine h.setPc c _ (by rw [hpc]; rfl) (Or.inl (by rw [hpc]; rfl)) ?_ nofun
      intro i size hsize
      cases hsize
      rfl
  | store idx size =>
      rw [hpc] at hstep
      cases hstep
      exact ⟨hs.store_iff h hpc, h.stored hs hpc⟩
  | test idx =>
      rw [hpc] at hstep
      dsimp only at hstep
      split at hstep
      · cases hstep
        refine ⟨iff_of_true ⟨hs.once, hs.size, hs.inside⟩ trivial, fun _ => ?_⟩
        exact (h.setPc c (.wait idx) (by rw [hpc]; rfl) (Or.inl (by rw [hpc]; rfl))
          nofun nofun).congr rfl rfl rfl rfl
      · rename_i hfits
        cases hstep
        have hlt : idx.toNat < s.hp_true_sz.toNat := Nat.lt_of_not_le hfits
        exact ⟨iff_of_true (hs.handOut h hlt) trivial,
          fun _ => h.handOut (by rw [hpc]; rfl) (by rw [hpc]; rfl) hlt⟩
  | wait idx =>
      rw [hpc] at hstep
      dsimp only at hstep
      split at hstep
      · cases hstep
        exact ⟨iff_of_true hs trivial, fun _ => h⟩
      · rename_i hfits
        cases hstep
        have hlt : idx.toNat < s.hp_true_sz.toNat := Nat.lt_of_not_le hfits
        exact ⟨iff_of_true (hs.handOut h hlt) trivial,
          fun _ => h.handOut (by rw [hpc]; rfl) (by rw [hpc]; rfl) hlt⟩

/-! ## The exact condition -/

/-- A CPU can always go on, if only to test its index again. -/
theorem step_total (s : Pool) (c : Cpu) : ∃ r t, step s c = .ok (r, t) := by
  unfold step
  cases s.pc c with
  | test idx => dsimp only; split <;> exact ⟨_, _, rfl⟩
  | wait idx => dsimp only; split <;> exact ⟨_, _, rfl⟩
  | _ => exact ⟨_, _, rfl⟩

theorem run_total (cs : List Cpu) : ∀ s, ∃ t, run step s cs = .ok t := by
  induction cs with
  | nil => exact fun s => ⟨s, rfl⟩
  | cons c cs ih =>
      intro s
      obtain ⟨r, u, hu⟩ := step_total s c
      obtain ⟨t, ht⟩ := ih u
      exact ⟨t, run_cons_ok.mpr ⟨r, u, hu, ht⟩⟩

/-- **Growth is sound exactly as long as growths keep apart**: in every interleaving of the CPUs,
no range is committed twice, the size counts the growths and the indices handed out are in
committed ranges, exactly if every commit and every store meets the condition. -/
theorem sound_iff_apart (cs : List Cpu) :
    Always step Sound Pool.init cs ↔ Meets step StepApart Pool.init cs := by
  obtain ⟨s, hrun⟩ := run_total cs Pool.init
  exact always_iff_meets_of_kept
    (fun _ _ _ _ h hs hc hstep => (step_sound_iff h hs hstep).2 hc)
    (fun _ _ _ _ h hs hstep => (step_sound_iff h hs hstep).1) inv_init sound_init hrun

/-- CPU 0 draws index 32 and is held up. CPU 1 is handed out the indices to 63; CPUs 1 to 32 then
draw one each and wait, and CPU 33 draws the next growth index. -/
def overlap : List Cpu :=
  List.replicate 62 1 ++ [0] ++ List.replicate 62 1
    ++ (List.range 33).map (fun i => Fin.ofNat MAX_CPUS (i + 1)) ++ [0, 0, 33, 33]

/-- **34 CPUs commit a range twice.** -/
theorem growth_not_sound : ¬ ∀ (cs : List Cpu) (s : Pool),
    run step Pool.init cs = .ok s → Sound s := by
  intro hall
  have hend : (run step Pool.init overlap).toOption.map Pool.committed = some [64, 64, 0] := by
    decide +kernel
  obtain ⟨s, hs⟩ := run_total overlap Pool.init
  rw [hs] at hend
  have hcommitted : s.committed = [64, 64, 0] := Option.some.inj hend
  have honce := (hall overlap s hs).once
  rw [hcommitted] at honce
  exact absurd honce (by decide)

/-! ## The call that nobody interrupts -/

/-- **`hostAllocate` is the run of one CPU through the function**: it leaves the same counter and
size, and hands out the same index. -/
theorem run_alone {gs gs' : Gs} {c : Cpu} {idx : u32} {s : Pool}
    (hal : hostAllocate gs c = .ok (idx, gs')) (hidle : s.pc c = .idle)
    (hsize : s.hp_size = gs.hp_size) (htrue : s.hp_true_sz = gs.hp_true_sz) :
    ∃ n t, run step s (List.replicate n c) = .ok t ∧ t.hp_size = gs'.hp_size
      ∧ t.hp_true_sz = gs'.hp_true_sz ∧ t.handed = idx :: s.handed ∧ t.pc = s.pc := by
  obtain ⟨rfl, hsize', htrue', hcase⟩ := hostAllocate_sizes hal
  rw [← hsize] at hsize' ⊢
  have hback : Function.update s.pc c .idle = s.pc := by
    rw [← hidle, Function.update_eq_self]
  rw [← hsize, ← htrue] at hcase
  rw [grownTo, ← hsize, ← htrue] at htrue'
  by_cases hgrow : (s.hp_size + 1 - HPOOL_GROW / 2) &&& (HPOOL_GROW - 1) = 0
  · -- Five accesses: the counter, and the four of the growth.
    rw [if_pos hgrow] at htrue'
    have hindex : growthIndex (s.hp_size + 1) = true := beq_iff_eq.mpr hgrow
    refine ⟨5, { s with
      hp_size := s.hp_size + 1
      hp_true_sz := s.hp_true_sz + HPOOL_GROW
      committed := s.hp_true_sz :: s.committed
      grown := s.grown + 1
      handed := (s.hp_size + 1) :: s.handed }, ?_, hsize'.symm, htrue'.symm, rfl, rfl⟩
    simp only [List.replicate, run, step, hidle, hindex, Pool.setPc, Pool.handOut, bind,
      Except.bind, if_true, Function.update_self, Function.update_idem, hback]
  · rw [if_neg hgrow] at htrue'
    have hindex : growthIndex (s.hp_size + 1) = false := by
      rw [growthIndex, beq_eq_false_iff_ne]
      exact hgrow
    refine ⟨2, { s with
      hp_size := s.hp_size + 1
      handed := (s.hp_size + 1) :: s.handed }, ?_, hsize'.symm, htrue'.symm, rfl, rfl⟩
    simp only [List.replicate, run, step, hidle, hindex, Pool.setPc, Pool.handOut, bind,
      Except.bind, Bool.false_eq_true, if_false, Function.update_self, Function.update_idem,
      hcase.resolve_left hgrow, hback]

/-! ## Few CPUs -/

/-- The call is one that grows the pool. -/
def Pc.grows : Pc → Bool
  | .readBase _ => true
  | .commit _ _ => true
  | .readSize _ => true
  | .store _ _ => true
  | _ => false

/-- The condition without its part about other growths. -/
def StepFits (s : Pool) (c : Cpu) : Prop :=
  ∀ idx size, s.pc c = .store idx size → s.hp_true_sz.toNat + HPOOL_GROW.toNat < 2 ^ 32

/-- The invariant when only the CPUs of a set take steps: there is one growing call at most, the
one with the growth index next below the size. -/
structure Few (cpus : Finset Cpu) (s : Pool) : Prop extends Inv s where
  outside : ∀ c, c ∉ cpus → s.pc c = .idle
  alone : ∀ c d, (s.pc c).grows = true → (s.pc d).grows = true → c = d
  where_base : ∀ c idx b, s.pc c = .commit idx b → b = s.hp_true_sz
  own : ∀ c idx, (s.pc c).grows = true → (s.pc c).index = some idx →
    idx.toNat + 32 = s.hp_true_sz.toNat
  quiet : (∀ c, (s.pc c).grows = false) →
    s.hp_true_sz.toNat ≤ s.hp_size.toNat + 96 ∧ s.hp_size.toNat + 32 < s.hp_true_sz.toNat
  busy : (∃ c, (s.pc c).grows = true) →
    s.hp_true_sz.toNat ≤ s.hp_size.toNat + 32 ∧ s.hp_size.toNat < s.hp_true_sz.toNat + 32

/-- A growth that is under way is a growing call. -/
theorem Pc.grows_of_growing {pc : Pc} (h : pc.growing = true) : pc.grows = true := by
  cases pc with
  | readSize idx => rfl
  | store idx size => rfl
  | _ => cases h

theorem few_init (cpus : Finset Cpu) : Few cpus Pool.init where
  toInv := inv_init
  outside := fun _ _ => rfl
  alone := fun c d hc => by cases hc
  where_base := fun c idx b hc => by cases hc
  own := fun c idx hc => by cases hc
  quiet := fun _ => by decide
  busy := fun ⟨c, hc⟩ => by cases hc

/-- **Growths keep apart**: a commit finds the pool as its call has read it. -/
theorem Few.apart {cpus : Finset Cpu} {s : Pool} {c : Cpu} (h : Few cpus s)
    (hfits : StepFits s c) : StepApart s c := by
  unfold StepApart
  cases hpc : s.pc c with
  | commit idx base =>
      refine ⟨h.where_base c idx base hpc, fun d => ?_⟩
      by_contra hcon
      have hd : (s.pc d).growing = true := by simpa using hcon
      obtain rfl := h.alone d c (Pc.grows_of_growing hd) (by rw [hpc]; rfl)
      rw [hpc] at hd
      cases hd
  | store idx size => exact hfits idx size hpc
  | _ => trivial

/-- With at most 33 CPUs nobody is left to draw the next growth index while one is growing: 32 of
them wait. -/
theorem Few.no_growth_index {cpus : Finset Cpu} (hcpus : cpus.card ≤ 33) {s : Pool} {c d : Cpu}
    (h : Few cpus s) (hc : s.pc c = .idle) (hmem : c ∈ cpus) (hd : (s.pc d).grows = true) :
    s.hp_size.toNat + 1 < s.hp_true_sz.toNat + 32 := by
  have hdc : d ≠ c := by
    rintro rfl
    rw [hc] at hd
    cases hd
  have hdmem : d ∈ cpus := by
    by_contra hnot
    rw [h.outside d hnot] at hd
    cases hd
  have hdrawn := h.drawn_le (insert c (insert d cpusᶜ)) fun e he idx hidx => by
    rcases Finset.mem_insert.mp he with rfl | he
    · rw [hc] at hidx
      cases hidx
    · rcases Finset.mem_insert.mp he with rfl | he
      · have := h.own e idx hd hidx
        omega
      · rw [h.outside e (Finset.mem_compl.mp he)] at hidx
        cases hidx
  have hcard : (insert c (insert d cpusᶜ)).card = 64 - cpus.card + 2 := by
    rw [Finset.card_insert_of_notMem, Finset.card_insert_of_notMem, Finset.card_compl,
      Fintype.card_fin]
    · rfl
    · exact fun hmem' => (Finset.mem_compl.mp hmem') hdmem
    · rw [Finset.mem_insert, Finset.mem_compl]
      exact fun hor => hor.elim (fun hcd => hdc hcd.symm) fun hnot => hnot hmem
  have h64 : MAX_CPUS = 64 := rfl
  rw [hcard] at hdrawn
  omega

/-- A CPU moves on in its call, and leaves the two sizes alone. -/
theorem Few.move {cpus : Finset Cpu} {s t : Pool} {c : Cpu} (h : Few cpus s) (hmem : c ∈ cpus)
    (hinv : Inv t) (pc : Pc) (hsize : t.hp_size = s.hp_size) (htrue : t.hp_true_sz = s.hp_true_sz)
    (hpc : t.pc = (s.setPc c pc).pc) (hgrows : pc.grows = (s.pc c).grows)
    (hindex : (s.pc c).grows = true → pc.index = (s.pc c).index)
    (hbase : ∀ idx b, pc = .commit idx b → b = s.hp_true_sz) : Few cpus t := by
  have hself : t.pc c = pc := by rw [hpc, setPc_self]
  have hother : ∀ d, d ≠ c → t.pc d = s.pc d := fun d hd => by rw [hpc, setPc_of_ne s pc hd]
  have hsame : ∀ d, (t.pc d).grows = (s.pc d).grows := by
    intro d
    by_cases hd : d = c
    · rw [hd, hself, hgrows]
    · rw [hother d hd]
  refine ⟨hinv, ?_, ?_, ?_, ?_, ?_, ?_⟩
  · intro d hd
    rw [hother d fun hdc => hd (hdc ▸ hmem)]
    exact h.outside d hd
  · intro d e
    rw [hsame, hsame]
    exact h.alone d e
  · intro d idx b hd
    rw [htrue]
    by_cases hdc : d = c
    · rw [hdc, hself] at hd
      exact hbase idx b hd
    · exact h.where_base d idx b (hother d hdc ▸ hd)
  · intro d idx hd hidx
    rw [hsame] at hd
    rw [htrue]
    refine h.own d idx hd ?_
    by_cases hdc : d = c
    · subst hdc
      rwa [hself, hindex hd] at hidx
    · rwa [hother d hdc] at hidx
  · simp only [hsame, hsize, htrue]
    exact h.quiet
  · simp only [hsame, hsize, htrue]
    exact h.busy

/-- A call is entered that grows the pool, while no other does. -/
theorem Few.draw_growing {cpus : Finset Cpu} {s t : Pool} {c : Cpu} (h : Few cpus s)
    (hs : Sound s) (hquiet : ∀ d, (s.pc d).grows = false)
    (hmod : (s.hp_size.toNat + 33) % 64 = 0) (hinv : Inv t)
    (houtside : ∀ d, d ∉ cpus → t.pc d = .idle)
    (hsize : t.hp_size.toNat = s.hp_size.toNat + 1) (htrue : t.hp_true_sz = s.hp_true_sz)
    (hother : ∀ d, d ≠ c → t.pc d = s.pc d) (hself : t.pc c = .readBase t.hp_size) :
    Few cpus t := by
  obtain ⟨m, hm⟩ := hs.dvd
  obtain ⟨hlow, hhigh⟩ := h.quiet hquiet
  have honly : ∀ d, (t.pc d).grows = true → d = c := by
    intro d hd
    by_contra hdc
    rw [hother d hdc, hquiet d] at hd
    cases hd
  have hcgrows : (t.pc c).grows = true := by
    rw [hself]
    rfl
  refine ⟨hinv, houtside, ?_, ?_, ?_, ?_, ?_⟩
  · intro d e hd he
    rw [honly d hd, honly e he]
  · intro d idx b hd
    obtain rfl := honly d (by rw [hd]; rfl)
    rw [hself] at hd
    cases hd
  · intro d idx hd hidx
    obtain rfl := honly d hd
    rw [hself] at hidx
    cases hidx
    rw [htrue]
    omega
  · intro hnone
    rw [hnone c] at hcgrows
    cases hcgrows
  · intro _
    rw [htrue]
    omega

/-- A call is entered that waits at most. The one that grows the pool, if there is one, has its
32 CPUs still. -/
theorem Few.draw_waiting {cpus : Finset Cpu} {s t : Pool} {c : Cpu} (h : Few cpus s)
    (hs : Sound s) (hidle : s.pc c = .idle) (hmod : ¬ (s.hp_size.toNat + 33) % 64 = 0)
    (hbusy : ∀ d, (s.pc d).grows = true → s.hp_size.toNat + 1 < s.hp_true_sz.toNat + 32)
    (hinv : Inv t) (houtside : ∀ d, d ∉ cpus → t.pc d = .idle)
    (hsize : t.hp_size.toNat = s.hp_size.toNat + 1) (htrue : t.hp_true_sz = s.hp_true_sz)
    (hother : ∀ d, d ≠ c → t.pc d = s.pc d) (hself : t.pc c = .test t.hp_size) :
    Few cpus t := by
  obtain ⟨m, hm⟩ := hs.dvd
  have hsame : ∀ d, (t.pc d).grows = (s.pc d).grows := by
    intro d
    by_cases hd : d = c
    · rw [hd, hself, hidle]
      rfl
    · rw [hother d hd]
  refine ⟨hinv, houtside, ?_, ?_, ?_, ?_, ?_⟩
  · intro d e
    rw [hsame, hsame]
    exact h.alone d e
  · intro d idx b hd
    have hdc : d ≠ c := by
      rintro rfl
      rw [hself] at hd
      cases hd
    rw [htrue]
    exact h.where_base d idx b (hother d hdc ▸ hd)
  · intro d idx hd hidx
    have hdc : d ≠ c := by
      rintro rfl
      rw [hself] at hd
      cases hd
    rw [hother d hdc] at hd hidx
    rw [htrue]
    exact h.own d idx hd hidx
  · simp only [hsame, hsize, htrue]
    intro hnone
    obtain ⟨hlow, hhigh⟩ := h.quiet hnone
    omega
  · simp only [hsame, hsize, htrue]
    rintro ⟨d, hd⟩
    obtain ⟨hlow, -⟩ := h.busy ⟨d, hd⟩
    have hlt := hbusy d hd
    omega

/-- A call is entered: it grows the pool only if no other does. -/
theorem Few.draw {cpus : Finset Cpu} (hcpus : cpus.card ≤ 33) {s t : Pool} {c : Cpu}
    (h : Few cpus s) (hs : Sound s) (hmem : c ∈ cpus) (hidle : s.pc c = .idle) (hinv : Inv t)
    (hsize : t.hp_size = s.hp_size + 1) (htrue : t.hp_true_sz = s.hp_true_sz)
    (hother : ∀ d, d ≠ c → t.pc d = s.pc d)
    (hself : t.pc c = if growthIndex t.hp_size then .readBase t.hp_size else .test t.hp_size) :
    Few cpus t := by
  have hdrawn := h.drawn_le {c} fun d hd idx hidx => by
    rw [Finset.mem_singleton.mp hd, hidle] at hidx
    cases hidx
  have h64 : MAX_CPUS = 64 := rfl
  have hle := hs.size_le
  obtain ⟨m, hm⟩ := hs.dvd
  rw [Finset.card_singleton] at hdrawn
  have hsucc : t.hp_size.toNat = s.hp_size.toNat + 1 := by
    rw [hsize]
    exact toNat_succ (by omega)
  have hgrow : growthIndex t.hp_size = true ↔ (s.hp_size.toNat + 33) % 64 = 0 := by
    rw [growthIndex, beq_iff_eq, grow_test, hsucc]
  have houtside : ∀ d, d ∉ cpus → t.pc d = .idle := by
    intro d hd
    rw [hother d fun hdc => hd (hdc ▸ hmem)]
    exact h.outside d hd
  have hbusy : ∀ d, (s.pc d).grows = true → s.hp_size.toNat + 1 < s.hp_true_sz.toNat + 32 :=
    fun d hd => h.no_growth_index hcpus hidle hmem hd
  cases hg : growthIndex t.hp_size with
  | true =>
      rw [hg, if_pos rfl] at hself
      have hmod := hgrow.mp hg
      have hquiet : ∀ d, (s.pc d).grows = false := by
        intro d
        by_contra hcon
        have hd : (s.pc d).grows = true := by simpa using hcon
        have hlt := hbusy d hd
        obtain ⟨hlow, -⟩ := h.busy ⟨d, hd⟩
        omega
      exact h.draw_growing hs hquiet hmod hinv houtside hsucc htrue hother hself
  | false =>
      rw [hg, if_neg Bool.false_ne_true] at hself
      have hmod : ¬ (s.hp_size.toNat + 33) % 64 = 0 := fun hc => by
        rw [hgrow.mpr hc] at hg
        cases hg
      exact h.draw_waiting hs hidle hmod hbusy hinv houtside hsucc htrue hother hself

/-- The growing call stores the new size and returns. -/
theorem Few.stored {cpus : Finset Cpu} {s t : Pool} {c : Cpu} (h : Few cpus s) (hmem : c ∈ cpus)
    (hgrows : (s.pc c).grows = true) (hinv : Inv t) (hsize : t.hp_size = s.hp_size)
    (htrue : t.hp_true_sz.toNat = s.hp_true_sz.toNat + 64)
    (hother : ∀ d, d ≠ c → t.pc d = s.pc d) (hself : t.pc c = .idle) : Few cpus t := by
  have hnone : ∀ d, (t.pc d).grows = false := by
    intro d
    by_cases hd : d = c
    · rw [hd, hself]
      rfl
    · rw [hother d hd]
      by_contra hcon
      exact hd (h.alone d c (by simpa using hcon) hgrows)
  refine ⟨hinv, ?_, ?_, ?_, ?_, ?_, ?_⟩
  · intro d hd
    rw [hother d fun hdc => hd (hdc ▸ hmem)]
    exact h.outside d hd
  · intro d e hd
    rw [hnone d] at hd
    cases hd
  · intro d idx b hd
    have hgrow := hnone d
    rw [hd] at hgrow
    cases hgrow
  · intro d idx hd
    rw [hnone d] at hd
    cases hd
  · intro _
    obtain ⟨hlow, hhigh⟩ := h.busy ⟨c, hgrows⟩
    rw [hsize, htrue]
    omega
  · rintro ⟨d, hd⟩
    rw [hnone d] at hd
    cases hd

/-- One of few CPUs takes a step. -/
theorem few_step {cpus : Finset Cpu} (hcpus : cpus.card ≤ 33) {s t : Pool} {c : Cpu}
    {r : Option u32} (h : Few cpus s) (hs : Sound s) (hmem : c ∈ cpus) (hfits : StepFits s c)
    (hstep : step s c = .ok (r, t)) : Few cpus t := by
  have hinv := (step_sound_iff h.toInv hs hstep).2 (h.apart hfits)
  unfold step at hstep
  cases hpc : s.pc c with
  | idle =>
      rw [hpc] at hstep
      cases hstep
      exact h.draw hcpus hs hmem hpc hinv rfl rfl (fun d hd => setPc_of_ne _ _ hd)
        (setPc_self _ _ _)
  | readBase idx =>
      rw [hpc] at hstep
      cases hstep
      refine h.move hmem hinv (.commit idx s.hp_true_sz) rfl rfl rfl (by rw [hpc]; rfl)
        (fun _ => by rw [hpc]; rfl) fun i b hb => ?_
      cases hb
      rfl
  | commit idx base =>
      rw [hpc] at hstep
      cases hstep
      exact h.move hmem hinv (.readSize idx) rfl rfl rfl (by rw [hpc]; rfl)
        (fun _ => by rw [hpc]; rfl) nofun
  | readSize idx =>
      rw [hpc] at hstep
      cases hstep
      exact h.move hmem hinv (.store idx (s.hp_true_sz + HPOOL_GROW)) rfl rfl rfl
        (by rw [hpc]; rfl) (fun _ => by rw [hpc]; rfl) nofun
  | store idx size =>
      rw [hpc] at hstep
      cases hstep
      exact h.stored hmem (by rw [hpc]; rfl) hinv rfl (h.toNat_size hpc (hfits idx size hpc))
        (fun d hd => setPc_of_ne s .idle hd) (setPc_self s c .idle)
  | test idx =>
      have hnot : (s.pc c).grows = false := by rw [hpc]; rfl
      rw [hpc] at hstep
      dsimp only at hstep
      split at hstep
      · cases hstep
        exact h.move hmem hinv (.wait idx) rfl rfl rfl hnot.symm (fun _ => by rw [hpc]; rfl) nofun
      · cases hstep
        exact h.move hmem hinv .idle rfl rfl rfl hnot.symm
          (fun hg => absurd (hnot.symm.trans hg) Bool.false_ne_true) nofun
  | wait idx =>
      have hnot : (s.pc c).grows = false := by rw [hpc]; rfl
      rw [hpc] at hstep
      dsimp only at hstep
      split at hstep
      · cases hstep
        exact h
      · cases hstep
        exact h.move hmem hinv .idle rfl rfl rfl hnot.symm
          (fun hg => absurd (hnot.symm.trans hg) Bool.false_ne_true) nofun

/-- **33 CPUs are too few for two growths at once**: with no more of them, growth is sound in every
interleaving, as far as 32 bits go. -/
theorem sound_of_few_cpus {cpus : Finset Cpu} (hcpus : cpus.card ≤ 33) {cs : List Cpu}
    (hmeets : Meets step (fun s c => c ∈ cpus ∧ StepFits s c) Pool.init cs) :
    Always step Sound Pool.init cs := by
  refine always_of_meets (I := fun s => Few cpus s ∧ Sound s) (fun _ h => h.2) ?_
    ⟨few_init cpus, sound_init⟩ hmeets
  rintro s c r t ⟨h, hs⟩ ⟨hmem, hfits⟩ hstep
  exact ⟨few_step hcpus h hs hmem hfits hstep,
    (step_sound_iff h.toInv hs hstep).1.mpr (h.apart hfits)⟩

end Ntfw.Growth
