import Mathlib.Tactic

set_option autoImplicit false

/-! # Runs of a state machine with partial steps

A machine is a function `step : σ → ε → Except err (ρ × σ)`: in state `σ` it receives the
event `ε` and either answers `ρ` and moves on, or gets stuck. `run` folds it over a list of
events. The file has the two induction rules a safety proof uses (`run_invariant` for what
every state of a run satisfies, `always_iff_meets` for the exact condition under which it
does) and `observe`, which runs a machine together with an observer that sees the events
and the answers but never the state: the observer of a refinement is its abstract model.
-/

universe u

/-- A bind of two fallible computations succeeds exactly when both do. -/
theorem Except.bind_eq_ok {err α β : Type u} {x : Except err α} {f : α → Except err β} {b : β} :
    x >>= f = .ok b ↔ ∃ a, x = .ok a ∧ f a = .ok b := by
  cases x with
  | error e => simp [bind, Except.bind]
  | ok a => simp [bind, Except.bind]

/-- It fails exactly when one of them does. -/
theorem Except.bind_eq_error {err α β : Type u} {x : Except err α} {f : α → Except err β}
    {e : err} : x >>= f = .error e ↔ x = .error e ∨ ∃ a, x = .ok a ∧ f a = .error e := by
  cases x with
  | error e' => simp [bind, Except.bind]
  | ok a => simp [bind, Except.bind]

namespace Transition

variable {σ ε ρ err μ : Type u}

/-- Feed a list of events to the machine; the state after the last of them. -/
def run (step : σ → ε → Except err (ρ × σ)) : σ → List ε → Except err σ
  | s, [] => .ok s
  | s, e :: es => step s e >>= fun rt => run step rt.2 es

/-- `t` is the state after some run from `s`. -/
def Reaches (step : σ → ε → Except err (ρ × σ)) (s t : σ) : Prop :=
  ∃ es, run step s es = .ok t

variable {step : σ → ε → Except err (ρ × σ)}

@[simp] theorem run_nil (s : σ) : run step s [] = .ok s := rfl

theorem run_cons_ok {s t : σ} {e : ε} {es : List ε} :
    run step s (e :: es) = .ok t ↔ ∃ r u, step s e = .ok (r, u) ∧ run step u es = .ok t := by
  rw [run, Except.bind_eq_ok]
  constructor
  · rintro ⟨⟨r, u⟩, hs, hr⟩
    exact ⟨r, u, hs, hr⟩
  · rintro ⟨r, u, hs, hr⟩
    exact ⟨(r, u), hs, hr⟩

theorem run_append_ok {s t : σ} {es fs : List ε} :
    run step s (es ++ fs) = .ok t ↔ ∃ u, run step s es = .ok u ∧ run step u fs = .ok t := by
  induction es generalizing s with
  | nil => simp
  | cons e es ih =>
      rw [List.cons_append, run_cons_ok]
      constructor
      · rintro ⟨r, u, hs, hr⟩
        obtain ⟨v, hv, ht⟩ := ih.mp hr
        exact ⟨v, run_cons_ok.mpr ⟨r, u, hs, hv⟩, ht⟩
      · rintro ⟨v, hv, ht⟩
        obtain ⟨r, u, hs, hu⟩ := run_cons_ok.mp hv
        exact ⟨r, u, hs, ih.mpr ⟨v, hu, ht⟩⟩

/-- A run goes on by one step. -/
theorem run_snoc {s t u : σ} {es : List ε} {e : ε} {r : ρ} (h : run step s es = .ok t)
    (hu : step t e = .ok (r, u)) : run step s (es ++ [e]) = .ok u :=
  run_append_ok.mpr ⟨t, h, run_cons_ok.mpr ⟨r, u, hu, rfl⟩⟩

/-- **The invariant rule.** What holds at the start and is preserved by every step holds
after every run. -/
theorem run_invariant {I : σ → Prop} (hstep : ∀ s e r t, I s → step s e = .ok (r, t) → I t)
    {s t : σ} {es : List ε} (hs : I s) (h : run step s es = .ok t) : I t := by
  induction es generalizing s with
  | nil =>
      have hst : s = t := by simpa using h
      exact hst ▸ hs
  | cons e es ih =>
      obtain ⟨r, u, hu, ht⟩ := run_cons_ok.mp h
      exact ih (hstep s e r u hs hu) ht

theorem reaches_refl (s : σ) : Reaches step s s := ⟨[], rfl⟩

theorem Reaches.snoc {s t u : σ} {e : ε} {r : ρ} (h : Reaches step s t)
    (hu : step t e = .ok (r, u)) : Reaches step s u := by
  obtain ⟨es, hes⟩ := h
  exact ⟨es ++ [e], run_snoc hes hu⟩

theorem Reaches.invariant {I : σ → Prop}
    (hstep : ∀ s e r t, I s → step s e = .ok (r, t) → I t) {s t : σ} (h : Reaches step s t)
    (hs : I s) : I t := by
  obtain ⟨es, hes⟩ := h
  exact run_invariant hstep hs hes

/-! ## Properties of all the states and all the steps of a run -/

/-- Every state the run passes through, its first and its last included, satisfies `P`. -/
def Always (step : σ → ε → Except err (ρ × σ)) (P : σ → Prop) : σ → List ε → Prop
  | s, [] => P s
  | s, e :: es => P s ∧ ∀ r t, step s e = .ok (r, t) → Always step P t es

/-- Every step of the run is taken from a state and on an event that satisfy `C`. -/
def Meets (step : σ → ε → Except err (ρ × σ)) (C : σ → ε → Prop) : σ → List ε → Prop
  | _, [] => True
  | s, e :: es => C s e ∧ ∀ r t, step s e = .ok (r, t) → Meets step C t es

/-- What can be decided of every step can be decided of a run. -/
instance decidableMeets {C : σ → ε → Prop} [∀ s e, Decidable (C s e)] :
    (s : σ) → (es : List ε) → Decidable (Meets step C s es)
  | _, [] => isTrue trivial
  | s, e :: es =>
      match hstep : step s e with
      | .error _ => decidable_of_iff (C s e)
          ⟨fun h => ⟨h, fun r t ht => by rw [hstep] at ht; cases ht⟩, fun h => h.1⟩
      | .ok (r, t) =>
          have := decidableMeets (C := C) t es
          decidable_of_iff (C s e ∧ Meets step C t es)
            ⟨fun h => ⟨h.1, fun r' t' ht => by rw [hstep] at ht; cases ht; exact h.2⟩,
              fun h => ⟨h.1, h.2 r t hstep⟩⟩

theorem Always.head {P : σ → Prop} {s : σ} {es : List ε} (h : Always step P s es) : P s := by
  cases es with
  | nil => exact h
  | cons e es => exact h.1

/-- **The exactness rule, for an invariant of the runs that meet the condition.** If, from a
state where the invariant `I` and the property `P` hold, a step keeps `P` exactly when it meets
the condition `C`, and then keeps `I` too, then `P` holds all along a run exactly when every step
of the run meets `C`. -/
theorem always_iff_meets_of_kept {I P : σ → Prop} {C : σ → ε → Prop}
    (hI : ∀ s e r t, I s → P s → C s e → step s e = .ok (r, t) → I t)
    (hC : ∀ s e r t, I s → P s → step s e = .ok (r, t) → (P t ↔ C s e))
    {s t : σ} {es : List ε} (his : I s) (hps : P s) (h : run step s es = .ok t) :
    Always step P s es ↔ Meets step C s es := by
  induction es generalizing s with
  | nil => exact ⟨fun _ => trivial, fun _ => hps⟩
  | cons e es ih =>
      obtain ⟨r, u, hu, ht⟩ := run_cons_ok.mp h
      have hdet : ∀ r' t', step s e = .ok (r', t') → t' = u := by
        intro r' t' h'
        rw [hu] at h'
        cases h'
        rfl
      constructor
      · rintro ⟨-, hall⟩
        have hpu : P u := (hall r u hu).head
        have hce : C s e := (hC s e r u his hps hu).mp hpu
        refine ⟨hce, ?_⟩
        intro r' t' h'
        obtain rfl := hdet r' t' h'
        exact (ih (hI s e r t' his hps hce hu) hpu ht).mp (hall r' t' h')
      · rintro ⟨hce, hall⟩
        have hpu : P u := (hC s e r u his hps hu).mpr hce
        refine ⟨hps, ?_⟩
        intro r' t' h'
        obtain rfl := hdet r' t' h'
        exact (ih (hI s e r t' his hps hce hu) hpu ht).mpr (hall r' t' h')

/-- **The exactness rule**, for an invariant of every run. -/
theorem always_iff_meets {I P : σ → Prop} {C : σ → ε → Prop}
    (hI : ∀ s e r t, I s → step s e = .ok (r, t) → I t)
    (hC : ∀ s e r t, I s → P s → step s e = .ok (r, t) → (P t ↔ C s e))
    {s t : σ} {es : List ε} (his : I s) (hps : P s) (h : run step s es = .ok t) :
    Always step P s es ↔ Meets step C s es :=
  always_iff_meets_of_kept (fun s e r t his _ _ hst => hI s e r t his hst) hC his hps h

/-- What an invariant of the states with `P` says of a step from them, a run through such states
meets. -/
theorem Always.meets {I P : σ → Prop} {C : σ → ε → Prop}
    (hI : ∀ s e r t, I s → P s → step s e = .ok (r, t) → P t → I t)
    (hC : ∀ s e, I s → P s → C s e) {s : σ} {es : List ε} (his : I s)
    (h : Always step P s es) : Meets step C s es := by
  induction es generalizing s with
  | nil => exact trivial
  | cons e es ih =>
      obtain ⟨hps, hall⟩ := h
      refine ⟨hC s e his hps, fun r t hst => ?_⟩
      exact ih (hI s e r t his hps hst (hall r t hst).head) (hall r t hst)

theorem Meets.imp {C D : σ → ε → Prop} (hD : ∀ s e, C s e → D s e) {s : σ} {es : List ε}
    (h : Meets step C s es) : Meets step D s es := by
  induction es generalizing s with
  | nil => exact trivial
  | cons e es ih => exact ⟨hD s e h.1, fun r t hst => ih (h.2 r t hst)⟩

/-- **The conditional invariant rule.** An invariant that every step under the condition `C`
preserves holds all along a run that meets `C`, and so does what it implies. -/
theorem always_of_meets {I P : σ → Prop} {C : σ → ε → Prop} (hP : ∀ s, I s → P s)
    (hstep : ∀ s e r t, I s → C s e → step s e = .ok (r, t) → I t)
    {s : σ} {es : List ε} (hs : I s) (h : Meets step C s es) : Always step P s es := by
  induction es generalizing s with
  | nil => exact hP s hs
  | cons e es ih =>
      obtain ⟨hce, hrest⟩ := h
      exact ⟨hP s hs, fun r t ht => ih (hstep s e r t hs hce ht) (hrest r t ht)⟩

/-- A condition that an invariant implies is met by every run. -/
theorem meets_of_invariant {I : σ → Prop} {C : σ → ε → Prop} (hC : ∀ s e, I s → C s e)
    (hstep : ∀ s e r t, I s → step s e = .ok (r, t) → I t)
    {s : σ} {es : List ε} (hs : I s) : Meets step C s es := by
  induction es generalizing s with
  | nil => exact trivial
  | cons e es ih => exact ⟨hC s e hs, fun r t ht => ih (hstep s e r t hs ht)⟩

/-! ## Observers -/

/-- The machine together with an observer, whose state `μ` follows the events and the
answers. -/
def observe (step : σ → ε → Except err (ρ × σ)) (watch : μ → ε → ρ → μ) :
    σ × μ → ε → Except err (ρ × (σ × μ)) :=
  fun sm e => step sm.1 e >>= fun rt => .ok (rt.1, rt.2, watch sm.2 e rt.1)

theorem observe_ok {watch : μ → ε → ρ → μ} {sm : σ × μ} {e : ε} {r : ρ} {tn : σ × μ} :
    observe step watch sm e = .ok (r, tn)
      ↔ step sm.1 e = .ok (r, tn.1) ∧ tn.2 = watch sm.2 e r := by
  rw [observe, Except.bind_eq_ok]
  constructor
  · rintro ⟨⟨r', u⟩, hs, hk⟩
    cases hk
    exact ⟨hs, rfl⟩
  · rintro ⟨hs, hw⟩
    refine ⟨(r, tn.1), hs, ?_⟩
    rw [← hw]

end Transition
