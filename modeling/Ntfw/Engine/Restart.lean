import Ntfw.Engine.Calls
import Ntfw.Host.Room

set_option autoImplicit false

/-! # Applying a validated image

The validator tests every rule by itself against the live table and no host at all; the wipe
comes between it and the loops that place the rules and the hosts. What it leaves unchecked
is exactly that the rules go to different slots and that the static hosts find room in the
buckets the sweep leaves. Without one of the two, `ntfe_configure` fails after the wipe. -/

namespace Ntfw

/-! ## The host loop -/

theorem wellKept_invariant : BucketInvariant WellKept :=
  ⟨fun hap h hw => hw.placed hap h, fun h hw => hw.swept h⟩

theorem Reachable.wellKept {verify : Verify} {gs : Gs} (h : Reachable verify gs)
    (b : Fin HTBL_SIZE) : WellKept (gs.host_tbl b) :=
  bucket_invariant wellKept_invariant wellKept_zero h b

/-- The addresses of a list whose bucket is `b`. -/
def inBucket (b : Fin HTBL_SIZE) (hs : List be32) : List be32 :=
  hs.filter fun a => hostFetchBucket a = b

/-- **The host loop** succeeds exactly when the hosts find room, bucket by bucket. -/
theorem loadHosts_iff (env : Env) {gs : Gs} (hw : ∀ b, WellKept (gs.host_tbl b)) (hs : List be32) :
    (loadHosts env gs hs).1 = true ↔ ∀ b, HostsFit (gs.host_tbl b) (inBucket b hs) := by
  induction hs generalizing gs with
  | nil => exact iff_of_true rfl fun b => hostsFit_nil (gs.host_tbl b)
  | cons a hs ih =>
      rw [loadHosts]
      rcases hr : hostInsertAuthorized env gs (hostFetchBucket a) a HOST_PRI_STATIC with ⟨r, gs1⟩
      obtain ⟨hframe, hplaced⟩ := hostInsertAuthorized_ok HOST_PRI_STATIC_le hr
      have hw1 : ∀ b, WellKept (gs1.host_tbl b) :=
        wellKept_invariant.authorized HOST_PRI_STATIC_le (by decide) hr hw
      -- The host takes part in its own bucket only, and the insertion changes no other.
      have hstep : (∀ b, HostsFit (gs.host_tbl b) (inBucket b (a :: hs)))
          ↔ r ≠ none ∧ ∀ b, HostsFit (gs1.host_tbl b) (inBucket b hs) := by
        have hcons := hostsFit_cons (hw _) (by decide) hplaced (inBucket (hostFetchBucket a) hs)
        have hself : inBucket (hostFetchBucket a) (a :: hs)
            = a :: inBucket (hostFetchBucket a) hs := List.filter_cons_of_pos (by simp)
        have hother : ∀ b, b ≠ hostFetchBucket a → inBucket b (a :: hs) = inBucket b hs :=
          fun b hb => List.filter_cons_of_neg (by simpa using Ne.symm hb)
        constructor
        · intro hall
          have h0 := hall (hostFetchBucket a)
          rw [hself] at h0
          obtain ⟨hne, hfit⟩ := hcons.mp h0
          refine ⟨hne, fun b => ?_⟩
          by_cases hb : b = hostFetchBucket a
          · exact hb ▸ hfit
          · rw [hframe.other b hb, ← hother b hb]
            exact hall b
        · rintro ⟨hne, hall⟩ b
          by_cases hb : b = hostFetchBucket a
          · subst hb
            rw [hself]
            exact hcons.mpr ⟨hne, hall _⟩
          · rw [hother b hb, ← hframe.other b hb]
            exact hall b
      rw [hstep]
      cases r with
      | none => exact iff_of_false Bool.false_ne_true fun h => h.1 rfl
      | some k =>
          rw [and_iff_right (Option.some_ne_none k)]
          exact ih hw1

/-! ## The outcome of a call -/

/-- The bucket after the sweep, as far as lookups and allocations read it. -/
def HtBucket.sweep (htb : HtBucket) : HtBucket :=
  { htb with saddr := fun k => if htb.pri k = 3 then 0 else htb.saddr k }.setExhausted
    (htb.exhausted && decide (∀ k, htb.pri k ≠ 3))

theorem Swept.sameEntries {htb htb' : HtBucket} (h : Swept htb htb') :
    SameEntries htb.sweep htb' := by
  refine ⟨funext h.saddr, fun k => (h.pri k).trans ?_, h.exhausted.trans ?_⟩
  · rw [HtBucket.sweep, HtBucket.setExhausted_pri]
    rfl
  · rw [HtBucket.sweep, HtBucket.setExhausted_exhausted]

/-- The static hosts of the image find room in the buckets the sweep leaves. -/
def NtfeConfig.RoomForHosts (cfg : NtfeConfig) (gs : Gs) : Prop :=
  ∀ b, HostsFit (gs.host_tbl b).sweep (inBucket b cfg.hosts)

/-- The host loop of a call, in the tables of the state before it. -/
theorem loadHosts_of_swept (env : Env) {gs gs2 : Gs} (hw : ∀ b, WellKept (gs.host_tbl b))
    (hswept : ∀ b, Swept (gs.host_tbl b) (gs2.host_tbl b)) (cfg : NtfeConfig) :
    (loadHosts env gs2 cfg.hosts).1 = true ↔ cfg.RoomForHosts gs := by
  calc (loadHosts env gs2 cfg.hosts).1 = true
      ↔ ∀ b, HostsFit (gs2.host_tbl b) (inBucket b cfg.hosts) :=
        loadHosts_iff env (fun b => (hw b).swept (hswept b)) cfg.hosts
    _ ↔ cfg.RoomForHosts gs := forall_congr' fun b => HostsFit.congr (hswept b).sameEntries _

/-- **The outcome of a call** on a validated image, in every reachable state: it returns, and
with success exactly when the rules go to different slots and the hosts find room. -/
theorem ntfeConfigure_outcome {verify : Verify} {gs : Gs} (env : Env) {cfg : NtfeConfig}
    {cfg_len : u32} (hreach : Reachable verify gs)
    (hval : ntfeValidateConfiguration gs cfg cfg_len = .ok true) :
    ∃ ok gs', ntfeConfigure env gs cfg cfg_len = .ok (ok, gs')
      ∧ (ok = true ↔ cfg.SlotsDistinct ∧ cfg.RoomForHosts gs) := by
  by_cases hdist : cfg.SlotsDistinct
  · obtain ⟨gs2, -, hswept, -, heq⟩ := ntfeConfigure_of_distinct env hval hdist
    refine ⟨_, _, heq, ?_⟩
    rw [and_iff_right hdist]
    exact loadHosts_of_swept env hreach.wellKept hswept cfg
  · obtain ⟨gs1, heq⟩ := ntfeConfigure_of_not_distinct env hval hdist
    exact ⟨false, gs1, heq, iff_of_false Bool.false_ne_true fun h => hdist h.1⟩

/-- **The validator keeps its promise** exactly for the images whose rules go to different
slots and whose hosts find room in the swept buckets, in every reachable state. -/
theorem validated_applies_iff {verify : Verify} {gs : Gs} (env : Env) {cfg : NtfeConfig}
    {cfg_len : u32} (hreach : Reachable verify gs)
    (hval : ntfeValidateConfiguration gs cfg cfg_len = .ok true) :
    (∃ gs', ntfeConfigure env gs cfg cfg_len = .ok (true, gs'))
      ↔ cfg.SlotsDistinct ∧ cfg.RoomForHosts gs := by
  obtain ⟨ok, gs1, hret, hiff⟩ := ntfeConfigure_outcome env hreach hval
  rw [← hiff, hret]
  constructor
  · rintro ⟨gs', h⟩
    cases h
    rfl
  · rintro rfl
    exact ⟨gs1, rfl⟩

/-- The sample image on the state the loader leaves. -/
theorem validated_applies_iff_http :
    (∃ gs', ntfeConfigure quietEnv Gs.zero httpImage 126 = .ok (true, gs'))
      ↔ httpImage.SlotsDistinct ∧ httpImage.RoomForHosts Gs.zero := by
  have hreach : Reachable (fun _ _ _ => false) Gs.zero := Transition.reaches_refl Gs.zero
  refine validated_applies_iff quietEnv hreach ?_
  refine (ntfeValidateConfiguration_eq_true _ _ _).mpr ⟨?_, ?_, ?_⟩ <;> decide +kernel

/-- The sample image with its rule twice. -/
def twinImage : NtfeConfig := sampleImage 1 [(IP_P_TCP, 80), (IP_P_TCP, 80)]

theorem twinImage_validates : ntfeValidateConfiguration Gs.zero twinImage 152 = .ok true := by
  refine (ntfeValidateConfiguration_eq_true _ _ _).mpr ⟨?_, ?_, ?_⟩ <;> decide

theorem twinImage_fails :
    ∃ gs', ntfeConfigure quietEnv Gs.zero twinImage 152 = .ok (false, gs') :=
  ntfeConfigure_of_not_distinct quietEnv twinImage_validates (by decide)

/-- The validator accepts an image whose rules share a slot, and the call fails. -/
theorem validated_image_fails :
    ¬ ∀ (verify : Verify) (gs : Gs) (env : Env) (cfg : NtfeConfig) (cfg_len : u32),
      Reachable verify gs → ntfeValidateConfiguration gs cfg cfg_len = .ok true →
      ∃ gs', ntfeConfigure env gs cfg cfg_len = .ok (true, gs') := by
  intro hall
  obtain ⟨gs', hok⟩ := hall (fun _ _ _ => false) Gs.zero quietEnv twinImage 152
    (Transition.reaches_refl Gs.zero) twinImage_validates
  obtain ⟨gs'', hfail⟩ := twinImage_fails
  rw [hfail] at hok
  cases hok

/-! ## What a failed call leaves -/

/-- A call that fails leaves the policy and the host table as they were. -/
def AtomicCall (env : Env) (gs : Gs) (cfg : NtfeConfig) (cfg_len : u32) : Prop :=
  ∀ gs', ntfeConfigure env gs cfg cfg_len = .ok (false, gs') →
    SamePolicy gs gs' ∧ gs'.host_tbl = gs.host_tbl

/-- The validator rejects the image, or it can be applied. -/
def NtfeConfig.Settled (cfg : NtfeConfig) (gs : Gs) (cfg_len : u32) : Prop :=
  ntfeValidateConfiguration gs cfg cfg_len = .ok true → cfg.SlotsDistinct ∧ cfg.RoomForHosts gs

/-- **A call is atomic** if the validator rejects its image or the image can be applied; for
an image with rules, in no other case. -/
theorem configure_atomic_iff {verify : Verify} {gs : Gs} (env : Env) (cfg : NtfeConfig)
    (cfg_len : u32) (hreach : Reachable verify gs) :
    (cfg.Settled gs cfg_len → AtomicCall env gs cfg cfg_len)
    ∧ (cfg.rules ≠ [] → AtomicCall env gs cfg cfg_len → cfg.Settled gs cfg_len) := by
  constructor
  · intro hset gs' h
    rcases ntfeConfigure_ok h with ⟨-, -, rfl⟩ | ⟨hval, -⟩
    · exact ⟨⟨rfl, rfl, rfl, rfl, rfl⟩, rfl⟩
    · obtain ⟨ok, gs1, hret, hiff⟩ := ntfeConfigure_outcome env hreach hval
      rw [hret, hiff.mpr (hset hval)] at h
      cases h
  · -- An image that is accepted and cannot be applied leaves a trace.
    intro hne hatomic hval
    obtain ⟨ok, gs', h, hiff⟩ := ntfeConfigure_outcome env hreach hval
    cases ok with
    | true => exact hiff.mp rfl
    | false =>
        -- The slot of the first rule was empty, and is not any more.
        obtain ⟨rl, hrl⟩ : ∃ rl, rl ∈ cfg.rules.head? :=
          ⟨cfg.rules.head hne, List.head_mem_head? hne⟩
        have hfree := ((ntfeValidateConfiguration_eq_true gs cfg cfg_len).mp hval).2.1 rl
          (List.mem_of_mem_head? hrl)
        obtain ⟨hi, hempty⟩ := hfree
        have hfree' : SlotFree gs'.toGsRom (cfg.slot rl) := by
          refine ⟨hi, ?_⟩
          rw [(hatomic gs' h).1.rules]
          exact hempty
        exact absurd hfree' (ntfeConfigure_first_rule h hval hrl).not_free

/-- The sample image on the state the loader leaves. -/
theorem configure_atomic_iff_http :
    (httpImage.Settled Gs.zero 126 → AtomicCall quietEnv Gs.zero httpImage 126)
    ∧ (httpImage.rules ≠ [] → AtomicCall quietEnv Gs.zero httpImage 126 →
      httpImage.Settled Gs.zero 126) := by
  have hreach : Reachable (fun _ _ _ => false) Gs.zero := Transition.reaches_refl Gs.zero
  exact configure_atomic_iff quietEnv httpImage 126 hreach

/-- A call that fails on the second rule leaves the first in the table. -/
theorem failed_call_leaves_rule :
    ¬ ∀ (verify : Verify) (gs : Gs) (env : Env) (cfg : NtfeConfig) (cfg_len : u32),
      Reachable verify gs → AtomicCall env gs cfg cfg_len := by
  intro hall
  obtain ⟨gs', hfail⟩ := twinImage_fails
  have hrules := (hall (fun _ _ _ => false) Gs.zero quietEnv twinImage 152
    (Transition.reaches_refl Gs.zero) gs' hfail).1.rules
  obtain ⟨rl, hrl⟩ : ∃ rl, rl ∈ twinImage.rules.head? :=
    ⟨⟨0x0800, 80, 0, 0, 0, IP_P_TCP, 0, 0, 0⟩, by decide +kernel⟩
  have hholds := ntfeConfigure_first_rule hfail twinImage_validates hrl
  refine hholds.not_free ⟨hholds.1, ?_⟩
  rw [hrules]
  rfl

end Ntfw
