import Ntfw.Host.Insert
import Ntfw.Ntfe.Engine

set_option autoImplicit false

/-! # The host table as a state machine

Its events are the calls of the table's users, each run as one atomic step, and the clock
refreshes between them: any CPU may take the next step, at any time of its own clock. -/

namespace Ntfw

/-- The priority classes an authorisation can have. -/
abbrev Priority := {p : Nat // 1 ≤ p ∧ p ≤ 3}

/-- The priority as the word the calls pass. -/
def Priority.word (p : Priority) : u32 := BitVec.ofNat 32 p.1

theorem Priority.word_toNat (p : Priority) : p.word.toNat = p.1 := by
  have := p.2.2
  simp only [word, BitVec.toNat_ofNat]
  omega

theorem Priority.word_le (p : Priority) : p.word ≤ 3 := by
  show p.word.toNat ≤ 3
  rw [p.word_toNat]
  exact p.2.2

/-- A call on the host table, or a clock refresh. -/
inductive HostOp where
  | insert (env : Env) (saddr : be32)
  | insertAuthorized (env : Env) (saddr : be32) (priority : Priority)
  | clearStatic
  | prepare (cpu : Fin MAX_CPUS) (hpc : u64)

/-- One atomic step; the answer is the slot an insertion returns. -/
def hostStep (gs : Gs) : HostOp → Exec (Option Slot × Gs)
  | .insert env a => hostInsert env gs (hostFetchBucket a) a
  | .insertAuthorized env a p =>
      .ok (hostInsertAuthorized env gs (hostFetchBucket a) a p.word)
  | .clearStatic => .ok (none, hostClearStaticallyAuthorized gs)
  | .prepare cpu hpc => .ok (none, ntfeRxPrepare gs cpu hpc)

/-- What a step does to the bucket `i`. -/
inductive BucketStep (i : Fin HTBL_SIZE) (htb : HtBucket) : HostOp → Option Slot → HtBucket → Prop
    where
  | other {op : HostOp} {r : Option Slot}
      (hop : ∀ a, (∃ env, op = .insert env a) ∨ (∃ env p, op = .insertAuthorized env a p) →
        hostFetchBucket a ≠ i)
      (hclear : op ≠ .clearStatic) : BucketStep i htb op r htb
  | deferred {env : Env} {a : be32} (hi : hostFetchBucket a = i)
      (hlock : htbTestLock env htb = true) : BucketStep i htb (.insert env a) none htb
  | inserted {env : Env} {a : be32} {tsec : u16} {r : Option Slot} {htb' : HtBucket}
      (hi : hostFetchBucket a = i) (hlock : htbTestLock env htb = false)
      (hplaced : Placed htb tsec a 0 r htb') : BucketStep i htb (.insert env a) r htb'
  | authorized {env : Env} {a : be32} {p : Priority} {tsec : u16} {r : Option Slot}
      {htb' : HtBucket} (hi : hostFetchBucket a = i) (hplaced : Placed htb tsec a p.1 r htb') :
      BucketStep i htb (.insertAuthorized env a p) r htb'
  | swept {htb' : HtBucket} (hswept : Swept htb htb') :
      BucketStep i htb .clearStatic none htb'

/-- **Every step acts on every bucket as `BucketStep` says**, and leaves the configuration
alone. -/
theorem hostStep_bucket {gs gs' : Gs} {op : HostOp} {r : Option Slot}
    (h : hostStep gs op = .ok (r, gs')) (i : Fin HTBL_SIZE) :
    BucketStep i (gs.host_tbl i) op r (gs'.host_tbl i) := by
  cases op with
  | insert env a =>
      -- Only the bucket of the address takes part, and it defers when it sees the lock held.
      obtain ⟨⟨-, hother⟩, hcase⟩ := hostInsert_spec h
      by_cases hi : hostFetchBucket a = i
      · subst hi
        rcases hcase with ⟨hlock, hr, hb⟩ | ⟨hlock, hplaced⟩
        · rw [hr, hb]
          exact .deferred rfl hlock
        · exact .inserted rfl hlock hplaced
      · rw [hother i (Ne.symm hi)]
        refine .other ?_ (by simp)
        rintro b (⟨env', hb⟩ | ⟨env', p, hb⟩)
        · cases hb
          exact hi
        · cases hb
  | insertAuthorized env a p =>
      obtain ⟨⟨-, hother⟩, hplaced⟩ := hostInsertAuthorized_ok p.word_le (Except.ok.inj h)
      rw [p.word_toNat] at hplaced
      by_cases hi : hostFetchBucket a = i
      · subst hi
        exact .authorized rfl hplaced
      · rw [hother i (Ne.symm hi)]
        refine .other ?_ (by simp)
        rintro b (⟨env', hb⟩ | ⟨env', q, hb⟩)
        · cases hb
        · cases hb
          exact hi
  | clearStatic =>
      have heq : (none, hostClearStaticallyAuthorized gs) = (r, gs') := Except.ok.inj h
      obtain ⟨rfl, rfl⟩ := Prod.mk.inj heq
      exact .swept ((hostClear_spec gs).2 i)
  | prepare cpu hpc =>
      cases h
      refine .other ?_ (by simp)
      rintro b (⟨env', hb⟩ | ⟨env', q, hb⟩) <;> cases hb

end Ntfw
