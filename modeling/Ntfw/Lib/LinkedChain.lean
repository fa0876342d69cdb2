import Mathlib.Tactic

set_option autoImplicit false

/-! # Intrusive singly linked lists

Nodes carry their own link: `link : Loc → Option α` gives what every link field holds, and
`node a` is the link field of the node `a`; other fields, such as list heads, are locations
too. `Chain` is a null-terminated list read from a link. `Queue` is a list with a tail
pointer: the tail is the location of the last link, at first the head itself, so a push is
one store through it whether the queue is empty or not. -/

namespace LinkedChain

variable {Loc α : Type}

/-- From the value of a link on, the nodes are `l`, and the last link is null. -/
def Chain (node : α → Loc) (link : Loc → Option α) : Option α → List α → Prop
  | p, [] => p = none
  | p, a :: l => p = some a ∧ Chain node link (link (node a)) l

/-- From the location `h` on, the nodes are `l`, and `t` is the location of the link behind
the last of them. -/
def Seg (node : α → Loc) (link : Loc → Option α) : Loc → Loc → List α → Prop
  | h, t, [] => h = t
  | h, t, a :: l => link h = some a ∧ Seg node link (node a) t l

variable {node : α → Loc} {link link' : Loc → Option α}

/-! ## Chains -/

theorem Chain.unique {p : Option α} {l l' : List α} (h : Chain node link p l)
    (h' : Chain node link p l') : l = l' := by
  induction l generalizing p l' with
  | nil =>
      cases l' with
      | nil => rfl
      | cons a' l' =>
          obtain rfl : p = none := h
          cases h'.1
  | cons a l ih =>
      obtain ⟨rfl, h⟩ := h
      cases l' with
      | nil => cases h'
      | cons a' l' =>
          obtain ⟨ha, h'⟩ := h'
          cases ha
          rw [ih h h']

/-- A chain leads on from each of its nodes. -/
theorem Chain.drop {p : Option α} {l : List α} (h : Chain node link p l) {a : α} (ha : a ∈ l) :
    ∃ l₁ l₂, l = l₁ ++ a :: l₂ ∧ Chain node link (some a) (a :: l₂) := by
  induction l generalizing p with
  | nil => cases ha
  | cons b l ih =>
      rcases List.mem_cons.mp ha with rfl | ha
      · exact ⟨[], l, rfl, rfl, h.2⟩
      · obtain ⟨l₁, l₂, rfl, hc⟩ := ih h.2 ha
        exact ⟨b :: l₁, l₂, rfl, hc⟩

/-- **A null-terminated list has no node twice.** -/
theorem Chain.nodup {p : Option α} {l : List α} (h : Chain node link p l) : l.Nodup := by
  induction l generalizing p with
  | nil => exact List.nodup_nil
  | cons a l ih =>
      refine List.nodup_cons.mpr ⟨?_, ih h.2⟩
      -- A second visit would have the same way to go as the first.
      intro ha
      obtain ⟨l₁, l₂, hl, hc⟩ := Chain.drop h.2 ha
      have hlen := congrArg List.length (h.2.unique hc.2)
      rw [hl, List.length_append, List.length_cons] at hlen
      omega

/-- Stores to other locations than those of its nodes do not change a chain. -/
theorem Chain.frame {p : Option α} {l : List α} (h : Chain node link p l)
    (heq : ∀ a ∈ l, link' (node a) = link (node a)) : Chain node link' p l := by
  induction l generalizing p with
  | nil => exact h
  | cons a l ih =>
      refine ⟨h.1, ih ?_ fun b hb => heq b (List.mem_cons_of_mem a hb)⟩
      rw [heq a List.mem_cons_self]
      exact h.2

/-! ## Segments -/

theorem Seg.frame {h t : Loc} {l : List α} (hs : Seg node link h t l)
    (hh : link' h = link h) (heq : ∀ a ∈ l, link' (node a) = link (node a)) :
    Seg node link' h t l := by
  induction l generalizing h with
  | nil => exact hs
  | cons a l ih =>
      exact ⟨hh.trans hs.1, ih hs.2 (heq a List.mem_cons_self) fun b hb =>
        heq b (List.mem_cons_of_mem a hb)⟩

/-- The tail is the head or the link of one of the nodes. -/
theorem Seg.tail_mem {h t : Loc} {l : List α} (hs : Seg node link h t l) :
    t = h ∨ ∃ a ∈ l, t = node a := by
  induction l generalizing h with
  | nil => exact Or.inl hs.symm
  | cons a l ih =>
      rcases ih hs.2 with rfl | ⟨b, hb, rfl⟩
      · exact Or.inr ⟨a, List.mem_cons_self, rfl⟩
      · exact Or.inr ⟨b, List.mem_cons_of_mem a hb, rfl⟩

/-- A segment whose last link is null is a chain. -/
theorem Seg.chain {h t : Loc} {l : List α} (hs : Seg node link h t l) (ht : link t = none) :
    Chain node link (link h) l := by
  induction l generalizing h with
  | nil =>
      obtain rfl : h = t := hs
      exact ht
  | cons a l ih => exact ⟨hs.1, ih hs.2⟩

/-- A store through the tail pointer. -/
theorem Seg.snoc [DecidableEq Loc] (hnode : Function.Injective node) {h t : Loc} {l : List α}
    {a : α} (hs : Seg node link h t l) (hl : l.Nodup) (hh : ∀ b ∈ l, h ≠ node b) :
    Seg node (Function.update link t (some a)) h (node a) (l ++ [a]) := by
  induction l generalizing h with
  | nil =>
      obtain rfl : h = t := hs
      exact ⟨Function.update_self _ _ _, rfl⟩
  | cons b l ih =>
      obtain ⟨hb, hl⟩ := List.nodup_cons.mp hl
      have hht : h ≠ t := by
        rcases hs.2.tail_mem with rfl | ⟨c, hc, rfl⟩
        · exact hh b List.mem_cons_self
        · exact hh c (List.mem_cons_of_mem b hc)
      refine ⟨(Function.update_of_ne hht _ _).trans hs.1, ih hs.2 hl ?_⟩
      intro c hc hbc
      exact hb (hnode hbc ▸ hc)

/-! ## Queues -/

/-- A queue with the head link `h` and the tail pointer `t`. -/
structure Queue (node : α → Loc) (link : Loc → Option α) (h t : Loc) (l : List α) : Prop where
  seg : Seg node link h t l
  null : link t = none
  nodup : l.Nodup
  head : ∀ a ∈ l, h ≠ node a

theorem Queue.empty {h : Loc} (hh : link h = none) : Queue node link h h [] :=
  ⟨rfl, hh, List.nodup_nil, fun _ ha => by cases ha⟩

theorem Queue.chain {h t : Loc} {l : List α} (hq : Queue node link h t l) :
    Chain node link (link h) l := hq.seg.chain hq.null

/-- Stores outside a queue. -/
theorem Queue.frame {h t : Loc} {l : List α} (hq : Queue node link h t l)
    (hh : link' h = link h) (heq : ∀ a ∈ l, link' (node a) = link (node a)) :
    Queue node link' h t l := by
  refine ⟨hq.seg.frame hh heq, ?_, hq.nodup, hq.head⟩
  rcases hq.seg.tail_mem with rfl | ⟨a, ha, rfl⟩
  · exact hh.trans hq.null
  · exact (heq a ha).trans hq.null

/-- The tail pointer does not point at a node outside the queue. -/
theorem Queue.tail_ne (hnode : Function.Injective node) {h t : Loc} {l : List α} {a : α}
    (hq : Queue node link h t l) (ha : a ∉ l) (hh : h ≠ node a) : t ≠ node a := by
  rcases hq.seg.tail_mem with rfl | ⟨b, hb, rfl⟩
  · exact hh
  · intro hab
    exact ha (hnode hab ▸ hb)

/-- **Push**: link the node behind the tail, then end the list with it. -/
theorem Queue.push [DecidableEq Loc] (hnode : Function.Injective node) {h t : Loc} {l : List α}
    {a : α} (hq : Queue node link h t l) (ha : a ∉ l) (hh : h ≠ node a) :
    Queue node (Function.update (Function.update link t (some a)) (node a) none) h (node a)
      (l ++ [a]) := by
  have hta := hq.tail_ne hnode ha hh
  -- The two stores are at different places, so the node may as well be ended first.
  rw [Function.update_comm hta]
  have hq' : Queue node (Function.update link (node a) none) h t l := by
    refine hq.frame (Function.update_of_ne hh _ _) fun b hb => Function.update_of_ne ?_ _ _
    intro hba
    exact ha (hnode hba ▸ hb)
  refine ⟨hq'.seg.snoc hnode hq'.nodup hq'.head, ?_, ?_, ?_⟩
  · rw [Function.update_of_ne hta.symm, Function.update_self]
  · exact List.nodup_append.mpr ⟨hq.nodup, List.nodup_singleton a, fun b hb c hc hbc =>
      ha (List.mem_singleton.mp hc ▸ hbc ▸ hb)⟩
  · intro b hb
    rcases List.mem_append.mp hb with hb | hb
    · exact hq.head b hb
    · rw [List.mem_singleton.mp hb]
      exact hh

/-- **Take**: a push of the first node of a chain. The rest of the chain, which is read after
the store through the tail, and every queue of other nodes stay as they are. -/
theorem Queue.take [DecidableEq Loc] (hnode : Function.Injective node) {h t h' t' : Loc}
    {l l' rest : List α} {a : α} (hq : Queue node link h t l) (hq' : Queue node link h' t' l')
    (hr : Chain node link (some a) (a :: rest)) (hne : h ≠ h') (hh : ∀ b, h ≠ node b)
    (hh' : ∀ b, h' ≠ node b) (hl : a ∉ l) (hl' : a ∉ l') (hll : ∀ b ∈ l', b ∉ l)
    (hrest : ∀ b ∈ rest, b ∉ l) :
    Queue node (Function.update (Function.update link t (some a)) (node a) none) h (node a)
        (l ++ [a])
      ∧ Queue node (Function.update (Function.update link t (some a)) (node a) none) h' t' l'
      ∧ Chain node (Function.update (Function.update link t (some a)) (node a) none)
          (Function.update link t (some a) (node a)) rest := by
  have hother : ∀ x, t ≠ x → node a ≠ x →
      Function.update (Function.update link t (some a)) (node a) none x = link x := by
    intro x htx hax
    rw [Function.update_of_ne hax.symm, Function.update_of_ne htx.symm]
  -- The tail is the head of its own queue or a node of it, so not the other head.
  have hth' : t ≠ h' := by
    rcases hq.seg.tail_mem with rfl | ⟨b, -, rfl⟩
    · exact hne
    · exact (hh' b).symm
  refine ⟨hq.push hnode hl (hh a), hq'.frame (hother h' hth' (hh' a).symm) ?_, ?_⟩
  · intro b hb
    refine hother (node b) (hq.tail_ne hnode (hll b hb) (hh b)) fun hab => hl' ?_
    exact hnode hab ▸ hb
  · have ha : a ∉ rest := (List.nodup_cons.mp hr.nodup).1
    rw [Function.update_of_ne (hq.tail_ne hnode hl (hh a)).symm]
    refine hr.2.frame fun b hb => hother (node b) (hq.tail_ne hnode (hrest b hb) (hh b)) ?_
    intro hab
    exact ha (hnode hab ▸ hb)

end LinkedChain
