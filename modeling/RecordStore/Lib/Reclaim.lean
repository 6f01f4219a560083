import Mathlib

/-!
# Lib.Reclaim — slots, the resources they refer to, and the queue of resources to reclaim

A slot of a store may refer to a resource.  A resource whose slot is given up is queued, and is
reclaimed from the queue later.  `Safe` says that the queue never holds what a slot still refers to;
`Moves` is what one step may do to the holdings, closed under sequencing, so that a transaction is
described by the slots it drops and the one it fills.
-/

namespace RecordStore.Lib

/-- What each slot refers to, and what waits to be reclaimed. -/
structure Holdings (S P : Type) where
  ref : S → Option P
  queue : Set P

namespace Holdings

variable {S P : Type} {x y z : Holdings S P} {new done : Option P}

def Referenced (x : Holdings S P) (p : P) : Prop := ∃ a, x.ref a = some p

/-- Every resource has one slot at most, and nothing that waits is referred to. -/
structure Safe (x : Holdings S P) : Prop where
  unique : ∀ {a b : S} {p : P}, x.ref a = some p → x.ref b = some p → a = b
  disjoint : ∀ {p : P}, p ∈ x.queue → ¬ x.Referenced p

/-- A step that may bring the resource `new` and may take `done` out of the queue. -/
structure Moves (new done : Option P) (x y : Holdings S P) : Prop where
  brought : ∀ {p : P}, y.Referenced p → x.Referenced p ∨ new = some p
  queued : ∀ {p : P}, p ∈ y.queue → p ∈ x.queue ∨ x.Referenced p
  dropped : ∀ {p : P}, x.Referenced p → y.Referenced p ∨ p ∈ y.queue
  kept : ∀ {p : P}, p ∈ x.queue → p ∈ y.queue ∨ done = some p
  safe : x.Safe → (∀ p, new = some p → ¬ x.Referenced p ∧ p ∉ x.queue) → y.Safe

theorem Moves.refl (x : Holdings S P) : Moves new done x x :=
  ⟨.inl, .inl, .inl, .inl, fun h _ => h⟩

theorem Moves.mono (h : Moves none none x y) : Moves new done x y where
  brought hp := (h.brought hp).imp_right (by simp)
  queued := h.queued
  dropped := h.dropped
  kept hp := (h.kept hp).imp_right (by simp)
  safe hs _ := h.safe hs (by simp)

/-- A step that brings nothing, followed by one that may. -/
theorem Moves.trans (h : Moves none none x y) (h' : Moves new none y z) : Moves new none x z where
  brought hp := by
    rcases h'.brought hp with hy | hnew
    · exact (h.brought hy).imp_right (by simp)
    · exact .inr hnew
  queued hp := by
    rcases h'.queued hp with hy | hy
    · exact h.queued hy
    · exact .inr ((h.brought hy).resolve_right (by simp))
  dropped hp := by
    rcases h.dropped hp with hy | hy
    · exact h'.dropped hy
    · exact .inr ((h'.kept hy).resolve_right (by simp))
  kept hp := h'.kept ((h.kept hp).resolve_right (by simp))
  safe hs hnew := by
    refine h'.safe (h.safe hs (by simp)) fun p hp => ⟨fun hy => ?_, fun hy => ?_⟩
    · exact (hnew p hp).1 ((h.brought hy).resolve_right (by simp))
    · exact (h.queued hy).elim (hnew p hp).2 (hnew p hp).1

/-- The slots of `D` are given up, and what they referred to is queued. -/
theorem Moves.drop {D : Set S} (hgone : ∀ a ∈ D, y.ref a = none) (hkeep : ∀ a ∉ D, y.ref a = x.ref a)
    (hqueue : ∀ p, p ∈ y.queue ↔ p ∈ x.queue ∨ ∃ a ∈ D, x.ref a = some p) : Moves none none x y := by
  have hback : ∀ {a p}, y.ref a = some p → a ∉ D ∧ x.ref a = some p := by
    intro a p ha
    have hD : a ∉ D := fun hD => by
      rw [hgone a hD] at ha
      cases ha
    exact ⟨hD, hkeep a hD ▸ ha⟩
  refine ⟨?_, ?_, ?_, fun hp => .inl ((hqueue _).mpr (.inl hp)), ?_⟩
  · rintro p ⟨a, ha⟩
    exact .inl ⟨a, (hback ha).2⟩
  · intro p hp
    rcases (hqueue p).mp hp with hx | ⟨a, -, ha⟩
    · exact .inl hx
    · exact .inr ⟨a, ha⟩
  · rintro p ⟨a, ha⟩
    by_cases hD : a ∈ D
    · exact .inr ((hqueue p).mpr (.inr ⟨a, hD, ha⟩))
    · exact .inl ⟨a, (hkeep a hD).trans ha⟩
  · intro hs _
    refine ⟨fun ha hb => hs.unique (hback ha).2 (hback hb).2, ?_⟩
    rintro p hp ⟨b, hb⟩
    obtain ⟨hbD, hb⟩ := hback hb
    rcases (hqueue p).mp hp with hx | ⟨a, haD, ha⟩
    · exact hs.disjoint hx ⟨b, hb⟩
    · exact hbD (hs.unique ha hb ▸ haD)

/-- A free slot is filled. -/
theorem Moves.fill {a : S} {p : P} (hfree : x.ref a = none) (hnew : y.ref a = some p)
    (hother : ∀ b, b ≠ a → y.ref b = x.ref b) (hqueue : y.queue = x.queue) :
    Moves (some p) none x y := by
  have hback : ∀ {b q}, y.ref b = some q → (b = a ∧ q = p) ∨ (b ≠ a ∧ x.ref b = some q) := by
    intro b q hb
    by_cases e : b = a
    · subst e
      rw [hnew] at hb
      exact .inl ⟨rfl, (Option.some.inj hb).symm⟩
    · exact .inr ⟨e, hother b e ▸ hb⟩
  refine ⟨?_, fun hq => .inl (hqueue ▸ hq), ?_, fun hq => .inl (hqueue.symm ▸ hq), ?_⟩
  · rintro q ⟨b, hb⟩
    rcases hback hb with ⟨-, rfl⟩ | ⟨-, hb⟩
    · exact .inr rfl
    · exact .inl ⟨b, hb⟩
  · rintro q ⟨b, hb⟩
    refine .inl ⟨b, (hother b fun e => ?_).trans hb⟩
    rw [e, hfree] at hb
    cases hb
  · intro hs hp
    obtain ⟨hpref, hpqueue⟩ := hp p rfl
    refine ⟨?_, ?_⟩
    · intro b c q hb hc
      rcases hback hb with ⟨eb, ep⟩ | ⟨-, hb'⟩ <;> rcases hback hc with ⟨ec, ep'⟩ | ⟨-, hc'⟩
      · exact eb.trans ec.symm
      · exact absurd ⟨c, ep ▸ hc'⟩ hpref
      · exact absurd ⟨b, ep' ▸ hb'⟩ hpref
      · exact hs.unique hb' hc'
    · rintro q hq ⟨b, hb⟩
      rw [hqueue] at hq
      rcases hback hb with ⟨-, rfl⟩ | ⟨-, hb'⟩
      · exact hpqueue hq
      · exact hs.disjoint hq ⟨b, hb'⟩

/-- A resource leaves the queue. -/
theorem Moves.reclaim {p : P} (href : y.ref = x.ref) (hqueue : y.queue = x.queue \ {p}) :
    Moves none (some p) x y := by
  have hiff : ∀ q, y.Referenced q ↔ x.Referenced q := fun q => by
    unfold Referenced
    rw [href]
  refine ⟨fun hq => .inl ((hiff _).mp hq), ?_, fun hq => .inl ((hiff _).mpr hq), ?_, ?_⟩
  · intro q hq
    rw [hqueue] at hq
    exact .inl hq.1
  · intro q hq
    by_cases e : q = p
    · exact .inr (by rw [e])
    · exact .inl (by rw [hqueue]; exact ⟨hq, e⟩)
  · intro hs _
    refine ⟨fun ha hb => hs.unique (href ▸ ha) (href ▸ hb), fun hq hr => ?_⟩
    rw [hqueue] at hq
    exact hs.disjoint hq.1 ((hiff _).mp hr)

end Holdings

end RecordStore.Lib
