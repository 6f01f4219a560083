import RecordStore.Metadata.Commands

/-!
# Metadata.Ledger — counters, journal and unchecked arithmetic

The seven global counters move by signed amounts and refuse to leave the range of `u64`.  `Shift` says
by how much each of them moved; the journal uses a counter of its own and shifts none of them.  Every
helper that touches only the counters and the journal gets one lemma of the same form: the catalog is
as it was up to these two tables, and the counters shifted by a known amount.
-/

namespace RecordStore.Metadata

open RecordStore.Lib RecordStore.Core Tx

/-! ## The counters -/

/-- The counters that account for stored data. -/
inductive Counter where
  | objects
  | buckets
  | logical
  | versions
  | versionBytes
  | physical
  | multipart
  deriving DecidableEq

def Counter.name : Counter → String
  | .objects => objectCount
  | .buckets => bucketCount
  | .logical => logicalBytes
  | .versions => versionCount
  | .versionBytes => Metadata.versionBytes
  | .physical => physicalBytes
  | .multipart => multipartBytes

theorem Counter.name_inj {c d : Counter} (h : c.name = d.name) : c = d := by
  cases c <;> cases d <;> first | rfl | exact absurd h (by decide)

theorem Counter.name_ne_sequence (c : Counter) : mutationEventSequence ≠ c.name := by
  cases c <;> decide

/-- The value of a counter; a missing row counts as zero. -/
def countIn (t : Table String UInt64) (c : Counter) : Nat := ((t[c.name]?).getD 0).toNat

/-- The counters of `t'` are those of `t` moved by `δ`. -/
def Shift (t t' : Table String UInt64) (δ : Counter → Int) : Prop :=
  ∀ c, (countIn t' c : Int) = countIn t c + δ c

/-- The amount `d` on the counter `c` and nothing on the others. -/
def only (c : Counter) (d : Int) : Counter → Int := fun c' => if c' = c then d else 0

section Shift

variable {t t' t'' : Table String UInt64} {δ δ' : Counter → Int}

theorem Shift.refl (t : Table String UInt64) : Shift t t 0 := fun c => by simp

theorem Shift.trans (h : Shift t t' δ) (h' : Shift t' t'' δ') : Shift t t'' (δ + δ') := by
  intro c
  rw [h' c, h c, Pi.add_apply]
  omega

theorem Shift.congr (h : Shift t t' δ) (e : ∀ c, δ c = δ' c) : Shift t t' δ' := fun c => by
  rw [h c, e c]

/-- The other counters stay. -/
theorem Shift.same {c c' : Counter} {d : Int} (h : Shift t t' (only c d)) (hc : c' ≠ c) :
    countIn t' c' = countIn t c' := by
  have := h c'
  rw [only, if_neg hc] at this
  omega

theorem countIn_lt (t : Table String UInt64) (c : Counter) : countIn t c < 2 ^ 64 := UInt64.toNat_lt _

theorem countIn_insert (t : Table String UInt64) (name : String) (v : UInt64) (c : Counter) :
    countIn (t.insert name v) c = if name = c.name then v.toNat else countIn t c := by
  unfold countIn
  rw [Table.lookup_insert]
  by_cases h : name = c.name
  · rw [if_pos h, if_pos h.symm]
    rfl
  · rw [if_neg h, if_neg (Ne.symm h)]

end Shift

/-! ## Statements that move the counters -/

section Statements

variable {s s' : Catalog} {env : Env}

/-- Reading the sum of a counter and a delta: it fits, and only this counter moves. -/
theorem adjustCounter_returns {c : Counter} {d : Int} {u : Unit}
    (h : Returns (adjustCounter c.name d) s u s') :
    ∃ t, s' = { s with counters := t } ∧ Shift s.counters t (only c d) := by
  simp only [adjustCounter, returns_bind, returns_read, returns_ensure, returns_modify, exists_and_left,
    exists_eq_left, and_assoc] at h
  obtain ⟨h0, h1, -, rfl⟩ := h
  refine ⟨_, rfl, fun c' => ?_⟩
  rw [countIn_insert]
  unfold only
  by_cases hc : c' = c
  · subst hc
    rw [if_pos rfl, if_pos rfl]
    have hv : (s.readCounter c'.name).toNat = countIn s.counters c' := rfl
    rw [hv] at h0 h1 ⊢
    simp only [UInt64.toNat_ofNat']
    omega
  · have hn : c.name ≠ c'.name := fun e => hc (Counter.name_inj e).symm
    rw [if_neg hn, if_neg hc, add_zero]

theorem journalEvent_returns {eventType : StorageEventType} {bucket : String} {key : Option ObjectKey}
    {versionId : Option VersionId} {size : Option UInt64} {occurredAt : DateTime} {u : Unit}
    (h : Returns (journalEvent env eventType bucket key versionId size occurredAt) s u s') :
    ∃ t e, s' = { s with counters := t, mutationEvents := e } ∧ Shift s.counters t 0 := by
  simp only [journalEvent, returns_bind, returns_read, returns_ensure, returns_modify, exists_and_left,
    exists_eq_left, and_assoc] at h
  obtain ⟨-, -, rfl⟩ := h
  refine ⟨_, _, rfl, fun c => ?_⟩
  rw [countIn_insert, if_neg c.name_ne_sequence, Pi.zero_apply, add_zero]

/-- A list of events leaves the counters of stored data alone. -/
theorem journalEvents_returns {α : Type} {l : List α} {f : α → CatalogTx Unit} {u : PUnit}
    (hf : ∀ a s s' u, Returns (f a) s u s' →
      ∃ t e, s' = { s with counters := t, mutationEvents := e } ∧ Shift s.counters t 0)
    (h : Returns (l.forM f) s u s') :
    ∃ t e, s' = { s with counters := t, mutationEvents := e } ∧ Shift s.counters t 0 := by
  induction l generalizing s with
  | nil =>
    rw [returns_forM_nil] at h
    subst h
    exact ⟨_, _, rfl, Shift.refl _⟩
  | cons a l ih =>
    rw [returns_forM_cons] at h
    obtain ⟨s₁, h1, h2⟩ := h
    obtain ⟨t, e, rfl, ht⟩ := hf a s s₁ _ h1
    obtain ⟨t', e', rfl, ht'⟩ := ih h2
    exact ⟨t', e', rfl, (ht.trans ht').congr fun c => by simp⟩

theorem uncheckedSub_returns {a b r : UInt64} (h : Returns (uncheckedSub env a b) s r s') :
    r = a - b ∧ s' = s := by
  simp only [uncheckedSub, returns_bind, returns_ensure, returns_pure, exists_and_left, and_assoc] at h
  obtain ⟨-, _, -, rfl, rfl, rfl⟩ := h
  exact ⟨rfl, rfl⟩

theorem uncheckedAdd_returns {a b r : UInt64} (h : Returns (uncheckedAdd env a b) s r s') :
    r = a + b ∧ s' = s := by
  simp only [uncheckedAdd, returns_bind, returns_ensure, returns_pure, exists_and_left, and_assoc] at h
  obtain ⟨-, _, -, rfl, rfl, rfl⟩ := h
  exact ⟨rfl, rfl⟩

end Statements

/-! ## Checked sums -/

section Checked

variable {r : UInt64}

theorem totalSize_some {parts : List UploadedPart} (h : totalSize parts = some r) :
    r.toNat = (parts.map fun p => p.size.toNat).sum := by
  suffices H : ∀ (l : List UploadedPart) (acc r : UInt64),
      l.foldlM (fun sum part => if sum.toNat + part.size.toNat < 2 ^ 64 then some (sum + part.size) else none)
        acc = some r → r.toNat = acc.toNat + (l.map fun p => p.size.toNat).sum by
    simpa using H parts 0 r h
  intro l
  induction l with
  | nil =>
    intro acc r h
    simp only [List.foldlM_nil, Option.pure_def, Option.some.injEq] at h
    simp [h]
  | cons p l ih =>
    intro acc r h
    rw [List.foldlM_cons] at h
    split_ifs at h with hlt
    · have := ih _ _ h
      rw [this, UInt64.toNat_add, Nat.mod_eq_of_lt hlt, List.map_cons, List.sum_cons]
      omega
    · exact absurd h (by simp)

end Checked

end RecordStore.Metadata
