import RecordStore.Consensus.LogStore

/-!
# Consensus.LogReads — ranges of the log

`try_get_log_entries` turns the two bounds of a range into the first and the last index it asks the table
for.  An excluded bound is moved by one and saturates, so it admits its own index at the two ends of `u64`.
-/

namespace RecordStore.Consensus

open RecordStore.Lib

variable {γ μ : Type}

/-- `std::ops::Bound<u64>`. -/
inductive Bound where
  | included (index : UInt64)
  | excluded (index : UInt64)
  | unbounded
  deriving DecidableEq

namespace Bound

/-- Whether an index lies behind a start bound. -/
def startAdmits : Bound → Nat → Bool
  | included index, i => index.toNat ≤ i
  | excluded index, i => index.toNat < i
  | unbounded, _ => true

/-- Whether an index lies before an end bound. -/
def endAdmits : Bound → Nat → Bool
  | included index, i => i ≤ index.toNat
  | excluded index, i => i < index.toNat
  | unbounded, _ => true

/-- The first index asked for: `saturating_add`. -/
def first : Bound → Nat
  | included index => index.toNat
  | excluded index => min (index.toNat + 1) (2 ^ 64 - 1)
  | unbounded => 0

/-- The last index asked for: `saturating_sub`. -/
def last : Bound → Option Nat
  | included index => some index.toNat
  | excluded index => some (index.toNat - 1)
  | unbounded => none

/-- An index below `first` is before the bound; one behind it is admitted, but for `u64::MAX` excluded. -/
theorem first_le_iff (b : Bound) (i : Nat) (hi : i < 2 ^ 64) :
    b.first ≤ i ↔ b.startAdmits i = true ∨ (b = excluded 0xffffffffffffffff ∧ i = 2 ^ 64 - 1) := by
  cases b with
  | included index => simp [first, startAdmits]
  | unbounded => simp [first, startAdmits]
  | excluded index =>
    have hlt := index.toNat_lt
    have hmax : index = 0xffffffffffffffff ↔ index.toNat = 2 ^ 64 - 1 := by
      rw [← UInt64.toNat_inj]
      rfl
    simp only [first, startAdmits, decide_eq_true_eq, excluded.injEq, hmax]
    omega

theorem le_last_iff (b : Bound) (i : Nat) :
    b.last.all (i ≤ ·) = true ↔ b.endAdmits i = true ∨ (b = excluded 0 ∧ i = 0) := by
  cases b with
  | included index => simp [last, endAdmits]
  | unbounded => simp [last, endAdmits]
  | excluded index =>
    have hzero : index = 0 ↔ index.toNat = 0 := by
      rw [← UInt64.toNat_inj]
      rfl
    simp only [last, endAdmits, Option.all_some, decide_eq_true_eq, excluded.injEq, hzero]
    omega

end Bound

namespace LogStore

/-- The logs that the calls of the store leave. -/
inductive Stored : LogStore γ μ → Prop
  | empty : Stored .empty
  | append {s : LogStore γ μ} (es : List (Entry γ μ)) : Stored s → Stored (s.append es)
  | truncate {s : LogStore γ μ} (id : LogId) : Stored s → Stored (s.truncate id)
  | markPurged {s : LogStore γ μ} (id : LogId) : Stored s → Stored (s.markPurged id)
  | removePurged {s : LogStore γ μ} (id : LogId) : Stored s → Stored (s.removePurged id)
  | saveVote {s : LogStore γ μ} (vote : Vote) : Stored s → Stored (s.saveVote vote)
  | saveCommitted {s : LogStore γ μ} (committed : Option LogId) : Stored s → Stored (s.saveCommitted committed)

/-- Every row is filed under the index of its entry. -/
theorem Stored.number {s : LogStore γ μ} (h : Stored s) :
    ∀ (i : Nat) (e : Entry γ μ), s.entries[i]? = some e → e.logId.number = i := by
  induction h with
  | empty =>
    intro i e he
    rw [show (LogStore.empty : LogStore γ μ).entries[i]? = none from Table.lookup_empty _] at he
    cases he
  | append es _ ih => exact number_of_lookup ih
  | truncate id _ ih =>
    intro i e he
    rw [LogStore.truncate, Table.lookup_filter] at he
    split_ifs at he
    exact ih i e he
  | removePurged id _ ih =>
    intro i e he
    rw [LogStore.removePurged, Table.lookup_filter] at he
    split_ifs at he
    exact ih i e he
  | markPurged _ _ ih => exact ih
  | saveVote _ _ ih => exact ih
  | saveCommitted _ _ ih => exact ih

/-- The rows of the table between the two indexes, in order. -/
def rowsBetween (s : LogStore γ μ) (start end_ : Bound) : List (Nat × Entry γ μ) :=
  s.entries.toList.filter fun row => decide (start.first ≤ row.1) && end_.last.all (row.1 ≤ ·)

def tryGetLogEntries (s : LogStore γ μ) (start end_ : Bound) : List (Entry γ μ) :=
  (s.rowsBetween start end_).map (·.2)

/-- What a range of the log is: the stored entries whose index lies within the bounds, in order. -/
def entriesWithin (s : LogStore γ μ) (start end_ : Bound) : List (Entry γ μ) :=
  (s.entries.toList.filter fun row => start.startAdmits row.1 && end_.endAdmits row.1).map (·.2)

/-- A row is asked for if its index lies within the bounds, and at an excluded end of `u64`. -/
theorem asked_iff (start end_ : Bound) {i : Nat} (hi : i < 2 ^ 64) :
    (decide (start.first ≤ i) && end_.last.all (i ≤ ·)) = true ↔
      (start.startAdmits i && end_.endAdmits i) = true ∨
      (end_ = .excluded 0 ∧ start.startAdmits 0 = true ∧ i = 0) ∨
      (start = .excluded 0xffffffffffffffff ∧ end_.endAdmits (2 ^ 64 - 1) = true ∧ i = 2 ^ 64 - 1) := by
  rw [Bool.and_eq_true, Bool.and_eq_true, decide_eq_true_eq, start.first_le_iff i hi, end_.le_last_iff i]
  constructor
  · rintro ⟨hstart | ⟨hstart, rfl⟩, hend | ⟨hend, hzero⟩⟩
    · exact .inl ⟨hstart, hend⟩
    · subst hzero
      exact .inr (.inl ⟨hend, hstart, rfl⟩)
    · exact .inr (.inr ⟨hstart, hend, rfl⟩)
    · cases hzero
  · rintro (h | ⟨hend, hstart, rfl⟩ | ⟨hstart, hend, rfl⟩)
    · exact ⟨.inl h.1, .inl h.2⟩
    · exact ⟨.inl hstart, .inr ⟨hend, rfl⟩⟩
    · exact ⟨.inr ⟨hstart, rfl⟩, .inl hend⟩

/-- A range of the log comes back in increasing order, and it is exactly the entries within the bounds unless
a bound excludes the first or the last index there is, an entry is stored there, and the other bound admits
it. -/
theorem tryGetLogEntries_exact_iff {s : LogStore γ μ} (h : Stored s) (start end_ : Bound) :
    ((s.tryGetLogEntries start end_).map (·.logId.number)).Pairwise (· < ·) ∧
      (s.tryGetLogEntries start end_ = s.entriesWithin start end_ ↔
        ¬ (end_ = .excluded 0 ∧ start.startAdmits 0 = true ∧ s.entries[0]?.isSome = true) ∧
        ¬ (start = .excluded 0xffffffffffffffff ∧ end_.endAdmits (2 ^ 64 - 1) = true ∧
          s.entries[2 ^ 64 - 1]?.isSome = true)) := by
  have hrow : ∀ row ∈ s.entries.toList, s.entries[row.1]? = some row.2 := fun row hr =>
    Std.ExtTreeMap.mem_toList_iff_getElem?_eq_some.mp hr
  have hnumber : ∀ row ∈ s.entries.toList, row.2.logId.number = row.1 := fun row hr => h.number _ _ (hrow row hr)
  have hbound : ∀ row ∈ s.entries.toList, row.1 < 2 ^ 64 := by
    intro row hr
    rw [← hnumber row hr]
    exact row.2.logId.index.toNat_lt
  refine ⟨?_, ?_⟩
  · have hordered : (s.rowsBetween start end_).Pairwise fun a b => compare a.1 b.1 = .lt :=
      Std.ExtTreeMap.ordered_keys_toList.filter _
    rw [tryGetLogEntries, List.map_map, List.pairwise_map]
    refine hordered.imp_of_mem fun {a b} ha hb hab => ?_
    rw [Function.comp, Function.comp, hnumber a (List.mem_filter.mp ha).1, hnumber b (List.mem_filter.mp hb).1]
    exact Nat.compare_eq_lt.mp hab
  -- the rows within the bounds are among those asked for
  have hsub : s.entries.toList.filter (fun row => start.startAdmits row.1 && end_.endAdmits row.1) =
      (s.rowsBetween start end_).filter fun row => start.startAdmits row.1 && end_.endAdmits row.1 := by
    rw [rowsBetween, List.filter_filter]
    refine List.filter_congr fun row hr => ?_
    rw [Bool.eq_iff_iff, Bool.and_eq_true (_ && _) (_ && _), asked_iff start end_ (hbound row hr)]
    exact ⟨fun hw => ⟨hw, .inl hw⟩, And.left⟩
  have hexact : s.tryGetLogEntries start end_ = s.entriesWithin start end_ ↔
      ∀ row ∈ s.rowsBetween start end_, (start.startAdmits row.1 && end_.endAdmits row.1) = true := by
    rw [tryGetLogEntries, entriesWithin, hsub]
    constructor
    · intro heq
      have hlen := congrArg List.length heq
      rw [List.length_map, List.length_map] at hlen
      exact List.length_filter_eq_length_iff.mp hlen.symm
    · intro hall
      rw [List.filter_eq_self.mpr hall]
  have hmem : ∀ {i : Nat}, s.entries[i]?.isSome = true ↔ ∃ e, (i, e) ∈ s.entries.toList := by
    intro i
    rw [Option.isSome_iff_exists]
    exact exists_congr fun e => Std.ExtTreeMap.mem_toList_iff_getElem?_eq_some.symm
  rw [hexact]
  constructor
  · intro hall
    refine ⟨?_, ?_⟩
    · rintro ⟨rfl, hstart, hsome⟩
      obtain ⟨e, he⟩ := hmem.mp hsome
      have hasked := (asked_iff start (.excluded 0) (Nat.two_pow_pos 64)).mpr (.inr (.inl ⟨rfl, hstart, rfl⟩))
      have hin := hall (0, e) (List.mem_filter.mpr ⟨he, hasked⟩)
      exact absurd ((Bool.and_eq_true _ _).mp hin).2 (show ¬ (Bound.excluded 0).endAdmits 0 = true by decide)
    · rintro ⟨rfl, hend, hsome⟩
      obtain ⟨e, he⟩ := hmem.mp hsome
      have hasked := (asked_iff (.excluded 0xffffffffffffffff) end_ (Nat.sub_one_lt (Nat.two_pow_pos 64).ne')).mpr
        (.inr (.inr ⟨rfl, hend, rfl⟩))
      have hin := hall (2 ^ 64 - 1, e) (List.mem_filter.mpr ⟨he, hasked⟩)
      exact absurd ((Bool.and_eq_true _ _).mp hin).1
        (show ¬ (Bound.excluded 0xffffffffffffffff).startAdmits (2 ^ 64 - 1) = true by decide)
  · rintro ⟨hlow, hhigh⟩ ⟨i, e⟩ hrow'
    obtain ⟨hr, hasked⟩ := List.mem_filter.mp hrow'
    rcases (asked_iff start end_ (hbound _ hr)).mp hasked with hin | ⟨hend, hstart, rfl⟩ | ⟨hstart, hend, rfl⟩
    · exact hin
    · exact absurd ⟨hend, hstart, hmem.mpr ⟨e, hr⟩⟩ hlow
    · exact absurd ⟨hstart, hend, hmem.mpr ⟨e, hr⟩⟩ hhigh

namespace Sample

def first : Entry Unit Unit := ⟨⟨1, 1, 0⟩, .blank⟩

def log : LogStore Unit Unit := LogStore.empty.append [first]

end Sample

theorem tryGetLogEntries_exact_sample :
    Sample.log.tryGetLogEntries (.included 0) (.excluded 5) = Sample.log.entriesWithin (.included 0) (.excluded 5) :=
  (tryGetLogEntries_exact_iff (.append [Sample.first] .empty) (.included 0) (.excluded 5)).2.mpr
    ⟨fun h => (by cases h.1), fun h => (by cases h.1)⟩

/-- The range `0..0` of a log with an entry at index `0` is empty, and the entry is returned. -/
theorem tryGetLogEntries_empty_range :
    Stored Sample.log ∧ Sample.log.entriesWithin (.included 0) (.excluded 0) = [] ∧
      Sample.log.tryGetLogEntries (.included 0) (.excluded 0) = [Sample.first] :=
  ⟨.append _ .empty, rfl, rfl⟩

end LogStore

end RecordStore.Consensus
