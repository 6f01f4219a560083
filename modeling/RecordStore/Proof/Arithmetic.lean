import RecordStore.Proof.History

/-!
# Proof.Arithmetic — adding one at the end of the sequence numbers

Both the size of a checkpoint and the check of links add one to a 64-bit number that comes from a bundle.  The sums are
exact up to the last number: a range of all `2 ^ 64` sequences, or a record with the last sequence that is followed by
another, makes the sum panic, or wrap where the build does not check (`arithmetic_exact_iff`).
-/

namespace RecordStore.Proof

open RecordStore.Audit

/-- `u64::MAX`. -/
def lastSequence : UInt64 := 0xffffffffffffffff

/-! ## Writing a checkpoint -/

/-- One checkpoint over a contiguous range of the audit log, as the log writes it. -/
structure AuditCheckpoint where
  sequence : UInt64
  fromSequence : UInt64
  toSequence : UInt64
  leafCount : UInt64
  root : Digest32
  previousCheckpointHash : Digest32
  deriving DecidableEq

/-- Why a checkpoint is refused. -/
inductive CheckpointError where
  | emptyCheckpoint
  | checkpointLeafCount (fromSequence toSequence covered leafCount : UInt64)
  deriving DecidableEq

/-- `Checkpoint::new`; `none` is a panic. -/
def AuditCheckpoint.new (overflowChecks : Bool) (sequence fromSequence toSequence leafCount : UInt64)
    (root previousCheckpointHash : Digest32) : Option (Except CheckpointError AuditCheckpoint) :=
  if leafCount = 0 ∨ toSequence < fromSequence then some (.error .emptyCheckpoint)
  else
    match addOne overflowChecks (toSequence - fromSequence) with
    | none => none
    | some covered =>
      if covered ≠ leafCount then some (.error (.checkpointLeafCount fromSequence toSequence covered leafCount))
      else some (.ok ⟨sequence, fromSequence, toSequence, leafCount, root, previousCheckpointHash⟩)

/-! ## The same over the integers -/

/-- The range has exactly so many records, over the integers. -/
def Covers (fromSequence toSequence leafCount : UInt64) : Prop :=
  fromSequence.toNat ≤ toSequence.toNat ∧ (toSequence.toNat : Int) - fromSequence.toNat + 1 = leafCount.toNat ∧
    1 ≤ leafCount.toNat

/-- The sum neither panics nor wraps. -/
def AddsOne (overflowChecks : Bool) (n : UInt64) : Prop := ∃ m, addOne overflowChecks n = some m ∧ m.toNat = n.toNat + 1

/-- The check of the size passes for the ranges it should, and its sum is exact. -/
def SizeExact (overflowChecks : Bool) (c : Checkpoint) : Prop :=
  (∃ check, verifyCheckpointSize overflowChecks c = some check ∧
    (check.status = .passed ↔ Covers c.fromSequence c.toSequence c.leafCount)) ∧
  (c.fromSequence ≤ c.toSequence → AddsOne overflowChecks (c.toSequence - c.fromSequence))

/-- A checkpoint is written for the same ranges, and its sum is exact. -/
def NewExact (overflowChecks : Bool) (c : Checkpoint) (root previous : Digest32) : Prop :=
  (∃ outcome, AuditCheckpoint.new overflowChecks c.sequence c.fromSequence c.toSequence c.leafCount root previous =
    some outcome ∧ (outcome.isOk = true ↔ Covers c.fromSequence c.toSequence c.leafCount)) ∧
  (c.leafCount ≠ 0 → c.fromSequence ≤ c.toSequence → AddsOne overflowChecks (c.toSequence - c.fromSequence))

/-- The loop over neighbouring records with adjacent sequences over the integers. -/
def exactLinks : List HistoryRecord → Nat → Except String Nat
  | earlier :: later :: rest, linked =>
    if later.sequence.toNat ≠ earlier.sequence.toNat + 1 then exactLinks (later :: rest) linked
    else if later.previousHash ≠ earlier.recordHash then
      .error ("record " ++ showSequence later.sequence ++ " does not link to record " ++ showSequence earlier.sequence)
    else exactLinks (later :: rest) (linked + 1)
  | _, linked => .ok linked

/-- The sequences that the loop adds one to, until a broken link ends it. -/
def compared : List HistoryRecord → List UInt64
  | earlier :: later :: rest =>
    earlier.sequence ::
      if later.sequence = earlier.sequence + 1 ∧ later.previousHash ≠ earlier.recordHash then []
        else compared (later :: rest)
  | _ => []

/-- The loop treats the same pairs as adjacent, and its sums are exact. -/
def LinksExact (overflowChecks : Bool) (records : List HistoryRecord) : Prop :=
  countLinks overflowChecks records 0 = some (exactLinks records 0) ∧
    ∀ n ∈ compared records, AddsOne overflowChecks n

/-! ## Where the sums are exact -/

section Exact

variable {overflowChecks : Bool}

theorem toNat_lastSequence : lastSequence.toNat = 2 ^ 64 - 1 := by decide

theorem addsOne_iff {n : UInt64} : AddsOne overflowChecks n ↔ n ≠ lastSequence := by
  constructor
  · rintro ⟨m, -, hm⟩ rfl
    have hlt := m.toNat_lt
    rw [hm, toNat_lastSequence] at hlt
    omega
  · intro hne
    refine ⟨n + 1, if_neg fun h => hne h.2, ?_⟩
    have hlt := n.toNat_lt
    have hlast : n.toNat ≠ 2 ^ 64 - 1 := fun h => hne (UInt64.toNat.inj (h.trans toNat_lastSequence.symm))
    rw [UInt64.toNat_add, UInt64.toNat_one]
    omega

/-- The range of all sequences is the one whose length does not fit. -/
theorem sub_eq_lastSequence {a b : UInt64} (h : a ≤ b) : b - a = lastSequence ↔ a = 0 ∧ b = lastSequence := by
  have hsub := UInt64.toNat_sub_of_le b a h
  have ha := a.toNat_lt
  have hb := b.toNat_lt
  rw [← UInt64.toNat_inj, ← UInt64.toNat_inj, ← UInt64.toNat_inj, hsub, toNat_lastSequence, UInt64.toNat_zero]
  rw [UInt64.le_iff_toNat_le] at h
  omega

/-- Where the sum is exact, it is the number of records of the range. -/
theorem covers_iff {a b l : UInt64} (h : a ≤ b) {covered : UInt64} (hsum : covered.toNat = (b - a).toNat + 1) :
    covered = l ↔ Covers a b l := by
  rw [UInt64.toNat_sub_of_le b a h] at hsum
  rw [UInt64.le_iff_toNat_le] at h
  unfold Covers
  rw [← UInt64.toNat_inj, hsum]
  omega

theorem not_covers {a b : UInt64} (h : ¬ a ≤ b) (l : UInt64) : ¬ Covers a b l := fun hc =>
  h (UInt64.le_iff_toNat_le.mpr hc.1)

variable {c : Checkpoint}

theorem sizeExact_of_addsOne
    (h : c.fromSequence ≤ c.toSequence → AddsOne overflowChecks (c.toSequence - c.fromSequence)) :
    SizeExact overflowChecks c := by
  refine ⟨?_, h⟩
  unfold verifyCheckpointSize
  by_cases hrange : c.fromSequence ≤ c.toSequence
  · obtain ⟨covered, hsum, hexact⟩ := h hrange
    rw [if_neg (UInt64.not_lt.mpr hrange), hsum]
    simp only
    by_cases hcovered : covered = c.leafCount
    · rw [if_pos hcovered]
      exact ⟨_, rfl, iff_of_true rfl ((covers_iff hrange hexact).mp hcovered)⟩
    · rw [if_neg hcovered]
      exact ⟨_, rfl, iff_of_false nofun fun hc => hcovered ((covers_iff hrange hexact).mpr hc)⟩
  · rw [if_pos (UInt64.not_le.mp hrange)]
    exact ⟨_, rfl, iff_of_false nofun (not_covers hrange _)⟩

theorem newExact_of_addsOne (h : c.fromSequence ≤ c.toSequence → AddsOne overflowChecks (c.toSequence - c.fromSequence))
    (root previous : Digest32) : NewExact overflowChecks c root previous := by
  refine ⟨?_, fun _ => h⟩
  unfold AuditCheckpoint.new
  by_cases hempty : c.leafCount = 0 ∨ c.toSequence < c.fromSequence
  · rw [if_pos hempty]
    refine ⟨_, rfl, iff_of_false nofun fun hc => ?_⟩
    rcases hempty with hzero | hlt
    · have hone := hc.2.2
      rw [hzero, UInt64.toNat_zero] at hone
      omega
    · exact not_covers (UInt64.not_le.mpr hlt) _ hc
  · have hrange := UInt64.not_lt.mp fun hlt => hempty (.inr hlt)
    obtain ⟨covered, hsum, hexact⟩ := h hrange
    rw [if_neg hempty, hsum]
    simp only
    by_cases hcovered : covered = c.leafCount
    · rw [if_neg (not_not_intro hcovered)]
      exact ⟨_, rfl, iff_of_true rfl ((covers_iff hrange hexact).mp hcovered)⟩
    · rw [if_pos hcovered]
      exact ⟨_, rfl, iff_of_false nofun fun hc => hcovered ((covers_iff hrange hexact).mpr hc)⟩

theorem countLinks_of_addsOne {records : List HistoryRecord} (h : ∀ n ∈ compared records, AddsOne overflowChecks n)
    (linked : Nat) : countLinks overflowChecks records linked = some (exactLinks records linked) := by
  induction records generalizing linked with
  | nil => rfl
  | cons earlier rest ih =>
    cases rest with
    | nil => rfl
    | cons later rest =>
      obtain ⟨next, hsum, hexact⟩ := h earlier.sequence List.mem_cons_self
      have hnext : later.sequence = next ↔ later.sequence.toNat = earlier.sequence.toNat + 1 := by
        rw [← UInt64.toNat_inj, hexact]
      have hrest : ¬ (later.sequence = next ∧ later.previousHash ≠ earlier.recordHash) →
          ∀ n ∈ compared (later :: rest), AddsOne overflowChecks n := by
        intro hgoes n hn
        refine h n (List.mem_cons_of_mem _ ?_)
        rw [if_neg (addOne_eq hsum ▸ hgoes)]
        exact hn
      unfold countLinks exactLinks
      rw [hsum]
      simp only
      by_cases hadjacent : later.sequence = next
      · rw [if_neg (not_not_intro hadjacent), if_neg (not_not_intro (hnext.mp hadjacent))]
        by_cases hlink : later.previousHash = earlier.recordHash
        · rw [if_neg (not_not_intro hlink), if_neg (not_not_intro hlink)]
          exact ih (hrest fun hbroken => hbroken.2 hlink) _
        · rw [if_pos hlink, if_pos hlink]
      · rw [if_pos hadjacent, if_pos (fun heq => hadjacent (hnext.mpr heq))]
        exact ih (hrest fun hbroken => hadjacent hbroken.1) _

end Exact

/-- For every checkpoint and every list of records, in a build that checks its sums and in one that does not: the check
of the size, the writing of a checkpoint and the check of links compute as over the integers, and no sum panics or
wraps, exactly if the range is not the one of all sequences and no record that is compared with the next has the
last one. -/
theorem arithmetic_exact_iff (overflowChecks : Bool) (c : Checkpoint) (root previous : Digest32)
    (records : List HistoryRecord) :
    (SizeExact overflowChecks c ∧ NewExact overflowChecks c root previous ∧ LinksExact overflowChecks records) ↔
      ¬ (c.fromSequence = 0 ∧ c.toSequence = lastSequence) ∧ lastSequence ∉ compared records := by
  constructor
  · rintro ⟨hsize, -, hlinks⟩
    refine ⟨fun hall => ?_, fun hlast => addsOne_iff.mp (hlinks.2 _ hlast) rfl⟩
    have hrange : c.fromSequence ≤ c.toSequence := by
      rw [hall.1]
      exact UInt64.zero_le
    exact addsOne_iff.mp (hsize.2 hrange) ((sub_eq_lastSequence hrange).mpr hall)
  · rintro ⟨hall, hlast⟩
    have hsum : c.fromSequence ≤ c.toSequence → AddsOne overflowChecks (c.toSequence - c.fromSequence) := fun hrange =>
      addsOne_iff.mpr fun hlength => hall ((sub_eq_lastSequence hrange).mp hlength)
    have hcompared : ∀ n ∈ compared records, AddsOne overflowChecks n := fun n hn =>
      addsOne_iff.mpr fun heq => hlast (heq ▸ hn)
    exact ⟨sizeExact_of_addsOne hsum, newExact_of_addsOne hsum root previous,
      countLinks_of_addsOne hcompared 0, hcompared⟩

namespace Sample

/-- A checkpoint that claims all sequences, with the given leaf count. -/
def overAll (leafCount : UInt64) : Checkpoint := ⟨1, 0, lastSequence, leafCount, ""⟩

/-- The first record with the last sequence, and the second with sequence zero. -/
def aroundEnd : List HistoryRecord := [first lastSequence, second 0 (text one)]

end Sample

open Sample in
/-- A range of all sequences panics in both places, or passes with no leaf at all where sums are not checked;
records with the last sequence and sequence zero panic, or are counted as linked. -/
theorem arithmetic_wraps :
    verifyCheckpointSize true (overAll 0) = none ∧
      ((verifyCheckpointSize false (overAll 0)).any fun check => check.status = .passed) = true ∧
      AuditCheckpoint.new true 1 0 lastSequence 1 one two = none ∧
      verifyLinks true aroundEnd = none ∧
      countLinks false aroundEnd 0 = some (.ok 1) ∧ exactLinks aroundEnd 0 = .ok 0 := by
  refine ⟨by decide, by decide, by decide, by decide, ?_, by decide⟩
  decide +kernel

end RecordStore.Proof
