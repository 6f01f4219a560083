import RecordStore.Core.Values

/-!
# Core.ObjectLock — retention periods and legal holds on immutable versions

A retention is a mode and a date; a lock state is an optional retention and a legal hold.  The file
has the decisions the store takes on them (may this version be deleted now, may this retention be
changed now) and what they mean for a compliance retention: while it runs, every accepted change
keeps the mode and does not move the date back.
-/

namespace RecordStore.Core

/-- How a retained object version may be released before its date. -/
inductive RetentionMode where
  | governance
  | compliance
  deriving DecidableEq

/-- `strength`: the modes by how hard they are to release. -/
def RetentionMode.strength : RetentionMode → Nat
  | .governance => 0
  | .compliance => 1

/-- A retention period applied to one immutable object version. -/
structure Retention where
  mode : RetentionMode
  retainUntil : DateTime
  deriving DecidableEq

/-- `is_active_at`: compared in microseconds. -/
def Retention.isActiveAt (r : Retention) (now : DateTime) : Bool :=
  now.timestampMicros < r.retainUntil.timestampMicros

/-- At least as late and at least as strong. -/
def Retention.tightens (requested current : Retention) : Prop :=
  current.retainUntil ≤ requested.retainUntil ∧ current.mode.strength ≤ requested.mode.strength

instance (requested current : Retention) : Decidable (requested.tightens current) :=
  inferInstanceAs (Decidable (_ ∧ _))

/-- The reason one version cannot currently be deleted. -/
inductive LockBlock where
  | legalHold
  | retention (mode : RetentionMode) (retainUntil : DateTime)
  deriving DecidableEq

namespace LockBlock

def label : LockBlock → String
  | .legalHold => "legal_hold"
  | .retention .governance _ => "governance_retention"
  | .retention .compliance _ => "compliance_retention"

/-- `is_bypassable`: a legal hold never is. -/
def isBypassable : LockBlock → Bool
  | .retention .governance _ => true
  | _ => false

end LockBlock

/-- Why a requested Object Lock change was refused. -/
inductive LockChangeRefused where
  | complianceRetentionIsFinal
  | governanceBypassRequired
  deriving DecidableEq

def LockChangeRefused.label : LockChangeRefused → String
  | .complianceRetentionIsFinal => "compliance_retention_is_final"
  | .governanceBypassRequired => "governance_bypass_required"

/-- Everything Object Lock holds about one immutable version. -/
structure ObjectLockState where
  retention : Option Retention
  legalHold : Bool
  deriving DecidableEq

namespace ObjectLockState

/-- The default: nothing is held. -/
def unlocked : ObjectLockState := ⟨none, false⟩

def isUnlocked (s : ObjectLockState) : Bool := s.retention.isNone && !s.legalHold

/-- `deletion_block_at`: the hold is reported before the retention. -/
def deletionBlockAt (s : ObjectLockState) (now : DateTime) : Option LockBlock :=
  if s.legalHold then some .legalHold
  else match s.retention with
    | some r => if r.isActiveAt now then some (.retention r.mode r.retainUntil) else none
    | none => none

/-- `with_retention`: tightening is free, anything else costs what the mode in force says. -/
def withRetention (s : ObjectLockState) (requested : Option Retention) (now : DateTime)
    (governanceBypass : Bool) : Except LockChangeRefused ObjectLockState :=
  match s.retention.filter fun current => current.isActiveAt now with
  | none => .ok { s with retention := requested }
  | some current =>
    if requested.any fun requested => requested.tightens current then
      .ok { s with retention := requested }
    else match current.mode with
      | .compliance => .error .complianceRetentionIsFinal
      | .governance =>
        if governanceBypass then .ok { s with retention := requested }
        else .error .governanceBypassRequired

def withLegalHold (s : ObjectLockState) (legalHold : Bool) : ObjectLockState :=
  { s with legalHold := legalHold }

/-- `change_only_tightens`: whether a requested change only ever adds protection. -/
def changeOnlyTightens (s requested : ObjectLockState) : Bool :=
  (match s.retention, requested.retention with
    | r, none => r.isNone
    | none, some _ => true
    | some current, some requested => requested.tightens current) &&
    (!s.legalHold || requested.legalHold)

theorem deletionBlockAt_of_legalHold {s : ObjectLockState} (h : s.legalHold = true) (now : DateTime) :
    s.deletionBlockAt now = some .legalHold := by
  unfold deletionBlockAt
  rw [if_pos h]

/-- A running compliance retention blocks deletion, and no bypass applies to the block. -/
theorem deletionBlockAt_of_compliance {s : ObjectLockState} {r : Retention} {now : DateTime}
    (hr : s.retention = some r) (hm : r.mode = .compliance) (ha : r.isActiveAt now = true) :
    ∃ b, s.deletionBlockAt now = some b ∧ b.isBypassable = false := by
  unfold deletionBlockAt
  rw [hr]
  by_cases hl : s.legalHold = true
  · rw [if_pos hl]
    exact ⟨_, rfl, rfl⟩
  · rw [if_neg hl]
    simp only [ha, if_true, hm]
    exact ⟨_, rfl, rfl⟩

theorem isUnlocked_of_legalHold {s : ObjectLockState} (h : s.legalHold = true) : s.isUnlocked = false := by
  simp [isUnlocked, h]

theorem isUnlocked_of_retention {s : ObjectLockState} {r : Retention} (h : s.retention = some r) :
    s.isUnlocked = false := by
  simp [isUnlocked, h]

/-- What `withRetention` accepts is the state with the retention replaced. -/
theorem withRetention_ok {s s' : ObjectLockState} {requested : Option Retention} {now : DateTime}
    {bypass : Bool} (h : s.withRetention requested now bypass = .ok s') :
    s' = { s with retention := requested } := by
  unfold withRetention at h
  split at h
  · exact (Except.ok.inj h).symm
  · split at h
    · exact (Except.ok.inj h).symm
    · split at h
      · exact absurd h (by simp)
      · split at h
        · exact (Except.ok.inj h).symm
        · exact absurd h (by simp)

/-- While a compliance retention runs, an accepted change keeps the mode and the date or a later
one, whatever bypass the caller presents. -/
theorem withRetention_compliance {s s' : ObjectLockState} {r : Retention} {requested : Option Retention}
    {now : DateTime} {bypass : Bool} (hr : s.retention = some r) (hm : r.mode = .compliance)
    (ha : r.isActiveAt now = true) (h : s.withRetention requested now bypass = .ok s') :
    ∃ r', s'.retention = some r' ∧ r'.mode = .compliance ∧ r.retainUntil ≤ r'.retainUntil := by
  have hs' := withRetention_ok h
  unfold withRetention at h
  rw [hr, Option.filter_some, if_pos ha] at h
  simp only [hm] at h
  split_ifs at h with ht
  obtain ⟨r', hreq, htight⟩ : ∃ r', requested = some r' ∧ r'.tightens r := by
    cases requested with
    | none => exact absurd ht (by simp)
    | some r' => exact ⟨r', rfl, by simpa using ht⟩
  refine ⟨r', by rw [hs', hreq], ?_, htight.1⟩
  have hst := htight.2
  rw [hm] at hst
  cases hmode : r'.mode with
  | governance => rw [hmode] at hst; exact absurd hst (by decide)
  | compliance => rfl

end ObjectLockState

/-! ## Bucket configuration -/

/-- A bucket default retention period, in whole days or whole years. -/
inductive RetentionPeriod where
  | days (value : UInt16)
  | years (value : UInt16)
  deriving DecidableEq

/-- `validate`: re-validates a period that arrived through deserialization. -/
def RetentionPeriod.validate : RetentionPeriod → Except CoreError RetentionPeriod
  | .days value =>
    if 1 ≤ value ∧ value ≤ 36500 then .ok (.days value)
    else .error (.invalidObjectLock "retention days must be between 1 and 36500")
  | .years value =>
    if 1 ≤ value ∧ value ≤ 100 then .ok (.years value)
    else .error (.invalidObjectLock "retention years must be between 1 and 100")

/-- A bucket's default Object Lock rule. -/
structure DefaultRetention where
  mode : RetentionMode
  period : RetentionPeriod
  deriving DecidableEq

def DefaultRetention.validate (d : DefaultRetention) : Except CoreError DefaultRetention := do
  return { mode := d.mode, period := ← d.period.validate }

/-- A bucket's Object Lock configuration.  Its presence on a bucket is what "enabled" means. -/
structure ObjectLockConfiguration where
  defaultRetention : Option DefaultRetention
  deriving DecidableEq

def ObjectLockConfiguration.validate (c : ObjectLockConfiguration) :
    Except CoreError ObjectLockConfiguration :=
  match c.defaultRetention with
  | none => .ok { defaultRetention := none }
  | some d => do return { defaultRetention := some (← d.validate) }

end RecordStore.Core
