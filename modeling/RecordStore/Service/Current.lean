import RecordStore.Core.Values

/-!
# Service.Current — reading the current version of a key

Every read of the object service looks the current version up anew.  A history is what the key holds from one change
to the next; a request that reads more than once reads it at several moments.
-/

namespace RecordStore.Service

open RecordStore.Lib RecordStore.Core

structure StoredVersion where
  versionId : VersionId
  etag : ETag
  contentType : Option String
  content : Bytes
  fits : content.length < 2 ^ 64

def StoredVersion.size (v : StoredVersion) : UInt64 := .ofNat v.content.length

theorem StoredVersion.size_toNat (v : StoredVersion) : v.size.toNat = v.content.length := by
  rw [size, UInt64.toNat_ofNat']
  exact Nat.mod_eq_of_lt v.fits

/-- What the key holds at each moment; a deleted key holds nothing.  Version identifiers are not used twice. -/
structure History where
  current : Nat → Option StoredVersion
  unique : ∀ {i j : Nat} {v w : StoredVersion}, current i = some v → current j = some w →
    v.versionId = w.versionId → v = w

/-- `bytes=first-last`, `bytes=first-` and `bytes=-length`. -/
inductive RangeHeader where
  | span (first last : Nat)
  | onward (first : Nat)
  | suffix (length : Nat)
  deriving DecidableEq

/-- `Content-Range`. -/
structure ContentRange where
  first : Nat
  last : Nat
  size : Nat
  deriving DecidableEq

inductive GetError where
  | objectNotFound
  | storage (error : CoreError)

/-- `ServiceGetResult`. -/
structure GetResult where
  metadata : StoredVersion
  range : Option ResolvedByteRange
  body : Bytes

/-- `get` at a moment: the range is resolved against the size of the version it finds. -/
def History.get (h : History) (moment : Nat) (range : Option ByteRange) : Except GetError GetResult :=
  match h.current moment with
  | none => .error .objectNotFound
  | some v =>
    match range with
    | none => .ok ⟨v, none, v.content⟩
    | some range =>
      match range.resolve v.size with
      | .error e => .error (.storage e)
      | .ok resolved => .ok ⟨v, some resolved, (v.content.drop resolved.offset.toNat).take resolved.length.toNat⟩

theorem bind_eq_ok {ε α β : Type} {x : Except ε α} {f : α → Except ε β} {b : β} (h : x.bind f = .ok b) :
    ∃ a, x = .ok a ∧ f a = .ok b := by
  cases x with
  | error e => cases h
  | ok a => exact ⟨a, rfl, h⟩

def byteRange (offset length : UInt64) : Option ByteRange :=
  if h : length ≠ 0 ∧ offset.toNat + length.toNat < 2 ^ 64 then some ⟨offset, length, h.1, h.2⟩ else none

theorem byteRange_eq_some {offset length : UInt64} {r : ByteRange} (h : byteRange offset length = some r) :
    r.offset = offset ∧ r.length = length := by
  unfold byteRange at h
  split_ifs at h
  obtain rfl := Option.some.inj h
  exact ⟨rfl, rfl⟩

theorem toNat_min (a b : UInt64) : (min a b).toNat = min a.toNat b.toNat := by
  rw [UInt64.min_def, Nat.min_def]
  simp only [UInt64.le_iff_toNat_le]
  split_ifs <;> rfl

/-- A range is clipped to the size, unless it starts at or beyond it. -/
theorem resolve_cases (r : ByteRange) (size : UInt64) :
    (size.toNat ≤ r.offset.toNat ∧ ∃ e, r.resolve size = .error e) ∨
    ∃ resolved, r.offset.toNat < size.toNat ∧ r.resolve size = .ok resolved ∧ resolved.offset.toNat = r.offset.toNat ∧
      resolved.length.toNat = min r.length.toNat (size.toNat - r.offset.toNat) := by
  unfold ByteRange.resolve
  split_ifs with hpast
  · exact .inl ⟨UInt64.le_iff_toNat_le.mp hpast, _, rfl⟩
  · rw [UInt64.not_le, UInt64.lt_iff_toNat_lt] at hpast
    refine .inr ⟨_, hpast, rfl, rfl, ?_⟩
    rw [toNat_min, UInt64.toNat_sub_of_le _ _ (UInt64.le_iff_toNat_le.mpr (Nat.le_of_lt hpast))]

namespace Sample

def tag : ETag := ⟨"9f", by decide⟩

/-- A version at moment 0, and another from then on. -/
def overwritten (v w : StoredVersion) (h : v.versionId ≠ w.versionId) : History where
  current moment := if moment = 0 then some v else some w
  unique := by
    intro i j a b ha hb hid
    split_ifs at ha hb
    all_goals
      obtain rfl := Option.some.inj ha
      obtain rfl := Option.some.inj hb
    · rfl
    · exact absurd hid h
    · exact absurd hid.symm h
    · rfl

end Sample

end RecordStore.Service
