import RecordStore.Core.Values

/-!
# Audit.Event — audit events and their canonical bytes

What the hash chain commits to: every field of an event in a fixed order, every variable-length value
with its length.  Two events of ordinary size with the same canonical bytes differ at most below the
microsecond of their timestamps (`sameEvent_of_canonicalBytes`), and no encoding is the beginning of another.
-/

namespace RecordStore.Audit

open RecordStore.Lib RecordStore.Core

/-- Stable audit result category. -/
inductive AuditResult where
  | success
  | denied
  | failure
  | attempted
  deriving DecidableEq

/-- The identifier of an audit event. -/
structure AuditEventId where
  uuid : Uuid
  deriving DecidableEq

/-- A secret-free durable security event. -/
structure AuditEvent where
  eventId : AuditEventId
  timestamp : DateTime
  requestId : Option String
  principal : String
  credentialId : Option Uuid
  sourceIp : Option String
  operation : String
  resource : String
  result : AuditResult
  metadata : Table String String

/-! ## The canonical encoding -/

/-- The encoding this module produces. -/
def canonicalVersion : UInt16 := 1

/-- The stable wire discriminant of a result. -/
def AuditResult.canonicalTag : AuditResult → UInt8
  | .success => 0
  | .denied => 1
  | .failure => 2
  | .attempted => 3

/-- `u32::MAX`, at which a length saturates. -/
def maximumLength : Nat := 2 ^ 32 - 1

/-- A length as four bytes: `u32::try_from(length).unwrap_or(u32::MAX)`. -/
def putLength (length : Nat) : Bytes := beBytes 4 (min length maximumLength)

/-- A length-prefixed byte string. -/
def putBytes (value : Bytes) : Bytes := putLength value.length ++ value

/-- A length-prefixed string. -/
def putStr (value : String) : Bytes := putBytes (asBytes value)

/-- An optional string as a presence tag followed by the value. -/
def putOptionalStr (value : Option String) : Bytes := tagged putStr value

/-- One entry of the metadata. -/
def putEntry (entry : String × String) : Bytes := putStr entry.1 ++ putStr entry.2

/-- The canonical bytes of an audit event. -/
def canonicalBytes (event : AuditEvent) : Bytes :=
  beBytes 2 canonicalVersion.toNat ++ event.eventId.uuid.bytes ++
    beBytes 8 event.timestamp.timestampMicros.toUInt64.toNat ++ putOptionalStr event.requestId ++
    putStr event.principal ++ tagged Uuid.bytes event.credentialId ++ putOptionalStr event.sourceIp ++
    putStr event.operation ++ putStr event.resource ++ [event.result.canonicalTag] ++
    putLength event.metadata.toList.length ++ event.metadata.toList.flatMap putEntry

/-! ## What the encoding tells apart -/

section Injective

/-- The same event, up to the digits of its timestamp below the microsecond. -/
structure SameEvent (e e' : AuditEvent) : Prop where
  eventId : e.eventId = e'.eventId
  timestamp : e.timestamp.timestampMicros = e'.timestamp.timestampMicros
  requestId : e.requestId = e'.requestId
  principal : e.principal = e'.principal
  credentialId : e.credentialId = e'.credentialId
  sourceIp : e.sourceIp = e'.sourceIp
  operation : e.operation = e'.operation
  resource : e.resource = e'.resource
  result : e.result = e'.result
  metadata : e.metadata = e'.metadata

theorem length_putLength (n : Nat) : (putLength n).length = 4 := length_beBytes _ _

/-- Two lengths that the encoding does not take for one another. -/
def Apart (m n : Nat) : Prop := putLength m = putLength n → m = n

theorem apart_of_min {m n : Nat} (h : min m maximumLength = min n maximumLength → m = n) : Apart m n := by
  intro he
  have hvalue := congrArg beValue he
  have hmax : maximumLength < 256 ^ 4 := by decide
  unfold putLength at hvalue
  rw [beValue_beBytes (lt_of_le_of_lt (Nat.min_le_right _ _) hmax),
    beValue_beBytes (lt_of_le_of_lt (Nat.min_le_right _ _) hmax)] at hvalue
  exact h hvalue

/-- A length below the bound is told from every other one. -/
theorem apart_of_lt {m : Nat} (hm : m < maximumLength) (n : Nat) : Apart m n := apart_of_min fun h => by omega

/-- Two lengths that fit are told apart. -/
theorem apart_of_fits {m n : Nat} (hm : m < 2 ^ 32) (hn : n < 2 ^ 32) : Apart m n := by
  refine apart_of_min fun h => ?_
  unfold maximumLength at h
  omega

/-- The lengths of two texts are told apart. -/
def TextsApart (v v' : String) : Prop := Apart (asBytes v).length (asBytes v').length

theorem tells_putBytes {v v' : Bytes} (h : Apart v.length v'.length) : Tells putBytes v v' := by
  intro x y he
  unfold putBytes at he
  rw [List.append_assoc, List.append_assoc] at he
  obtain ⟨hlen, he⟩ := List.append_inj he ((length_putLength _).trans (length_putLength _).symm)
  exact List.append_inj he (h hlen)

theorem tells_putStr {v v' : String} (h : TextsApart v v') : Tells putStr v v' := by
  intro x y he
  obtain ⟨hv, hxy⟩ := tells_putBytes h x y he
  exact ⟨asBytes_inj hv, hxy⟩

theorem tells_putEntry {entry entry' : String × String}
    (h : TextsApart entry.1 entry'.1 ∧ TextsApart entry.2 entry'.2) :
    Tells putEntry entry entry' := by
  intro x y he
  unfold putEntry at he
  rw [List.append_assoc, List.append_assoc] at he
  obtain ⟨h1, he⟩ := tells_putStr h.1 _ _ he
  obtain ⟨h2, hxy⟩ := tells_putStr h.2 _ _ he
  exact ⟨Prod.ext h1 h2, hxy⟩

theorem tells_uuid (u u' : Uuid) : Tells Uuid.bytes u u' :=
  shows_of_length Uuid.length_bytes (fun _ _ h => Uuid.ext h) u u'

theorem canonicalTag_inj {r r' : AuditResult} (h : r.canonicalTag = r'.canonicalTag) : r = r' := by
  cases r <;> cases r' <;> first | rfl | exact absurd h (by decide)

theorem tells_micros (t t' : Int64) : Tells (fun t : Int64 => beBytes 8 t.toUInt64.toNat) t t' := by
  intro x y h
  obtain ⟨hbits, hxy⟩ := tells_uint64 _ _ x y h
  exact ⟨congrArg Int64.ofUInt64 hbits, hxy⟩

/-- A list after its number of items. -/
theorem shows_counted {α : Type} {enc : α → Bytes} {R : α → α → Prop} {l l' : List α}
    (hcount : Apart l.length l'.length) (h : ∀ a ∈ l, ∀ a' ∈ l', Shows enc R a a') :
    Shows (fun l => putLength l.length ++ l.flatMap enc) (List.Forall₂ R) l l' := by
  intro x y he
  simp only [List.append_assoc] at he
  obtain ⟨hlength, he⟩ := List.append_inj he ((length_putLength _).trans (length_putLength _).symm)
  exact shows_flatMap (hcount hlength) h x y he

/-- The texts of an event, each of them with its length in the encoding. -/
def AuditEvent.texts (e : AuditEvent) : List String :=
  e.requestId.toList ++ e.principal :: (e.sourceIp.toList ++ e.operation :: e.resource ::
    e.metadata.toList.flatMap fun entry => [entry.1, entry.2])

theorem AuditEvent.texts_entry {e : AuditEvent} {entry : String × String} (h : entry ∈ e.metadata.toList) :
    entry.1 ∈ e.texts ∧ entry.2 ∈ e.texts := by
  have hmem : ∀ v ∈ [entry.1, entry.2], v ∈ e.texts := fun v hv =>
    List.mem_append_right _
      (.tail _ (List.mem_append_right _ (.tail _ (.tail _ (List.mem_flatMap.mpr ⟨entry, h, hv⟩)))))
  exact ⟨hmem _ (by simp), hmem _ (by simp)⟩

/-- The canonical bytes show where they end, and determine an event, where no length is taken for another. -/
theorem sameEvent_of_append {e e' : AuditEvent} (hcount : Apart e.metadata.toList.length e'.metadata.toList.length)
    (htexts : ∀ v ∈ e.texts, ∀ v' ∈ e'.texts, TextsApart v v') {x y : Bytes}
    (h : canonicalBytes e ++ x = canonicalBytes e' ++ y) : SameEvent e e' ∧ x = y := by
  have hoption : ∀ {o o' : Option String}, o.toList ⊆ e.texts → o'.toList ⊆ e'.texts → Tells putOptionalStr o o' :=
    fun ho ho' => tells_tagged fun v hv v' hv' =>
      tells_putStr (htexts v (ho (by simpa using hv)) v' (ho' (by simpa using hv')))
  unfold canonicalBytes at h
  simp only [List.append_assoc] at h
  obtain ⟨-, h⟩ := List.append_inj h rfl
  obtain ⟨hid, h⟩ := tells_uuid _ _ _ _ h
  obtain ⟨htime, h⟩ := tells_micros _ _ _ _ h
  obtain ⟨hrequest, h⟩ := hoption (by simp [AuditEvent.texts]) (by simp [AuditEvent.texts]) _ _ h
  obtain ⟨hprincipal, h⟩ := tells_putStr (htexts _ (by simp [AuditEvent.texts]) _ (by simp [AuditEvent.texts])) _ _ h
  obtain ⟨hcredential, h⟩ := tells_tagged (fun u _ u' _ => tells_uuid u u') _ _ h
  obtain ⟨hip, h⟩ :=
    hoption (fun v hv => by simp_all [AuditEvent.texts]) (fun v hv => by simp_all [AuditEvent.texts]) _ _ h
  obtain ⟨hoperation, h⟩ := tells_putStr (htexts _ (by simp [AuditEvent.texts]) _ (by simp [AuditEvent.texts])) _ _ h
  obtain ⟨hresource, h⟩ := tells_putStr (htexts _ (by simp [AuditEvent.texts]) _ (by simp [AuditEvent.texts])) _ _ h
  obtain ⟨htag, h⟩ := List.append_inj h rfl
  have hentry : ∀ entry ∈ e.metadata.toList, ∀ entry' ∈ e'.metadata.toList, Tells putEntry entry entry' :=
    fun entry hm entry' hm' => tells_putEntry
      ⟨htexts _ (AuditEvent.texts_entry hm).1 _ (AuditEvent.texts_entry hm').1,
        htexts _ (AuditEvent.texts_entry hm).2 _ (AuditEvent.texts_entry hm').2⟩
  obtain ⟨hentries, hxy⟩ := shows_counted hcount hentry x y (by simpa only [List.append_assoc] using h)
  rw [List.forall₂_eq_eq_eq] at hentries
  have hidEq : e.eventId = e'.eventId := by
    cases hx : e.eventId
    cases hy : e'.eventId
    rw [hx, hy] at hid
    exact congrArg AuditEventId.mk hid
  exact ⟨⟨hidEq, htime, hrequest, hprincipal, hcredential, hip, hoperation, hresource,
    canonicalTag_inj (List.singleton_inj.mp htag), Std.ExtTreeMap.toList_inj.mp hentries⟩, hxy⟩

/-- Every text of the event has fewer bytes than the bound, and its metadata fewer entries. -/
structure AuditEvent.Fits (e : AuditEvent) (bound : Nat) : Prop where
  texts : ∀ v ∈ e.texts, (asBytes v).length < bound
  entries : e.metadata.toList.length < bound

theorem AuditEvent.Fits.sameEvent {e e' : AuditEvent} (he : e.Fits (2 ^ 32)) (he' : e'.Fits (2 ^ 32)) {x y : Bytes}
    (h : canonicalBytes e ++ x = canonicalBytes e' ++ y) : SameEvent e e' ∧ x = y :=
  sameEvent_of_append (apart_of_fits he.entries he'.entries)
    (fun v hv v' hv' => apart_of_fits (he.texts v hv) (he'.texts v' hv')) h

/-- The canonical bytes determine an event whose lengths are encoded exactly, whatever the size of the other. -/
theorem sameEvent_of_canonicalBytes {e e' : AuditEvent} (he : e.Fits maximumLength)
    (h : canonicalBytes e = canonicalBytes e') : SameEvent e e' :=
  (sameEvent_of_append (x := []) (y := []) (apart_of_lt he.entries _)
    (fun v hv _ _ => apart_of_lt (he.texts v hv) _) (by rw [h])).1

end Injective

end RecordStore.Audit
