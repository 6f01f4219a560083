import RecordStore.Metadata.Runs

/-!
# Metadata.Snapshot — the catalog as a list of entries

A member that is far behind receives the catalog instead of the log.  The export walks the tables and
copies every row as raw bytes; the import clears every table and writes the rows back.  Both work on the
tables as they are stored, so those come first: rows are encoded records, and six tables have keys or
values of another form.
-/

namespace RecordStore.Metadata

open RecordStore.Lib RecordStore.Core Tx

/-! ## The stored tables -/

/-- The tables whose keys and values are both byte strings, in the order of `BYTE_TABLES`. -/
inductive ByteTable where
  | buckets
  | objects
  | markers
  | versions
  | versionOrder
  | nullVersions
  | multipart
  | multipartOrder
  | parts
  | bucketUsage
  | lifecycleRules
  | objectLocks
  deriving DecidableEq

namespace ByteTable

def all : List ByteTable :=
  [buckets, objects, markers, versions, versionOrder, nullVersions, multipart, multipartOrder, parts, bucketUsage,
    lifecycleRules, objectLocks]

def name : ByteTable → String
  | buckets => "buckets.v1"
  | objects => "objects.v1"
  | markers => "delete_markers.v1"
  | versions => "versions.v1"
  | versionOrder => "version_order.v1"
  | nullVersions => "null_versions.v1"
  | multipart => "multipart.v1"
  | multipartOrder => "multipart_order.v1"
  | parts => "multipart_parts.v1"
  | bucketUsage => "bucket_usage.v1"
  | lifecycleRules => "lifecycle_rules.v1"
  | objectLocks => "object_locks.v1"

/-- The lookup in the map from names to byte tables. -/
def ofName? (name : String) : Option ByteTable := all.find? fun t => t.name = name

end ByteTable

def bucketNamesTable : String := "bucket_names.v1"
def cleanupTable : String := "payload_cleanup.v1"
def mutationEventsTable : String := "mutation_events.v1"
def clockTable : String := "clock.v1"
def countersTable : String := "counters.v1"
def schemaTable : String := "schema.v1"

/-- The tables of the database file. -/
structure Stored where
  byte : ByteTable → Table Bytes Bytes
  bucketNames : Table String Bytes
  cleanup : Table Bytes UInt8
  mutationEvents : Table UInt64 Bytes
  clock : Table String Int64
  counters : Table String UInt64
  schema : Table String UInt64

/-- All tables without rows. -/
def Stored.cleared : Stored := ⟨fun _ => ∅, ∅, ∅, ∅, ∅, ∅, ∅⟩

/-! ## Export and import -/

/-- One raw key and value of a table. -/
structure MetadataEntry where
  table : String
  key : Bytes
  value : Bytes
  deriving DecidableEq

def u64Bytes (n : UInt64) : Bytes := beBytes 8 n.toNat

/-- `u64::from_be_bytes`, of exactly eight bytes. -/
def u64OfBytes (b : Bytes) : Option UInt64 := if b.length = 8 then some (UInt64.ofNat (beValue b)) else none

namespace MetadataEntry

def ofByte (t : ByteTable) (r : Bytes × Bytes) : MetadataEntry := ⟨t.name, r.1, r.2⟩
def ofBucketName (r : String × Bytes) : MetadataEntry := ⟨bucketNamesTable, asBytes r.1, r.2⟩
def ofCleanup (r : Bytes × UInt8) : MetadataEntry := ⟨cleanupTable, r.1, [r.2]⟩
def ofMutationEvent (r : UInt64 × Bytes) : MetadataEntry := ⟨mutationEventsTable, u64Bytes r.1, r.2⟩
def ofClock (r : String × Int64) : MetadataEntry := ⟨clockTable, asBytes r.1, u64Bytes r.2.toUInt64⟩
def ofCounter (r : String × UInt64) : MetadataEntry := ⟨countersTable, asBytes r.1, u64Bytes r.2⟩
def ofSchema (r : String × UInt64) : MetadataEntry := ⟨schemaTable, asBytes r.1, u64Bytes r.2⟩

end MetadataEntry

/-- Exports the whole object catalog for a consensus snapshot. -/
def exportTx (s : Stored) : List MetadataEntry :=
  (ByteTable.all.flatMap fun t => (s.byte t).toList.map (.ofByte t)) ++ s.bucketNames.toList.map .ofBucketName ++
    s.cleanup.toList.map .ofCleanup ++ s.mutationEvents.toList.map .ofMutationEvent ++ s.clock.toList.map .ofClock ++
    s.counters.toList.map .ofCounter ++ s.schema.toList.map .ofSchema

/-- Writes one entry back, by the name of its table. -/
def restore (entry : MetadataEntry) : Tx Stored MetadataError Unit :=
  match ByteTable.ofName? entry.table with
  | some t => modify fun s => { s with byte := Function.update s.byte t ((s.byte t).insert entry.key entry.value) }
  | none =>
    if entry.table = bucketNamesTable then do
      let name ← Tx.okOr (fromUtf8 entry.key) (.database "restore bucket name" "bucket name key is not valid UTF-8")
      modify fun s => { s with bucketNames := s.bucketNames.insert name entry.value }
    else if entry.table = cleanupTable then
      match entry.value with
      | [flag] => modify fun s => { s with cleanup := s.cleanup.insert entry.key flag }
      | _ => throw (.database "restore cleanup record" "cleanup value must be one byte")
    else if entry.table = mutationEventsTable then do
      let sequence ← Tx.okOr (u64OfBytes entry.key)
        (.database "restore mutation event" "mutation event sequence must be eight bytes")
      modify fun s => { s with mutationEvents := s.mutationEvents.insert sequence entry.value }
    else if entry.table = clockTable then do
      let name ← Tx.okOr (fromUtf8 entry.key) (.database "restore clock" "clock key is not valid UTF-8")
      let value ← Tx.okOr (u64OfBytes entry.value) (.database "restore clock" "clock value must be eight bytes")
      modify fun s => { s with clock := s.clock.insert name value.toInt64 }
    else if entry.table = countersTable ∨ entry.table = schemaTable then do
      let name ← Tx.okOr (fromUtf8 entry.key) (.database "restore counter" "counter key is not valid UTF-8")
      let value ← Tx.okOr (u64OfBytes entry.value) (.database "restore counter" "counter value must be eight bytes")
      if entry.table = countersTable then modify fun s => { s with counters := s.counters.insert name value }
      else modify fun s => { s with schema := s.schema.insert name value }
    else throw (.database "restore snapshot" ("snapshot references unknown table '" ++ entry.table ++ "'"))

/-- Replaces the whole object catalog from a consensus snapshot. -/
def importTx (entries : List MetadataEntry) : Tx Stored MetadataError Unit := do
  modify fun _ => Stored.cleared
  entries.forM restore

/-! ## Every table is restored -/

section Restore

variable {s : Stored}

def byteField (t : ByteTable) : Field Stored (Table Bytes Bytes) where
  get s := s.byte t
  set rows s := { s with byte := Function.update s.byte t rows }
  get_set rows s := by simp
  set_set rows rows' s := by simp
  set_get s := by simp

def bucketNamesField : Field Stored (Table String Bytes) :=
  ⟨(·.bucketNames), fun rows s => { s with bucketNames := rows }, fun _ _ => rfl, fun _ _ _ => rfl, fun _ => rfl⟩

def cleanupField : Field Stored (Table Bytes UInt8) :=
  ⟨(·.cleanup), fun rows s => { s with cleanup := rows }, fun _ _ => rfl, fun _ _ _ => rfl, fun _ => rfl⟩

def mutationEventsField : Field Stored (Table UInt64 Bytes) :=
  ⟨(·.mutationEvents), fun rows s => { s with mutationEvents := rows }, fun _ _ => rfl, fun _ _ _ => rfl, fun _ => rfl⟩

def clockField : Field Stored (Table String Int64) :=
  ⟨(·.clock), fun rows s => { s with clock := rows }, fun _ _ => rfl, fun _ _ _ => rfl, fun _ => rfl⟩

def countersField : Field Stored (Table String UInt64) :=
  ⟨(·.counters), fun rows s => { s with counters := rows }, fun _ _ => rfl, fun _ _ _ => rfl, fun _ => rfl⟩

def schemaField : Field Stored (Table String UInt64) :=
  ⟨(·.schema), fun rows s => { s with schema := rows }, fun _ _ => rfl, fun _ _ _ => rfl, fun _ => rfl⟩

theorem u64OfBytes_u64Bytes (n : UInt64) : u64OfBytes (u64Bytes n) = some n := by
  unfold u64OfBytes u64Bytes
  have hlt : n.toNat < 256 ^ 8 := by
    have := n.toNat_lt
    norm_num
    omega
  rw [if_pos (length_beBytes _ _), beValue_beBytes hlt, UInt64.ofNat_toNat]

theorem restore_ofByte (t : ByteTable) (r : Bytes × Bytes) (s : Stored) :
    Returns (restore (.ofByte t r)) s .unit ((byteField t).set (((byteField t).get s).insert r.1 r.2) s) := by
  have hname : ByteTable.ofName? t.name = some t := by cases t <;> decide
  simp only [restore, MetadataEntry.ofByte, hname]
  exact returns_modify.mpr rfl

theorem restore_ofBucketName (r : String × Bytes) (s : Stored) :
    Returns (restore (.ofBucketName r)) s .unit { s with bucketNames := s.bucketNames.insert r.1 r.2 } := by
  have hname : ByteTable.ofName? bucketNamesTable = none := by decide
  simp only [restore, MetadataEntry.ofBucketName, hname, if_true, fromUtf8_asBytes, okOr_some_bind]
  exact returns_modify.mpr rfl

theorem restore_ofCleanup (r : Bytes × UInt8) (s : Stored) :
    Returns (restore (.ofCleanup r)) s .unit { s with cleanup := s.cleanup.insert r.1 r.2 } := by
  have hname : ByteTable.ofName? cleanupTable = none := by decide
  simp (disch := decide) only [restore, MetadataEntry.ofCleanup, hname, if_neg, if_true]
  exact returns_modify.mpr rfl

theorem restore_ofMutationEvent (r : UInt64 × Bytes) (s : Stored) :
    Returns (restore (.ofMutationEvent r)) s .unit { s with mutationEvents := s.mutationEvents.insert r.1 r.2 } := by
  have hname : ByteTable.ofName? mutationEventsTable = none := by decide
  simp (disch := decide) only [restore, MetadataEntry.ofMutationEvent, hname, if_neg, if_true, u64OfBytes_u64Bytes,
    okOr_some_bind]
  exact returns_modify.mpr rfl

theorem restore_ofClock (r : String × Int64) (s : Stored) :
    Returns (restore (.ofClock r)) s .unit { s with clock := s.clock.insert r.1 r.2 } := by
  have hname : ByteTable.ofName? clockTable = none := by decide
  simp (disch := decide) only [restore, MetadataEntry.ofClock, hname, if_neg, if_true, fromUtf8_asBytes,
    u64OfBytes_u64Bytes, okOr_some_bind, Int64.toInt64_toUInt64]
  exact returns_modify.mpr rfl

theorem restore_ofCounter (r : String × UInt64) (s : Stored) :
    Returns (restore (.ofCounter r)) s .unit { s with counters := s.counters.insert r.1 r.2 } := by
  have hname : ByteTable.ofName? countersTable = none := by decide
  simp (disch := decide) only [restore, MetadataEntry.ofCounter, hname, if_neg, true_or, if_true, fromUtf8_asBytes,
    u64OfBytes_u64Bytes, okOr_some_bind]
  exact returns_modify.mpr rfl

theorem restore_ofSchema (r : String × UInt64) (s : Stored) :
    Returns (restore (.ofSchema r)) s .unit { s with schema := s.schema.insert r.1 r.2 } := by
  have hname : ByteTable.ofName? schemaTable = none := by decide
  simp (disch := decide) only [restore, MetadataEntry.ofSchema, hname, if_neg, or_true, if_true, fromUtf8_asBytes,
    u64OfBytes_u64Bytes, okOr_some_bind]
  exact returns_modify.mpr rfl

/-- Writing back the rows of a table into one that was cleared. -/
theorem restore_rows {K V : Type} [Ord K] [Std.TransOrd K] [Std.LawfulEqOrd K] [DecidableEq K]
    (field : Field Stored (Table K V)) {entry : K × V → MetadataEntry}
    (hturn : ∀ r s, Returns (restore (entry r)) s .unit (field.set ((field.get s).insert r.1 r.2) s)) (rows : Table K V)
    (hs : field.get s = ∅) : Returns ((rows.toList.map entry).forM restore) s .unit (field.set rows s) := by
  have h := returns_forM_map hturn rows.toList s
  have hfold := field.foldl (fun (t : Table K V) (r : K × V) => t.insert r.1 r.2) rows.toList s
  rw [hfold, hs, Table.foldl_insert_toList] at h
  exact h

/-- The byte tables, one after the other. -/
theorem restore_byteTables (source : Stored) {ts : List ByteTable} (hnodup : ts.Nodup) (hs : ∀ t ∈ ts, s.byte t = ∅) :
    Returns ((ts.flatMap fun t => (source.byte t).toList.map (.ofByte t)).forM restore) s .unit
      { s with byte := fun t => if t ∈ ts then source.byte t else s.byte t } := by
  induction ts generalizing s with
  | nil => exact returns_forM_nil.mpr (by simp)
  | cons t ts ih =>
    obtain ⟨hnot, hnodup⟩ := List.nodup_cons.mp hnodup
    have hfirst := restore_rows (byteField t) (restore_ofByte t) (source.byte t) (hs t List.mem_cons_self)
    have hrest := ih (s := (byteField t).set (source.byte t) s) hnodup fun t' ht' => by
      have hne : t' ≠ t := fun heq => hnot (heq ▸ ht')
      simpa [byteField, Function.update_of_ne hne] using hs t' (List.mem_cons_of_mem _ ht')
    rw [List.flatMap_cons]
    have hboth := returns_forM_append hfirst hrest
    have hstate : (fun t' => if t' ∈ ts then source.byte t' else ((byteField t).set (source.byte t) s).byte t') =
        fun t' => if t' ∈ t :: ts then source.byte t' else s.byte t' := by
      funext t'
      by_cases heq : t' = t
      · subst heq
        simp [byteField, hnot]
      · simp [byteField, heq]
    rw [hstate] at hboth
    exact hboth

/-- What was exported is what the import leaves, whatever was there. -/
theorem importTx_exportTx (source target : Stored) : Returns (importTx (exportTx source)) target () source := by
  refine returns_bind.mpr ⟨.unit, Stored.cleared, returns_modify.mpr rfl, ?_⟩
  have hnodup : ByteTable.all.Nodup := by decide
  have hbyte := restore_byteTables source hnodup fun t _ => (rfl : Stored.cleared.byte t = ∅)
  have hall : (fun t => if t ∈ ByteTable.all then source.byte t else Stored.cleared.byte t) = source.byte := by
    funext t
    rw [if_pos (by cases t <;> decide)]
  rw [hall] at hbyte
  have hnames := returns_forM_append hbyte (restore_rows bucketNamesField restore_ofBucketName source.bucketNames rfl)
  have hcleanup := returns_forM_append hnames (restore_rows cleanupField restore_ofCleanup source.cleanup rfl)
  have hevents := returns_forM_append hcleanup
    (restore_rows mutationEventsField restore_ofMutationEvent source.mutationEvents rfl)
  have hclock := returns_forM_append hevents (restore_rows clockField restore_ofClock source.clock rfl)
  have hcounters := returns_forM_append hclock (restore_rows countersField restore_ofCounter source.counters rfl)
  have hschema := returns_forM_append hcounters (restore_rows schemaField restore_ofSchema source.schema rfl)
  unfold exportTx
  exact hschema

end Restore

/-! ## Records -/

/-- How records of one kind are written as bytes and read back. -/
structure RowCodec (V : Type) where
  encode : V → Bytes
  decode : Bytes → Option V

namespace RowCodec

variable {K V : Type} [Ord K] [Std.TransOrd K]

def encodeRows (c : RowCodec V) (t : Table K V) : Table K Bytes := t.map fun _ v => c.encode v

/-- Reads every row, or fails at one that does not decode. -/
def decodeRows (c : RowCodec V) (t : Table K Bytes) : Option (Table K V) :=
  t.toList.foldlM (fun acc r => (c.decode r.2).map fun v => acc.insert r.1 v) ∅

/-- The rows of the table are read as they were written. -/
def Reads (c : RowCodec V) (t : Table K V) : Prop := ∀ v ∈ t.rows, c.decode (c.encode v) = some v

instance [DecidableEq V] (c : RowCodec V) (t : Table K V) : Decidable (c.Reads t) :=
  inferInstanceAs (Decidable (∀ v ∈ t.rows, c.decode (c.encode v) = some v))

theorem decodeRows_encodeRows [Std.LawfulEqOrd K] [DecidableEq K] {c : RowCodec V} {t : Table K V}
    (h : c.Reads t) : c.decodeRows (c.encodeRows t) = some t := by
  have hfold : ∀ (rows : List (K × V)) (acc : Table K V), (∀ r ∈ rows, c.decode (c.encode r.2) = some r.2) →
      (rows.map fun r => (r.1, c.encode r.2)).foldlM (fun acc r => (c.decode r.2).map fun v => acc.insert r.1 v) acc =
        some (rows.foldl (fun acc r => acc.insert r.1 r.2) acc) := by
    intro rows
    induction rows with
    | nil =>
      intro acc _
      rfl
    | cons r rows ih =>
      intro acc hrows
      rw [List.map_cons, List.foldlM_cons, hrows r List.mem_cons_self]
      exact ih _ fun r' hr' => hrows r' (List.mem_cons_of_mem _ hr')
  unfold decodeRows encodeRows
  rw [Std.ExtTreeMap.toList_map, hfold t.toList ∅ fun r hr => h r.2 (List.mem_map_of_mem hr), Table.foldl_insert_toList]

end RowCodec

/-- The codecs of the ten kinds of records. -/
structure Codecs where
  bucket : RowCodec Bucket
  object : RowCodec ObjectMetadata
  marker : RowCodec DeleteMarker
  version : RowCodec ObjectVersionRecord
  upload : RowCodec MultipartUpload
  part : RowCodec UploadedPart
  usage : RowCodec BucketUsage
  rule : RowCodec LifecycleRule
  lock : RowCodec ObjectLockState
  event : RowCodec MutationEvent

/-- A catalog as it is stored. -/
def Stored.of (codecs : Codecs) (s : Catalog) : Stored where
  byte
    | .buckets => codecs.bucket.encodeRows s.buckets
    | .objects => codecs.object.encodeRows s.objects
    | .markers => codecs.marker.encodeRows s.markers
    | .versions => codecs.version.encodeRows s.versions
    | .versionOrder => s.versionOrder
    | .nullVersions => s.nullVersions
    | .multipart => codecs.upload.encodeRows s.multipart
    | .multipartOrder => s.multipartOrder
    | .parts => codecs.part.encodeRows s.parts
    | .bucketUsage => codecs.usage.encodeRows s.bucketUsage
    | .lifecycleRules => codecs.rule.encodeRows s.lifecycleRules
    | .objectLocks => codecs.lock.encodeRows s.objectLocks
  bucketNames := codecs.bucket.encodeRows s.bucketNames
  cleanup := s.cleanup
  mutationEvents := codecs.event.encodeRows s.mutationEvents
  clock := s.clock
  counters := s.counters
  schema := s.schema

/-- The catalog that stored tables hold. -/
def Stored.load (codecs : Codecs) (s : Stored) : Option Catalog := do
  return {
    buckets := ← codecs.bucket.decodeRows (s.byte .buckets)
    bucketNames := ← codecs.bucket.decodeRows s.bucketNames
    objects := ← codecs.object.decodeRows (s.byte .objects)
    markers := ← codecs.marker.decodeRows (s.byte .markers)
    versions := ← codecs.version.decodeRows (s.byte .versions)
    versionOrder := s.byte .versionOrder
    nullVersions := s.byte .nullVersions
    multipart := ← codecs.upload.decodeRows (s.byte .multipart)
    multipartOrder := s.byte .multipartOrder
    parts := ← codecs.part.decodeRows (s.byte .parts)
    cleanup := s.cleanup
    bucketUsage := ← codecs.usage.decodeRows (s.byte .bucketUsage)
    lifecycleRules := ← codecs.rule.decodeRows (s.byte .lifecycleRules)
    objectLocks := ← codecs.lock.decodeRows (s.byte .objectLocks)
    mutationEvents := ← codecs.event.decodeRows s.mutationEvents
    counters := s.counters
    clock := s.clock
    schema := s.schema }

/-- The records of a catalog are read as they were written. -/
structure Codecs.Reads (codecs : Codecs) (s : Catalog) : Prop where
  buckets : codecs.bucket.Reads s.buckets
  bucketNames : codecs.bucket.Reads s.bucketNames
  objects : codecs.object.Reads s.objects
  markers : codecs.marker.Reads s.markers
  versions : codecs.version.Reads s.versions
  multipart : codecs.upload.Reads s.multipart
  parts : codecs.part.Reads s.parts
  bucketUsage : codecs.usage.Reads s.bucketUsage
  lifecycleRules : codecs.rule.Reads s.lifecycleRules
  objectLocks : codecs.lock.Reads s.objectLocks
  mutationEvents : codecs.event.Reads s.mutationEvents

theorem Stored.load_of {codecs : Codecs} {s : Catalog} (h : codecs.Reads s) :
    (Stored.of codecs s).load codecs = some s := by
  simp only [Stored.load, Stored.of, RowCodec.decodeRows_encodeRows h.buckets,
    RowCodec.decodeRows_encodeRows h.bucketNames, RowCodec.decodeRows_encodeRows h.objects,
    RowCodec.decodeRows_encodeRows h.markers, RowCodec.decodeRows_encodeRows h.versions,
    RowCodec.decodeRows_encodeRows h.multipart, RowCodec.decodeRows_encodeRows h.parts,
    RowCodec.decodeRows_encodeRows h.bucketUsage, RowCodec.decodeRows_encodeRows h.lifecycleRules,
    RowCodec.decodeRows_encodeRows h.objectLocks, RowCodec.decodeRows_encodeRows h.mutationEvents]
  rfl

/-! ## A snapshot instead of the log -/

/-- Applies commands in turn: what each is answered, and the catalog they leave. -/
def replay (env : Env) : List MetadataCommand → Catalog → List (Except Failure MetadataOutcome) × Catalog
  | [], s => ([], s)
  | c :: cs, s =>
    let (answer, s') := commit (applyCommandTx env c) s
    (answer :: (replay env cs s').1, (replay env cs s').2)

theorem replay_append (env : Env) (before after : List MetadataCommand) (s : Catalog) :
    replay env (before ++ after) s =
      ((replay env before s).1 ++ (replay env after (replay env before s).2).1,
        (replay env after (replay env before s).2).2) := by
  induction before generalizing s with
  | nil => rfl
  | cons c cs ih =>
    simp only [List.cons_append, replay]
    rw [ih]

theorem replay_length (env : Env) (cmds : List MetadataCommand) (s : Catalog) :
    (replay env cmds s).1.length = cmds.length := by
  induction cmds generalizing s with
  | nil => rfl
  | cons c cs ih => simp only [replay, List.length_cons, ih]

theorem replay_state (env : Env) (cmds : List MetadataCommand) (s : Catalog) :
    (replay env cmds s).2 = cmds.foldl (step env) s := by
  induction cmds generalizing s with
  | nil => rfl
  | cons c cs ih => exact ih _

/-- Installing a snapshot succeeds on any tables and leaves the exported ones; and a member that installed
the snapshot of the state after a part of the log goes on with the rest as one that replayed all of it. -/
theorem snapshot_equals_replay (codecs : Codecs) (env : Env) (before after : List MetadataCommand)
    (hread : codecs.Reads (run env before)) (target : Stored) :
    commit (importTx (exportTx (Stored.of codecs (run env before)))) target =
        (.ok (), Stored.of codecs (run env before)) ∧
      ((commit (importTx (exportTx (Stored.of codecs (run env before)))) target).2.load codecs).map (replay env after) =
        some ((replay env (before ++ after) .empty).1.drop before.length, (replay env (before ++ after) .empty).2) := by
  have hinstall := commit_of_returns (importTx_exportTx (Stored.of codecs (run env before)) target)
  refine ⟨hinstall, ?_⟩
  have hrun : (replay env before .empty).2 = run env before := replay_state env before .empty
  have hlength := replay_length env before .empty
  rw [hinstall, Stored.load_of hread, Option.map_some, replay_append, hrun, ← hlength, List.drop_left]

namespace Sample

/-- A codec that writes a record as its place in a list. -/
def listed {V : Type} [DecidableEq V] (records : List V) : RowCodec V where
  encode v := [UInt8.ofNat (records.idxOf v)]
  decode b := b.head?.bind fun n => records[n.toNat]?

/-- Codecs for the records of a catalog. -/
def codecs (s : Catalog) : Codecs where
  bucket := listed s.buckets.rows
  object := listed s.objects.rows
  marker := listed s.markers.rows
  version := listed s.versions.rows
  upload := listed s.multipart.rows
  part := listed s.parts.rows
  usage := listed s.bucketUsage.rows
  rule := listed s.lifecycleRules.rows
  lock := listed s.objectLocks.rows
  event := listed s.mutationEvents.rows

/-- The stored tables after commands. -/
def stored (cmds : List MetadataCommand) : Stored := .of (codecs (run env retained)) (run env cmds)

end Sample

open Sample in
/-- A version under retention replaces the rows of another catalog, and its deletion is answered as it would have
been. -/
theorem snapshot_equals_replay_retained :
    (run env retained).objectLocks.rows.length = 1 ∧ (stored overwrite).byte .versions ≠ ∅ ∧
    commit (importTx (exportTx (stored retained))) (stored overwrite) = (.ok (), stored retained) ∧
    ((commit (importTx (exportTx (stored retained))) (stored overwrite)).2.load (codecs (run env retained))).map
        (replay env [deleteRetained]) =
      some ((replay env (retained ++ [deleteRetained]) .empty).1.drop 2,
        (replay env (retained ++ [deleteRetained]) .empty).2) := by
  have hread : (codecs (run env retained)).Reads (run env retained) := by
    constructor <;> decide +kernel
  obtain ⟨hinstall, hreplay⟩ := snapshot_equals_replay _ env retained [deleteRetained] hread (stored overwrite)
  exact ⟨by decide +kernel, by decide +kernel, hinstall, hreplay⟩

end RecordStore.Metadata
