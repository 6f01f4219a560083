import RecordStore.Lib.Pool
import RecordStore.Lifecycle.Worker

/-!
# Lifecycle.Steps — the worker between other callers

The steps of a pass are separate transactions: the list of rules, the bucket and the cursor of a rule, each
page, each delete, the write of the cursor.  Any command can be applied between two of them, and the process
can stop there.
-/

namespace RecordStore.Lifecycle

open RecordStore.Lib RecordStore.Core RecordStore.Metadata Tx

/-! ## The steps -/

/-- How far a rule has come. -/
inductive Stage where
  | start
  | objects (cutoff : Cutoff) (todo : List Item)
  | between
  -- `seen` is the catalog that the page was read from
  | versions (cutoff : Cutoff) (todo : List Item) (seen : Catalog)
  | finish

structure Turn where
  rule : LifecycleRule
  name : BucketName
  cursor : RuleCursor
  stage : Stage
  result : LifecycleRunResult

/-- The entry of the page whose turn it is, with its cutoff and the stage after it. -/
def Turn.next (t : Turn) : Option (Item × Cutoff × Stage) :=
  match t.stage with
  | .objects cutoff (item :: todo) => some (item, cutoff, .objects cutoff todo)
  | .versions cutoff (item :: todo) seen => some (item, cutoff, .versions cutoff todo seen)
  | _ => none

structure System where
  catalog : Catalog
  cursors : Table Bytes RuleCursor
  -- the rules of the pass that have not had their turn
  pending : List LifecycleRule
  turn : Option Turn
  -- the deletes that were called
  calls : List Call

inductive Event where
  -- another caller's command
  | command (command : MetadataCommand)
  -- `run_once` lists the rules
  | list
  -- `run_rule` starts
  | rule
  -- the next page, and the clock after it
  | page (now : DateTime)
  | visit (tick : Tick)
  | endPage
  | write
  | stop

namespace System

def world (w : System) : World := ⟨w.catalog, w.cursors⟩

/-- The pass is over: it has ended, or an error ends it, or the process stops. -/
def leave (w : System) : System := { w with pending := [], turn := none }

def goOn (w : System) (t : Turn) (stage : Stage) : System := { w with turn := some { t with stage := stage } }

def beginRule (w : System) : Option System :=
  match w.turn, w.pending with
  | none, rule :: rules =>
    match w.catalog.readBucket rule.bucketId with
    | none => some w.leave
    | some bucket =>
      some { w with
        pending := rules
        turn := some ⟨rule, bucket.name, w.world.readCursor rule.id, .start, .default⟩ }
  | _, _ => none

def readPage (cfg : Settings) (now : DateTime) (w : System) (t : Turn) : Option System :=
  match t.stage with
  | .start =>
    match t.rule.expiration with
    | none => some (w.goOn t .between)
    | some days =>
      let page := listObjects w.catalog (objectsRequest cfg t.rule t.cursor)
      some (w.goOn { t with cursor := { t.cursor with currentKey := page.nextKey } }
        (.objects (.before now days) (page.objects.map .object)))
  | .between =>
    match t.rule.noncurrentVersionExpiration with
    | none => some (w.goOn t .finish)
    | some days =>
      match listObjectVersions w.catalog (versionsRequest cfg t.rule t.cursor) with
      | .error _ => some w.leave
      | .ok page =>
        some (w.goOn
          { t with cursor := { t.cursor with versionKey := page.nextKeyMarker, versionId := page.nextVersionIdMarker } }
          (.versions (.before now days) (page.versions.map .version) w.catalog))
  | _ => none

def visitNext (cfg : Settings) (tick : Tick) (w : System) (t : Turn) : Option System := do
  let (item, cutoff, stage) ← t.next
  let x := visit cfg ⟨t.rule, t.name, cutoff⟩ tick ⟨w.catalog, t.result, w.calls, none⟩ item
  let w := { w with catalog := x.catalog, calls := x.calls }
  return match x.error with
    | some _ => w.leave
    | none => w.goOn { t with result := x.result } stage

def step (cfg : Settings) (w : System) : Event → Option System
  | .command c => some { w with catalog := Metadata.step cfg.env w.catalog c }
  | .list =>
    match w.turn, w.pending with
    | none, [] => some { w with pending := enabledRules w.catalog }
    | _, _ => none
  | .rule => w.beginRule
  | .page now => w.turn.bind (w.readPage cfg now)
  | .visit tick => w.turn.bind (w.visitNext cfg tick)
  | .endPage => w.turn.bind fun t =>
    match t.stage with
    | .objects _ [] => some (w.goOn t .between)
    | .versions _ [] _ => some (w.goOn t .finish)
    | _ => none
  | .write => w.turn.bind fun t =>
    match t.stage with
    | .finish => some { w with cursors := w.cursors.insert t.rule.id.bytes t.cursor, turn := none }
    | _ => none
  | .stop => some w.leave

end System

/-- The worker between two turns. -/
def System.idle (w : World) (pending : List LifecycleRule) (calls : List Call) : System :=
  ⟨w.catalog, w.cursors, pending, none, calls⟩

/-! ## What holds at every step -/

section Invariants

variable {cfg : Settings}

/-- The entries that are still to be visited. -/
def Stage.todo : Stage → List Item
  | objects _ todo | versions _ todo _ => todo
  | start | between | finish => []

/-- The catalog that a page of versions was read from. -/
def Stage.seen : Stage → Option Catalog
  | versions _ _ seen => some seen
  | start | objects _ _ | between | finish => none

/-- Version identifiers are generated: none is in use. -/
def System.FreshIds (w : System) : Event → Prop
  | .command c => ∀ v ∈ c.newVersion?, w.catalog.versions[v.bytes]? = none
  | .visit tick => w.catalog.versions[tick.marker.versionId.bytes]? = none
  | _ => True

instance {w : System} {e : Event} : Decidable (w.FreshIds e) :=
  match e with
  | .command c => inferInstanceAs (Decidable (∀ v ∈ c.newVersion?, _))
  | .visit _ => inferInstanceAs (Decidable (_ = _))
  | .list | .rule | .page _ | .endPage | .write | .stop => isTrue trivial

/-- What a visit does: nothing to the catalog, or one delete of an entry that is due. -/
theorem visit_cases (cfg : Settings) (job : Job) (tick : Tick) (x : Scan) (item : Item) :
    (visit cfg job tick x item).catalog = x.catalog ∧ (visit cfg job tick x item).calls = x.calls ∨
      item.due job.cutoff = true ∧
      (visit cfg job tick x item).catalog = ((⟨job, item, tick, x.catalog⟩ : Call).outcome cfg).2 ∧
      (visit cfg job tick x item).calls = x.calls ++ [⟨job, item, tick, x.catalog⟩] := by
  unfold visit
  split_ifs with herr hdue hann
  · exact .inl ⟨rfl, rfl⟩
  · exact .inr ⟨hdue, rfl, rfl⟩
  · exact .inl ⟨rfl, rfl⟩
  · exact .inl ⟨rfl, rfl⟩

theorem sound_delete {s : Catalog} (h : Metadata.Sound s) {tick : Tick}
    (hfresh : s.versions[tick.marker.versionId.bytes]? = none) (name : BucketName) (item : Item) :
    Metadata.Sound (item.delete cfg tick name s).2 := by
  unfold Item.delete
  cases s.bucketNames[name.value]? with
  | none => exact h
  | some b =>
    cases item with
    | object o =>
      refine commit_preserves h fun _ s' hret => h.step (.deleteObject hret) fun v hv => ?_
      cases hv
      exact hfresh
    | version v =>
      exact commit_preserves h fun _ s' hret => h.step (.deleteObjectVersion hret) fun v hv => nomatch hv

theorem Turn.next_cases {t : Turn} {item : Item} {cutoff : Cutoff} {stage : Stage}
    (h : t.next = some (item, cutoff, stage)) : t.stage.todo = item :: stage.todo ∧ stage.seen = t.stage.seen := by
  unfold Turn.next at h
  split at h
  · next c i todo hstage =>
    cases h
    rw [hstage]
    exact ⟨rfl, rfl⟩
  · next c i todo seen hstage =>
    cases h
    rw [hstage]
    exact ⟨rfl, rfl⟩
  · cases h

/-- The catalog is sound, `q` holds of every entry that is still to be visited, and `R` of every delete. -/
structure System.Holds (q : LifecycleRule → Option Catalog → Item → Prop) (R : Call → Prop) (w : System) : Prop where
  sound : Metadata.Sound w.catalog
  todo : ∀ t, w.turn = some t → ∀ item ∈ t.stage.todo, q t.rule t.stage.seen item
  calls : ∀ c ∈ w.calls, R c

namespace System.Holds

variable {q : LifecycleRule → Option Catalog → Item → Prop} {R : Call → Prop} {w w' : System}

/-- Another stage without entries, another cursor or no turn at all. -/
theorem rest (h : w.Holds q R) {turn : Option Turn} (hturn : ∀ t, turn = some t → t.stage.todo = [])
    (cursors : Table Bytes RuleCursor) (pending : List LifecycleRule) :
    Holds q R { w with cursors := cursors, pending := pending, turn := turn } where
  sound := h.sound
  todo := by
    intro t ht item hitem
    rw [hturn t ht] at hitem
    exact absurd hitem List.not_mem_nil
  calls := h.calls

theorem visitNext (h : w.Holds q R) {tick : Tick} {t : Turn} (ht : w.turn = some t)
    (hfresh : w.catalog.versions[tick.marker.versionId.bytes]? = none)
    (hcall : ∀ item cutoff stage, t.next = some (item, cutoff, stage) → item.due cutoff = true →
      q t.rule t.stage.seen item → R ⟨⟨t.rule, t.name, cutoff⟩, item, tick, w.catalog⟩)
    (hs : w.visitNext cfg tick t = some w') : w'.Holds q R := by
  unfold System.visitNext at hs
  obtain ⟨⟨item, cutoff, stage⟩, hnext, hs⟩ := Option.bind_eq_some_iff.mp hs
  obtain ⟨htodo, hseen⟩ := Turn.next_cases hnext
  have hitem : q t.rule t.stage.seen item := h.todo t ht item (htodo ▸ List.mem_cons_self)
  let job : Job := ⟨t.rule, t.name, cutoff⟩
  let x : Scan := ⟨w.catalog, t.result, w.calls, none⟩
  have hkept : Metadata.Sound (visit cfg job tick x item).catalog ∧ ∀ c ∈ (visit cfg job tick x item).calls, R c := by
    rcases visit_cases cfg job tick x item with ⟨hc, hcalls⟩ | ⟨hdue, hc, hcalls⟩
    · rw [hc, hcalls]
      exact ⟨h.sound, h.calls⟩
    · rw [hc, hcalls]
      refine ⟨sound_delete h.sound hfresh t.name item, fun c hmem => ?_⟩
      rcases List.mem_append.mp hmem with hmem | hmem
      · exact h.calls c hmem
      · rw [List.mem_singleton.mp hmem]
        exact hcall item cutoff stage hnext hdue hitem
  have hgoOn : ∀ w₁ : System, w₁ = { w with
      catalog := (visit cfg job tick x item).catalog, calls := (visit cfg job tick x item).calls } →
      (w₁.leave.Holds q R ∧ ∀ t' : Turn, t'.rule = t.rule → (w₁.goOn t' stage).Holds q R) := by
    rintro w₁ rfl
    refine ⟨⟨hkept.1, fun t ht => absurd ht (Option.some_ne_none t).symm, hkept.2⟩,
      fun t' hrule => ⟨hkept.1, ?_, hkept.2⟩⟩
    rintro _ ⟨⟩ i hi
    show q t'.rule stage.seen i
    rw [hrule, hseen]
    exact h.todo t ht i (htodo ▸ List.mem_cons_of_mem _ hi)
  cases Option.some.inj hs
  split
  · exact (hgoOn _ rfl).1
  · exact (hgoOn _ rfl).2 _ rfl

theorem step (h : w.Holds q R) {e : Event} (hfresh : w.FreshIds e)
    (hobjects : ∀ t, w.turn = some t → t.stage = .start → t.rule.expiration.isSome = true → (∃ now, e = .page now) →
      ∀ o ∈ (listObjects w.catalog (objectsRequest cfg t.rule t.cursor)).objects, q t.rule none (.object o))
    (hversions : ∀ t page, w.turn = some t → t.stage = .between → t.rule.noncurrentVersionExpiration.isSome = true →
      (∃ now, e = .page now) → listObjectVersions w.catalog (versionsRequest cfg t.rule t.cursor) = .ok page →
      ∀ v ∈ page.versions, q t.rule (some w.catalog) (.version v))
    (hcall : ∀ t tick item cutoff stage, w.turn = some t → e = .visit tick → t.next = some (item, cutoff, stage) →
      item.due cutoff = true → q t.rule t.stage.seen item →
      R ⟨⟨t.rule, t.name, cutoff⟩, item, tick, w.catalog⟩)
    (hs : System.step cfg w e = some w') : w'.Holds q R := by
  cases e with
  | command c =>
    cases hs
    refine ⟨?_, h.todo, h.calls⟩
    exact Metadata.step_preserves h.sound fun s' happ => h.sound.step happ fun v hv => hfresh v hv
  | list =>
    unfold System.step at hs
    dsimp only at hs
    split at hs
    · next hturn _ =>
      cases hs
      exact h.rest (fun t ht => absurd (hturn.symm.trans ht) nofun) _ _
    · cases hs
  | rule =>
    unfold System.step System.beginRule at hs
    dsimp only at hs
    split at hs
    · next rule rules _ _ =>
      split at hs
      · cases hs
        exact h.rest (fun t ht => absurd ht (Option.some_ne_none t).symm) _ _
      · cases hs
        refine h.rest (fun t ht => ?_) _ _
        cases ht
        rfl
    · cases hs
  | page now =>
    obtain ⟨t, ht, hs⟩ := Option.bind_eq_some_iff.mp hs
    unfold System.readPage at hs
    split at hs
    · next hstage =>
      split at hs
      · cases hs
        refine h.rest (fun t' ht' => ?_) _ _
        cases ht'
        rfl
      · next days hexp =>
        cases hs
        refine ⟨h.sound, ?_, h.calls⟩
        rintro _ ⟨⟩ item hitem
        obtain ⟨o, ho, rfl⟩ := List.mem_map.mp hitem
        exact hobjects t ht hstage (by rw [hexp]; rfl) ⟨now, rfl⟩ o ho
    · next hstage =>
      split at hs
      · cases hs
        refine h.rest (fun t' ht' => ?_) _ _
        cases ht'
        rfl
      · next days hexp =>
        split at hs
        · cases hs
          exact h.rest (fun t ht => absurd ht (Option.some_ne_none t).symm) _ _
        · next page hlist =>
          cases hs
          refine ⟨h.sound, ?_, h.calls⟩
          rintro _ ⟨⟩ item hitem
          obtain ⟨v, hv, rfl⟩ := List.mem_map.mp hitem
          exact hversions t page ht hstage (by rw [hexp]; rfl) ⟨now, rfl⟩ hlist v hv
    · cases hs
  | visit tick =>
    obtain ⟨t, ht, hs⟩ := Option.bind_eq_some_iff.mp hs
    exact h.visitNext ht hfresh (fun item cutoff stage hn hd hq => hcall t tick item cutoff stage ht rfl hn hd hq) hs
  | endPage =>
    obtain ⟨t, ht, hs⟩ := Option.bind_eq_some_iff.mp hs
    have hrest : ∀ stage : Stage, stage.todo = [] → (w.goOn t stage).Holds q R := by
      intro stage hstage
      refine h.rest (fun t' ht' => ?_) _ _
      cases ht'
      exact hstage
    split at hs
    · cases hs
      exact hrest _ rfl
    · cases hs
      exact hrest _ rfl
    · cases hs
  | write =>
    obtain ⟨t, ht, hs⟩ := Option.bind_eq_some_iff.mp hs
    split at hs
    · cases hs
      exact h.rest (fun t ht => absurd ht (Option.some_ne_none t).symm) _ _
    · cases hs
  | stop =>
    cases hs
    exact h.rest (fun t ht => absurd ht (Option.some_ne_none t).symm) _ _

end System.Holds

end Invariants

/-! ## Values for concrete runs -/

namespace Trial

/-- One entry a page. -/
def cfg : Settings := ⟨Metadata.Sample.env, 1, by decide, 0⟩

/-- A thousand days after the epoch. -/
def now : DateTime := .ofSeconds 86400000

def days : ExpirationDays := ⟨30, by decide⟩

/-- The rule of the bucket, for a prefix. -/
def rule (keyPrefix : String) (current noncurrent : Bool) : LifecycleRule where
  id := .ofNat 7
  bucketId := .ofNat 1
  keyPrefix := keyPrefix
  enabled := true
  expiration := if current then some days else none
  noncurrentVersionExpiration := if noncurrent then some days else none
  createdAt := .epoch
  updatedAt := .epoch

/-- An object that is older than the rule allows. -/
def old (key : ObjectKey) (n : Nat) : MetadataCommand :=
  .putObject { Metadata.Sample.object n n 5 with key := key } none .direct

def tick (n : Nat) : Tick := ⟨⟨.ofNat n, now⟩, now, true, true⟩

def bucket (versioning : VersioningState) : MetadataCommand := .createBucket (Metadata.Sample.bucket versioning none)

/-- A pass of the rule with one entry of its page past the cutoff. -/
def expiry (n : Nat) : List Event := [.list, .rule, .page now, .visit (tick n), .endPage, .page now, .write]

/-- A pass of a rule for objects and versions, with one entry on each page. -/
def pass (n : Nat) : List Event :=
  [.list, .rule, .page now, .visit (tick n), .endPage, .page now, .visit (tick (n + 1)), .endPage, .write]

end Trial

end RecordStore.Lifecycle
