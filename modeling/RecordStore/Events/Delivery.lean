import RecordStore.Core.Object
import RecordStore.Events.Target
import RecordStore.Lib.Pool

/-!
# Events.Delivery — the books of webhook deliveries

One worker reads due rows, loads each with its subscription, makes its request, and writes the attempt and the row
back in a later transaction, while others insert events and change subscriptions.  The log of a pair of event and
subscription is what the row counts; only the row that is written back after its subscription was deleted should not
be there.
-/

namespace RecordStore.Events

open RecordStore.Lib RecordStore.Core

/-! ## Rows -/

structure WebhookId where
  uuid : Uuid
  deriving DecidableEq

/-- `StorageEvent`, as far as subscriptions match it. -/
structure StorageEvent where
  id : EventId
  eventType : StorageEventType
  bucket : String
  object : Option String

structure WebhookSubscription where
  id : WebhookId
  targetUrl : String
  eventTypes : List StorageEventType
  bucketFilter : Option String
  objectPrefixFilter : Option String
  enabled : Bool

structure PendingDelivery where
  eventId : EventId
  webhookId : WebhookId
  attempts : Nat
  nextAttemptAt : Int
  deriving DecidableEq

structure WebhookDeliveryLog where
  eventId : EventId
  webhookId : WebhookId
  attempt : Nat
  httpStatus : Option Nat
  success : Bool
  errorSummary : Option String
  deriving DecidableEq

abbrev Pair := EventId × WebhookId

def PendingDelivery.pair (p : PendingDelivery) : Pair := (p.eventId, p.webhookId)

def WebhookDeliveryLog.pair (l : WebhookDeliveryLog) : Pair := (l.eventId, l.webhookId)

/-- `pending_key`. -/
def pendingKey (x : Pair) : Bytes := x.1.bytes ++ x.2.uuid.bytes

/-- The tables; the log in the order of its transactions. -/
structure EventStore where
  subscriptions : Table Bytes WebhookSubscription
  events : Table Bytes StorageEvent
  pending : Table Bytes PendingDelivery
  deliveryLogs : List WebhookDeliveryLog

/-! ## Transactions -/

def WebhookSubscription.matches (s : WebhookSubscription) (e : StorageEvent) : Bool :=
  s.enabled && s.eventTypes.contains e.eventType && s.bucketFilter.all (· = e.bucket) &&
    s.objectPrefixFilter.all fun p => e.object.any fun key => p.toList.isPrefixOf key.toList

def matching (store : EventStore) (e : StorageEvent) : List WebhookId :=
  (store.subscriptions.rows.filter (·.matches e)).map (·.id)

/-- `insert_event_tx`. -/
def insertEventTx (store : EventStore) (e : StorageEvent) (now : Int) : EventStore :=
  { store with
    events := store.events.insert e.id.bytes e
    pending := (matching store e).foldl
      (fun queue w => queue.insert (pendingKey (e.id, w)) ⟨e.id, w, 0, now⟩) store.pending }

def createWebhook (store : EventStore) (s : WebhookSubscription) : EventStore :=
  { store with subscriptions := store.subscriptions.insert s.id.uuid.bytes s }

def setWebhookEnabled (store : EventStore) (id : WebhookId) (enabled : Bool) : Option EventStore :=
  store.subscriptions[id.uuid.bytes]?.map fun s =>
    { store with subscriptions := store.subscriptions.insert id.uuid.bytes { s with enabled := enabled } }

def deleteWebhook (store : EventStore) (id : WebhookId) : Option EventStore :=
  store.subscriptions[id.uuid.bytes]?.map fun _ =>
    { store with
      subscriptions := store.subscriptions.erase id.uuid.bytes
      pending := store.pending.filter fun _ p => p.webhookId ≠ id }

def removePending (store : EventStore) (x : Pair) : EventStore :=
  { store with pending := store.pending.erase (pendingKey x) }

/-- `MAX_ERROR_SUMMARY`. -/
def maxErrorSummary : Nat := 512

/-- The row after a failed attempt that was not the last. -/
def retried (p : PendingDelivery) (attempt : Nat) (now : Int) : PendingDelivery :=
  { p with
    attempts := attempt
    nextAttemptAt := now + ((2 ^ min attempt 10 + (p.eventId.bytes.headD 0).toNat % 3 : Nat) : Int) }

/-- The log entry of an attempt. -/
def logEntry (p : PendingDelivery) (attempt : Nat) (status : Option Nat) (success : Bool) (summary : Option String) :
    WebhookDeliveryLog :=
  ⟨p.eventId, p.webhookId, attempt, status, success, summary.map fun t => .ofList (t.toList.take maxErrorSummary)⟩

/-- `record_attempt`. -/
def recordAttempt (config : WebhookConfig) (store : EventStore) (p : PendingDelivery) (attempt : Nat)
    (status : Option Nat) (success : Bool)
    (summary : Option String) (now : Int) : EventStore :=
  { store with
    deliveryLogs := store.deliveryLogs ++ [logEntry p attempt status success summary]
    pending :=
      if success ∨ config.maximumAttempts ≤ attempt then store.pending.erase (pendingKey p.pair)
      else store.pending.insert (pendingKey p.pair) (retried p attempt now) }

/-- The rows that `deliver_due` reads; the length is compared after a row is added, so a limit of nothing is none. -/
def dueRows (store : EventStore) (now : Int) (limit : Nat) : List PendingDelivery :=
  let due := store.pending.toList.filter fun r => r.2.nextAttemptAt ≤ now
  (if min limit 1000 = 0 then due else due.take (min limit 1000)).map Prod.snd

/-! ## The system -/

/-- The worker: with rows still to take up, about to remove one, or with one in an attempt, which may have failed before
the request. -/
inductive Worker where
  | between (queue : List PendingDelivery)
  | dismissing (p : PendingDelivery) (queue : List PendingDelivery)
  | attempting (p : PendingDelivery) (failure : Option EventError) (queue : List PendingDelivery)

/-- The store and the worker; beside them what happened: the pairs that matched when their event was inserted, the
subscriptions deleted, and the pairs found disabled. -/
structure World where
  store : EventStore
  worker : Worker
  matched : List Pair
  deleted : List WebhookId
  disabled : List Pair

inductive Step where
  | insert (e : StorageEvent) (now : Int)
  | create (s : WebhookSubscription)
  | setEnabled (id : WebhookId) (enabled : Bool)
  | delete (id : WebhookId)
  | poll (now : Int) (limit : Nat)
  | load (env : Surroundings)
  | dismiss
  | record (status : Option Nat) (success : Bool) (summary : Option String) (now : Int)
  | crash

/-- `load_delivery` and what `deliver_one` makes of it. -/
def load (config : WebhookConfig) (s : World) (env : Surroundings) (p : PendingDelivery)
    (queue : List PendingDelivery) : World :=
  let subscription := s.store.subscriptions[p.webhookId.uuid.bytes]?
  let eventFound := (s.store.events[p.eventId.bytes]?).isSome
  match deliverOne config env eventFound (subscription.map fun w => (w.targetUrl, w.enabled)) with
  | .removed =>
    { s with
      worker := .dismissing p queue
      disabled := if subscription.isSome then s.disabled ++ [p.pair] else s.disabled }
  | .failed e => { s with worker := .attempting p (some e) queue }
  | .connected _ _ => { s with worker := .attempting p none queue }

/-- One transaction or read of the system.  Identifiers are not used twice. -/
def step (config : WebhookConfig) (s : World) : Step → Option World
  | .insert e now =>
    if (s.store.events[e.id.bytes]?).isSome then none
    else some { s with
      store := insertEventTx s.store e now
      matched := s.matched ++ (matching s.store e).map (e.id, ·) }
  | .create w =>
    if (s.store.subscriptions[w.id.uuid.bytes]?).isSome ∨ w.id ∈ s.deleted then none
    else some { s with store := createWebhook s.store w }
  | .setEnabled id enabled => (setWebhookEnabled s.store id enabled).map fun store => { s with store := store }
  | .delete id => (deleteWebhook s.store id).map fun store => { s with store := store, deleted := s.deleted ++ [id] }
  | .poll now limit =>
    match s.worker with
    | .between [] => some { s with worker := .between (dueRows s.store now limit) }
    | _ => none
  | .load env =>
    match s.worker with
    | .between (p :: queue) => some (load config s env p queue)
    | _ => none
  | .dismiss =>
    match s.worker with
    | .dismissing p queue => some { s with store := removePending s.store p.pair, worker := .between queue }
    | _ => none
  | .record status success summary now =>
    match s.worker with
    | .attempting p none queue =>
      some { s with
        store := recordAttempt config s.store p (p.attempts + 1) status success summary now
        worker := .between queue }
    | .attempting p (some _) queue =>
      some { s with
        store := recordAttempt config s.store p (p.attempts + 1) none false summary now
        worker := .between queue }
    | _ => none
  | .crash => some { s with worker := .between [] }

def initial : World := ⟨⟨∅, ∅, ∅, []⟩, .between [], [], [], []⟩

/-! ## The books -/

def logsOf (s : World) (x : Pair) : List WebhookDeliveryLog := s.store.deliveryLogs.filter (·.pair = x)

def row (s : World) (x : Pair) : Option PendingDelivery := s.store.pending[pendingKey x]?

/-- What the log and the queue say of a pair: attempts are numbered without gaps or repeats, not more than allowed,
and a success is the last; a row counts the attempts, of which none succeeded and more are allowed; and a pair that
matched has its row until it is settled. -/
structure Exact (config : WebhookConfig) (s : World) (x : Pair) : Prop where
  numbered : (logsOf s x).map (·.attempt) = List.range' 1 (logsOf s x).length
  bounded : (logsOf s x).length ≤ config.maximumAttempts
  successLast : ∀ l ∈ (logsOf s x).dropLast, l.success = false
  counted : ∀ p, row s x = some p → p.attempts = (logsOf s x).length ∧ p.attempts < config.maximumAttempts ∧
    (∀ l ∈ logsOf s x, l.success = false) ∧ x ∈ s.matched
  pendingUntil : x ∈ s.matched → (row s x).isSome ∨ (∃ l ∈ logsOf s x, l.success = true) ∨
    ((logsOf s x).length = config.maximumAttempts ∧ ∀ l ∈ logsOf s x, l.success = false) ∨ x.2 ∈ s.deleted ∨
    x ∈ s.disabled

/-- No row of a deleted subscription. -/
def Clean (s : World) : Prop := ∀ x p, row s x = some p → x.2 ∉ s.deleted

/-- The event writes a row back whose subscription was deleted meanwhile. -/
def Revives (config : WebhookConfig) (s : World) : Step → Prop
  | .record _ success _ _ =>
    match s.worker with
    | .attempting p failure _ =>
      p.webhookId ∈ s.deleted ∧ (success = false ∨ failure.isSome) ∧ p.attempts + 1 < config.maximumAttempts
    | _ => False
  | _ => False

/-! ## Rows under the transactions -/

section Rows

variable {config : WebhookConfig} {s s' : World} {x : Pair} {p : PendingDelivery}

theorem pendingKey_inj {x y : Pair} (h : pendingKey x = pendingKey y) : x = y := by
  obtain ⟨he, hw⟩ := List.append_inj h (by rw [Id.length_bytes, Id.length_bytes])
  exact Prod.ext (Id.bytes_inj.mp he) (congrArg WebhookId.mk (Uuid.ext hw))

theorem uuid_bytes_inj {v w : WebhookId} (h : v.uuid.bytes = w.uuid.bytes) : v = w := congrArg WebhookId.mk (Uuid.ext h)

theorem lookup_enqueued (e : EventId) (now : Int) (ids : List WebhookId)
    (queue : Table Bytes PendingDelivery) (x : Pair) :
    (ids.foldl (fun queue w => queue.insert (pendingKey (e, w)) ⟨e, w, 0, now⟩) queue)[pendingKey x]? =
      if x.1 = e ∧ x.2 ∈ ids then some ⟨x.1, x.2, 0, now⟩ else queue[pendingKey x]? := by
  induction ids generalizing queue with
  | nil => simp
  | cons w ids ih =>
    rw [List.foldl_cons, ih, Table.lookup_insert]
    by_cases hlater : x.1 = e ∧ x.2 ∈ ids
    · rw [if_pos hlater, if_pos ⟨hlater.1, List.mem_cons_of_mem _ hlater.2⟩]
    · rw [if_neg hlater]
      by_cases hnow : pendingKey x = pendingKey (e, w)
      · obtain rfl := pendingKey_inj hnow
        rw [if_pos rfl, if_pos ⟨rfl, List.mem_cons_self⟩]
      · rw [if_neg hnow, if_neg]
        rintro ⟨rfl, hmem⟩
        rcases List.mem_cons.mp hmem with rfl | hmem
        · exact hnow rfl
        · exact hlater ⟨rfl, hmem⟩

theorem lookup_removed {queue : Table Bytes PendingDelivery}
    (hkeyed : ∀ k p, queue[k]? = some p → k = pendingKey p.pair) (id : WebhookId)
    (x : Pair) : (queue.filter fun _ p => p.webhookId ≠ id)[pendingKey x]? =
      if x.2 = id then none else queue[pendingKey x]? := by
  rw [Std.ExtTreeMap.getElem?_filter']
  cases hrow : queue[pendingKey x]? with
  | none => exact (ite_self _).symm
  | some p =>
    obtain rfl := pendingKey_inj (hkeyed _ p hrow)
    change _ = if p.webhookId = id then none else some p
    by_cases hid : p.webhookId = id
    · rw [if_pos hid, Option.filter_some, if_neg (by simpa using hid)]
    · rw [if_neg hid, Option.filter_some, if_pos (by simpa using hid)]

/-- A row that the worker holds. -/
structure Owed (config : WebhookConfig) (s : World) (p : PendingDelivery) : Prop where
  attempts : p.attempts = (logsOf s p.pair).length
  more : p.attempts < config.maximumAttempts
  failed : ∀ l ∈ logsOf s p.pair, l.success = false
  matched : p.pair ∈ s.matched

theorem Owed.frame (h : Owed config s p) (hlogs : logsOf s' p.pair = logsOf s p.pair)
    (hmatched : p.pair ∈ s.matched → p.pair ∈ s'.matched) :
    Owed config s' p :=
  ⟨by rw [hlogs]; exact h.attempts, h.more, by rw [hlogs]; exact h.failed, hmatched h.matched⟩

/-- What a step leaves alone stays exact. -/
theorem Exact.frame (h : Exact config s x) (hlogs : logsOf s' x = logsOf s x) (hrow : row s' x = row s x)
    (hmatched : x ∈ s'.matched ↔ x ∈ s.matched) (hdeleted : x.2 ∈ s.deleted → x.2 ∈ s'.deleted)
    (hdisabled : x ∈ s.disabled → x ∈ s'.disabled) : Exact config s' x where
  numbered := by rw [hlogs]; exact h.numbered
  bounded := by rw [hlogs]; exact h.bounded
  successLast := by rw [hlogs]; exact h.successLast
  counted := by rw [hlogs, hrow, hmatched]; exact h.counted
  pendingUntil := by
    rw [hlogs, hrow, hmatched]
    intro hm
    rcases h.pendingUntil hm with hsome | hsuccess | hfull | hgone | hoff
    · exact .inl hsome
    · exact .inr (.inl hsuccess)
    · exact .inr (.inr (.inl hfull))
    · exact .inr (.inr (.inr (.inl (hdeleted hgone))))
    · exact .inr (.inr (.inr (.inr (hdisabled hoff))))

theorem row_owed (h : Exact config s p.pair) (hrow : row s p.pair = some p) : Owed config s p :=
  have hcounted := h.counted p hrow
  ⟨hcounted.1, hcounted.2.1, hcounted.2.2.1, hcounted.2.2.2⟩

end Rows

/-! ## Soundness, step by step -/

def held : Worker → List PendingDelivery
  | .between queue => queue
  | .dismissing p queue => p :: queue
  | .attempting p _ queue => p :: queue

structure Sound (config : WebhookConfig) (s : World) : Prop where
  exact : ∀ x, Exact config s x
  logged : ∀ x, logsOf s x ≠ [] → x ∈ s.matched
  keyed : ∀ k p, s.store.pending[k]? = some p → k = pendingKey p.pair
  ids : ∀ (k : Bytes) (w : WebhookSubscription), s.store.subscriptions[k]? = some w → k = w.id.uuid.bytes
  known : ∀ x ∈ s.matched, (s.store.events[x.1.bytes]?).isSome ∧
    ((s.store.subscriptions[x.2.uuid.bytes]?).isSome ∨ x.2 ∈ s.deleted)
  gone : ∀ w ∈ s.deleted, s.store.subscriptions[w.uuid.bytes]? = none
  distinct : ((held s.worker).map PendingDelivery.pair).Nodup
  owed : ∀ p ∈ held s.worker, Owed config s p
  dismissed : ∀ p queue, s.worker = .dismissing p queue → p.webhookId ∈ s.deleted ∨ p.pair ∈ s.disabled

section Steps

variable {config : WebhookConfig} {s : World}

theorem mem_matching {store : EventStore} {e : StorageEvent} {w : WebhookId} (h : w ∈ matching store e) :
    ∃ (k : Bytes) (sub : WebhookSubscription), store.subscriptions[k]? = some sub ∧ sub.id = w := by
  obtain ⟨sub, hsub, rfl⟩ := List.mem_map.mp h
  obtain ⟨k, hk⟩ := Table.mem_rows.mp (List.mem_of_mem_filter hsub)
  exact ⟨k, sub, hk, rfl⟩

theorem Sound.insert (h : Sound config s) {e : StorageEvent} (hfresh : s.store.events[e.id.bytes]? = none) (now : Int) :
    Sound config { s with
      store := insertEventTx s.store e now
      matched := s.matched ++ (matching s.store e).map (e.id, ·) } := by
  have hmatched : ∀ x : Pair, x ∈ s.matched ++ (matching s.store e).map (e.id, ·) ↔
      x ∈ s.matched ∨ x.1 = e.id ∧ x.2 ∈ matching s.store e := by
    intro x
    rw [List.mem_append, List.mem_map]
    refine or_congr Iff.rfl ⟨?_, ?_⟩
    · rintro ⟨w, hw, rfl⟩
      exact ⟨rfl, hw⟩
    · rintro ⟨he, hw⟩
      exact ⟨x.2, hw, Prod.ext he.symm rfl⟩
  -- the event is new: nothing is known of its pairs
  have hnew : ∀ x : Pair, x.1 = e.id → x ∉ s.matched := by
    intro x hx hm
    have hsome := (h.known x hm).1
    rw [hx, hfresh] at hsome
    cases hsome
  refine ⟨fun x => ?_, fun x hx => (hmatched x).mpr (.inl (h.logged x hx)), fun k p hk => ?_, h.ids, fun x hx => ?_,
    h.gone, h.distinct,
    fun p hp => (h.owed p hp).frame rfl fun hm => (hmatched _).mpr (.inl hm), h.dismissed⟩
  · have hrow := lookup_enqueued e.id now (matching s.store e) s.store.pending x
    by_cases hx : x.1 = e.id
    · have hlogs : logsOf s x = [] := by
        by_contra hne
        exact hnew x hx (h.logged x hne)
      have hlogs' : logsOf { s with
        store := insertEventTx s.store e now
        matched := s.matched ++ (matching s.store e).map (e.id, ·) } x = [] := hlogs
      refine ⟨?_, ?_, ?_, fun p hp => ?_, fun hm => ?_⟩
      · rw [hlogs']; rfl
      · rw [hlogs']; exact Nat.zero_le _
      · rw [hlogs']; exact fun l hl => absurd hl List.not_mem_nil
      · rw [hlogs']
        replace hp := hrow.symm.trans hp
        split_ifs at hp with hmem
        · obtain rfl := Option.some.inj hp
          exact ⟨rfl, config.attempts_pos, fun l hl => absurd hl List.not_mem_nil, (hmatched x).mpr (.inr hmem)⟩
        · exact absurd ((h.exact x).counted p hp).2.2.2 (hnew x hx)
      · rcases (hmatched x).mp hm with hold | hmem
        · exact absurd hold (hnew x hx)
        · rw [if_pos hmem] at hrow
          exact .inl (Option.isSome_iff_exists.mpr ⟨_, hrow⟩)
    · rw [if_neg fun hmem => hx hmem.1] at hrow
      refine (h.exact x).frame rfl hrow
        ((hmatched x).trans ⟨fun hm => hm.resolve_right fun hmem => hx hmem.1, .inl⟩) id id
  · by_cases hmem : ∃ w ∈ matching s.store e, pendingKey (e.id, w) = k
    · obtain ⟨w, hw, rfl⟩ := hmem
      rw [show (insertEventTx s.store e now).pending[pendingKey (e.id, w)]? = _ from lookup_enqueued e.id now _ _ _,
        if_pos ⟨rfl, hw⟩] at hk
      obtain rfl := Option.some.inj hk
      rfl
    · have hrow : (insertEventTx s.store e now).pending[k]? = s.store.pending[k]? :=
        Table.lookup_foldl_insert_of_not_mem fun w hw heq => hmem ⟨w, hw, heq⟩
      exact h.keyed k p (hrow.symm.trans hk)
  · change ((s.store.events.insert e.id.bytes e)[x.1.bytes]?).isSome ∧ _
    rw [Table.lookup_insert]
    rcases (hmatched x).mp hx with hold | ⟨he, hmem⟩
    · refine ⟨?_, (h.known x hold).2⟩
      split_ifs
      · rfl
      · exact (h.known x hold).1
    · rw [he, if_pos rfl]
      obtain ⟨k, sub, hk, hid⟩ := mem_matching hmem
      rw [h.ids k sub hk, hid] at hk
      exact ⟨rfl,
        .inl (by rw [show (insertEventTx s.store e now).subscriptions[x.2.uuid.bytes]? = some sub from hk]; rfl)⟩

theorem Sound.create (h : Sound config s) {w : WebhookSubscription} (hid : w.id ∉ s.deleted) :
    Sound config { s with store := createWebhook s.store w } := by
  refine ⟨fun x => (h.exact x).frame rfl rfl Iff.rfl id id, h.logged, h.keyed, fun k sub hk => ?_,
    fun x hx => ⟨(h.known x hx).1, ?_⟩,
    fun v hv => ?_, h.distinct, fun p hp => (h.owed p hp).frame rfl id, h.dismissed⟩
  · rcases Table.of_lookup_insert hk with ⟨hsame, rfl⟩ | ⟨-, hk⟩
    · exact hsame
    · exact h.ids k sub hk
  · refine (h.known x hx).2.imp_left fun hsome => ?_
    rw [createWebhook, Table.lookup_insert]
    split_ifs
    · rfl
    · exact hsome
  · rw [createWebhook, Table.lookup_insert, if_neg fun hsame => hid (by rwa [← uuid_bytes_inj hsame])]
    exact h.gone v hv

theorem Sound.setEnabled (h : Sound config s) {id : WebhookId} {enabled : Bool} {store : EventStore}
    (hset : setWebhookEnabled s.store id enabled = some store) : Sound config { s with store := store } := by
  obtain ⟨w, hw, rfl⟩ := Option.map_eq_some_iff.mp hset
  refine ⟨fun x => (h.exact x).frame rfl rfl Iff.rfl (fun hx => hx) fun hx => hx, h.logged, h.keyed, fun k sub hk => ?_,
    fun x hx => ⟨(h.known x hx).1, ?_⟩, fun v hv => ?_, h.distinct, fun p hp => (h.owed p hp).frame rfl fun hm => hm,
      h.dismissed⟩
  · rcases Table.of_lookup_insert hk with ⟨hsame, rfl⟩ | ⟨-, hk⟩
    · exact hsame.trans (h.ids _ w hw)
    · exact h.ids k sub hk
  · refine (h.known x hx).2.imp_left fun hsome => ?_
    rw [Table.lookup_insert]
    split_ifs
    · rfl
    · exact hsome
  · have hnone := h.gone v hv
    rw [Table.lookup_insert, if_neg]
    · exact hnone
    · intro hsame
      rw [hsame, hw] at hnone
      cases hnone

theorem Sound.delete (h : Sound config s) {id : WebhookId} {store : EventStore}
    (hdelete : deleteWebhook s.store id = some store) :
    Sound config { s with store := store, deleted := s.deleted ++ [id] } := by
  obtain ⟨w, hw, rfl⟩ := Option.map_eq_some_iff.mp hdelete
  have hrow := lookup_removed h.keyed id
  refine ⟨fun x => ?_, h.logged, fun k p hk => ?_, fun k sub hk => ?_, fun x hx => ⟨(h.known x hx).1, ?_⟩,
    fun v hv => ?_, h.distinct,
    fun p hp => (h.owed p hp).frame rfl fun hm => hm, fun p queue hworker => ?_⟩
  · by_cases hx : x.2 = id
    · have hnone : (s.store.pending.filter fun _ p => p.webhookId ≠ id)[pendingKey x]? = none := by rw [hrow, if_pos hx]
      have hold := h.exact x
      refine ⟨hold.numbered, hold.bounded, hold.successLast, fun p hp => ?_, fun _ => .inr (.inr (.inr (.inl ?_)))⟩
      · exact absurd (hnone.symm.trans hp) nofun
      · exact List.mem_append_right _ (List.mem_singleton.mpr hx)
    · have hsame : (s.store.pending.filter fun _ p => p.webhookId ≠ id)[pendingKey x]? =
        s.store.pending[pendingKey x]? := by
        rw [hrow, if_neg hx]
      exact (h.exact x).frame rfl hsame Iff.rfl (List.mem_append_left _) fun hx => hx
  · rw [Std.ExtTreeMap.getElem?_filter'] at hk
    exact h.keyed k p (Option.eq_some_of_filter_eq_some hk)
  · exact h.ids k sub (Table.of_lookup_erase hk).2
  · rcases (h.known x hx).2 with hsome | hgone
    · by_cases hid : x.2 = id
      · exact .inr (List.mem_append_right _ (List.mem_singleton.mpr hid))
      · rw [Table.lookup_erase, if_neg fun hsame => hid (uuid_bytes_inj hsame)]
        exact .inl hsome
    · exact .inr (List.mem_append_left _ hgone)
  · rw [Table.lookup_erase]
    split_ifs with hsame
    · rfl
    · rcases List.mem_append.mp hv with hv | hv
      · exact h.gone v hv
      · exact absurd (by rw [List.mem_singleton.mp hv]) hsame
  · exact (h.dismissed p queue hworker).imp_left (List.mem_append_left _)

/-- The worker goes on with rows it holds. -/
theorem Sound.hold (h : Sound config s) {worker : Worker} {disabled : List Pair}
    (hheld : (held worker).Sublist (held s.worker))
    (hdisabled : ∀ x ∈ s.disabled, x ∈ disabled)
    (hdismissed : ∀ p queue, worker = .dismissing p queue → p.webhookId ∈ s.deleted ∨ p.pair ∈ disabled) :
    Sound config { s with worker := worker, disabled := disabled } :=
  ⟨fun x => (h.exact x).frame rfl rfl Iff.rfl id (hdisabled x), h.logged, h.keyed, h.ids, h.known, h.gone,
    h.distinct.sublist (hheld.map _), fun p hp => (h.owed p (hheld.subset hp)).frame rfl id, hdismissed⟩

theorem dueRows_spec (store : EventStore) (now : Int) (limit : Nat) :
    ∃ taken : List (Bytes × PendingDelivery), taken.Sublist store.pending.toList ∧
      dueRows store now limit = taken.map Prod.snd := by
  refine ⟨_, ?_, rfl⟩
  split_ifs
  · exact List.filter_sublist
  · exact (List.take_sublist _ _).trans List.filter_sublist

theorem Sound.poll (h : Sound config s) (now : Int) (limit : Nat) :
    Sound config { s with worker := .between (dueRows s.store now limit) } := by
  obtain ⟨taken, htaken, hdue⟩ := dueRows_spec s.store now limit
  have hlookup : ∀ r ∈ taken, s.store.pending[r.1]? = some r.2 := fun r hr =>
    Std.ExtTreeMap.mem_toList_iff_getElem?_eq_some.mp (htaken.subset hr)
  refine ⟨fun x => (h.exact x).frame rfl rfl Iff.rfl id id, h.logged, h.keyed, h.ids, h.known, h.gone, ?_,
    fun p hp => ?_, nofun⟩
  · change ((dueRows s.store now limit).map PendingDelivery.pair).Nodup
    rw [hdue, List.map_map, List.Nodup, List.pairwise_map]
    refine (Std.ExtTreeMap.distinct_keys_toList.sublist htaken).imp_of_mem fun {a b} ha hb hne hpair => ?_
    rw [h.keyed _ _ (hlookup a ha), h.keyed _ _ (hlookup b hb), show a.2.pair = b.2.pair from hpair] at hne
    exact hne Std.ReflCmp.compare_self
  · change p ∈ dueRows s.store now limit at hp
    rw [hdue] at hp
    obtain ⟨r, hr, rfl⟩ := List.mem_map.mp hp
    have hr' := hlookup r hr
    rw [h.keyed _ _ hr'] at hr'
    exact (row_owed (h.exact r.2.pair) hr').frame rfl id

theorem Sound.load (h : Sound config s) {p : PendingDelivery} {queue : List PendingDelivery}
    (hworker : s.worker = .between (p :: queue))
    (env : Surroundings) : Sound config (load config s env p queue) := by
  have hheld : held s.worker = p :: queue := by rw [hworker]; rfl
  have hmem : p ∈ held s.worker := by rw [hheld]; exact List.mem_cons_self
  unfold Events.load
  dsimp only
  split
  · refine h.hold (by rw [hheld]; exact List.Sublist.refl _) (fun x hx => ?_) fun p' queue' hsame => ?_
    · split_ifs
      · exact List.mem_append_left _ hx
      · exact hx
    · obtain ⟨rfl, -⟩ := Worker.dismissing.inj hsame
      split_ifs with hfound
      · exact .inr (List.mem_append_right _ (List.mem_singleton.mpr rfl))
      · exact .inl ((h.known _ (h.owed _ hmem).matched).2.resolve_left hfound)
  · exact h.hold (by rw [hheld]; exact List.Sublist.refl _) (fun x hx => hx) nofun
  · exact h.hold (by rw [hheld]; exact List.Sublist.refl _) (fun x hx => hx) nofun

theorem Sound.dismiss (h : Sound config s) {p : PendingDelivery} {queue : List PendingDelivery}
    (hworker : s.worker = .dismissing p queue) :
    Sound config { s with store := removePending s.store p.pair, worker := .between queue } := by
  have hheld : held s.worker = p :: queue := by rw [hworker]; rfl
  have hdistinct := h.distinct
  rw [hheld] at hdistinct
  have hrow : ∀ k : Bytes, (s.store.pending.erase (pendingKey p.pair))[k]? =
    if k = pendingKey p.pair then none else s.store.pending[k]? :=
    Table.lookup_erase s.store.pending (pendingKey p.pair)
  refine ⟨fun x => ?_, h.logged, fun k q hk => ?_, h.ids, h.known, h.gone, (List.nodup_cons.mp hdistinct).2,
    fun q hq => ?_, nofun⟩
  · by_cases hx : x = p.pair
    · subst hx
      have hnone := hrow (pendingKey p.pair)
      rw [if_pos rfl] at hnone
      have hold := h.exact p.pair
      exact ⟨hold.numbered, hold.bounded, hold.successLast, fun q hq => absurd (hnone.symm.trans hq) nofun,
        fun _ => .inr (.inr (.inr (h.dismissed p queue hworker)))⟩
    · have hsame := hrow (pendingKey x)
      rw [if_neg fun heq => hx (pendingKey_inj heq)] at hsame
      exact (h.exact x).frame rfl hsame Iff.rfl id id
  · replace hk := (hrow k).symm.trans hk
    split_ifs at hk
    exact h.keyed k q hk
  · exact (h.owed q (by rw [hheld]; exact List.mem_cons_of_mem _ hq)).frame rfl id

theorem logsOf_append {t : World} {l : WebhookDeliveryLog} {x : Pair} (hpair : l.pair = x)
    (hlogs : t.store.deliveryLogs = s.store.deliveryLogs ++ [l]) :
    logsOf t x = logsOf s x ++ [l] ∧ ∀ y, y ≠ x → logsOf t y = logsOf s y := by
  unfold logsOf
  rw [hlogs]
  refine ⟨?_, fun y hy => ?_⟩
  · rw [List.filter_append, List.filter_cons_of_pos (by simpa using hpair), List.filter_nil]
  · rw [List.filter_append, List.filter_cons_of_neg (by simpa [hpair] using hy.symm), List.filter_nil, List.append_nil]

theorem Sound.record (h : Sound config s) {p : PendingDelivery} {failure : Option EventError}
    {queue : List PendingDelivery}
    (hworker : s.worker = .attempting p failure queue) (status : Option Nat) (success : Bool) (summary : Option String)
      (now : Int) :
    Sound config { s with
      store := recordAttempt config s.store p (p.attempts + 1) status success summary now, worker :=
        .between queue } := by
  have hheld : held s.worker = p :: queue := by rw [hworker]; rfl
  have hdistinct := h.distinct
  rw [hheld, List.map_cons, List.nodup_cons] at hdistinct
  have howed := h.owed p (by rw [hheld]; exact List.mem_cons_self)
  obtain ⟨hself, hother⟩ := logsOf_append (s := s) (x := p.pair)
    (l := logEntry p (p.attempts + 1) status success summary) (t := { s with
    store := recordAttempt config s.store p (p.attempts + 1) status success summary now, worker :=
      .between queue }) rfl rfl
  have hrow : ∀ k : Bytes, (recordAttempt config s.store p (p.attempts + 1) status success summary now).pending[k]? =
      if k = pendingKey p.pair then
        if success ∨ config.maximumAttempts ≤ p.attempts + 1 then none else some (retried p (p.attempts + 1) now)
      else s.store.pending[k]? := by
    intro k
    unfold recordAttempt
    dsimp only
    split_ifs with hdone hk hk
    · rw [Table.lookup_erase, if_pos hk]
    · rw [Table.lookup_erase, if_neg hk]
    · rw [Table.lookup_insert, if_pos hk]
    · rw [Table.lookup_insert, if_neg hk]
  refine ⟨fun x => ?_, fun x hx => ?_, fun k q hk => ?_, h.ids, h.known, h.gone, hdistinct.2, fun q hq => ?_, nofun⟩
  · by_cases hx : x = p.pair
    · subst hx
      have hlength := howed.attempts
      have hmore := howed.more
      have hrow' := hrow (pendingKey p.pair)
      rw [if_pos rfl] at hrow'
      refine ⟨?_, ?_, ?_, fun q hq => ?_, fun hm => ?_⟩
      · rw [hself, List.map_append, (h.exact p.pair).numbered, List.length_append, List.length_singleton,
          List.range'_concat, hlength, Nat.one_mul,
          Nat.add_comm 1]
        rfl
      · rw [hself, List.length_append, List.length_singleton]
        omega
      · rw [hself, List.dropLast_concat]
        exact howed.failed
      · replace hq := hrow'.symm.trans hq
        split_ifs at hq with hdone
        rw [not_or, Bool.not_eq_true, Nat.not_le] at hdone
        obtain rfl := Option.some.inj hq
        rw [hself, List.length_append, List.length_singleton]
        refine ⟨by rw [← hlength]; rfl, hdone.2, fun l hl => ?_, howed.matched⟩
        rcases List.mem_append.mp hl with hl | hl
        · exact howed.failed l hl
        · rw [List.mem_singleton.mp hl]
          exact hdone.1
      · rw [hself]
        by_cases hsuccess : success = true
        · exact .inr (.inl ⟨_, List.mem_append_right _ (List.mem_singleton.mpr rfl), hsuccess⟩)
        · by_cases hlast : config.maximumAttempts ≤ p.attempts + 1
          · refine .inr (.inr (.inl ⟨?_, fun l hl => ?_⟩))
            · rw [List.length_append, List.length_singleton]
              omega
            · rcases List.mem_append.mp hl with hl | hl
              · exact howed.failed l hl
              · rw [List.mem_singleton.mp hl]
                exact Bool.not_eq_true _ |>.mp hsuccess
          · rw [if_neg (not_or.mpr ⟨hsuccess, hlast⟩)] at hrow'
            exact .inl (Option.isSome_iff_exists.mpr ⟨_, hrow'⟩)
    · have hsame := hrow (pendingKey x)
      rw [if_neg fun heq => hx (pendingKey_inj heq)] at hsame
      exact (h.exact x).frame (hother x hx) hsame Iff.rfl id id
  · by_cases hp : x = p.pair
    · exact hp ▸ howed.matched
    · rw [hother x hp] at hx
      exact h.logged x hx
  · replace hk := (hrow k).symm.trans hk
    split_ifs at hk with hkey hdone
    · obtain rfl := Option.some.inj hk
      exact hkey
    · exact h.keyed k q hk
  · have hne : q.pair ≠ p.pair := fun heq => hdistinct.1 (heq ▸ List.mem_map_of_mem hq)
    exact (h.owed q (by rw [hheld]; exact List.mem_cons_of_mem _ hq)).frame (hother _ hne) id

/-- Every step keeps the books. -/
theorem Sound.step (h : Sound config s) {e : Step} {s' : World} (hstep : step config s e = some s') :
    Sound config s' := by
  cases e with
  | insert e now =>
    simp only [Events.step] at hstep
    split_ifs at hstep with hknown
    obtain rfl := Option.some.inj hstep
    exact h.insert (Option.not_isSome_iff_eq_none.mp hknown) now
  | create w =>
    simp only [Events.step] at hstep
    split_ifs at hstep with hknown
    obtain rfl := Option.some.inj hstep
    exact h.create (not_or.mp hknown).2
  | setEnabled id enabled =>
    obtain ⟨store, hset, rfl⟩ := Option.map_eq_some_iff.mp hstep
    exact h.setEnabled hset
  | delete id =>
    obtain ⟨store, hdelete, rfl⟩ := Option.map_eq_some_iff.mp hstep
    exact h.delete hdelete
  | poll now limit =>
    simp only [Events.step] at hstep
    split at hstep
    · obtain rfl := Option.some.inj hstep
      exact h.poll now limit
    · cases hstep
  | load env =>
    simp only [Events.step] at hstep
    split at hstep
    · next hworker =>
      obtain rfl := Option.some.inj hstep
      exact h.load hworker env
    · cases hstep
  | dismiss =>
    simp only [Events.step] at hstep
    split at hstep
    · next hworker =>
      obtain rfl := Option.some.inj hstep
      exact h.dismiss hworker
    · cases hstep
  | record status success summary now =>
    simp only [Events.step] at hstep
    split at hstep
    · next hworker =>
      obtain rfl := Option.some.inj hstep
      exact h.record hworker status success summary now
    · next hworker =>
      obtain rfl := Option.some.inj hstep
      exact h.record hworker none false summary now
    · cases hstep
  | crash =>
    obtain rfl := Option.some.inj hstep
    exact h.hold (List.nil_sublist _) (fun x hx => hx) nofun

theorem sound_initial (config : WebhookConfig) : Sound config initial := by
  have hrow : ∀ x, row initial x = none := fun x => Table.lookup_empty _
  have hnone : ∀ (k : Bytes) (w : WebhookSubscription), initial.store.subscriptions[k]? = some w →
    k = w.id.uuid.bytes :=
    fun k w hk => absurd ((Table.lookup_empty k).symm.trans hk) nofun
  refine ⟨fun x => ⟨rfl, Nat.zero_le _, fun l hl => absurd hl List.not_mem_nil, fun p hp => ?_,
    fun hm => absurd hm List.not_mem_nil⟩,
    fun x hx => absurd rfl hx, fun k p hk => ?_, hnone, fun x hx => absurd hx List.not_mem_nil,
      fun w hw => absurd hw List.not_mem_nil,
    List.nodup_nil, fun p hp => absurd hp List.not_mem_nil, nofun⟩
  · rw [hrow] at hp
    cases hp
  · exact absurd ((Table.lookup_empty k).symm.trans hk) nofun

end Steps

/-! ## Rows of deleted subscriptions -/

section Clean

variable {config : WebhookConfig} {s : World}

theorem Clean.of_rows (h : Clean s) {t : World} (hrows : ∀ x p, row t x = some p → ∃ q, row s x = some q)
    (hdeleted : t.deleted = s.deleted) :
    Clean t := by
  intro x p hp
  obtain ⟨q, hq⟩ := hrows x p hp
  rw [hdeleted]
  exact h x q hq

theorem clean_insert (h : Sound config s) (hclean : Clean s) (e : StorageEvent) (now : Int) :
    Clean { s with
      store := insertEventTx s.store e now
      matched := s.matched ++ (matching s.store e).map (e.id, ·) } := by
  intro x p hp hdeleted
  replace hp := (lookup_enqueued e.id now (matching s.store e) s.store.pending x).symm.trans hp
  split_ifs at hp with hmem
  · obtain ⟨k, sub, hk, hid⟩ := mem_matching hmem.2
    have hnone := h.gone x.2 hdeleted
    rw [h.ids k sub hk, hid, hnone] at hk
    cases hk
  · exact hclean x p hp hdeleted

theorem clean_delete (h : Sound config s) (hclean : Clean s) {id : WebhookId} {store : EventStore}
    (hdelete : deleteWebhook s.store id = some store) :
    Clean { s with store := store, deleted := s.deleted ++ [id] } := by
  obtain ⟨w, hw, rfl⟩ := Option.map_eq_some_iff.mp hdelete
  intro x p hp hdeleted
  replace hp := (lookup_removed h.keyed id x).symm.trans hp
  split_ifs at hp with hid
  rcases List.mem_append.mp hdeleted with hold | hnew
  · exact hclean x p hp hold
  · exact hid (List.mem_singleton.mp hnew)

/-- The row that an attempt writes back is that of a deleted subscription, or all rows were there before. -/
theorem clean_record_iff (hclean : Clean s) (p : PendingDelivery) (queue : List PendingDelivery) (status : Option Nat)
    (success : Bool) (summary : Option String) (now : Int) :
    Clean { s with
      store := recordAttempt config s.store p (p.attempts + 1) status success summary now
      worker := .between queue } ↔
      ¬ (p.webhookId ∈ s.deleted ∧ success = false ∧ p.attempts + 1 < config.maximumAttempts) := by
  constructor
  · rintro hclean' ⟨hdeleted, hfailed, hmore⟩
    have hrow :
      (recordAttempt config s.store p (p.attempts + 1) status success summary now).pending[pendingKey p.pair]? =
        some (retried p (p.attempts + 1) now) := by
      unfold recordAttempt
      dsimp only
      rw [if_neg (not_or.mpr ⟨Bool.eq_false_iff.mp hfailed, Nat.not_le.mpr hmore⟩), Table.lookup_insert_self]
    exact hclean' p.pair _ hrow hdeleted
  · intro hnot x q hq hdeleted
    unfold row recordAttempt at hq
    dsimp only at hq
    split_ifs at hq with hdone
    · exact hclean x q (Table.of_lookup_erase hq).2 hdeleted
    · rw [Table.lookup_insert] at hq
      split_ifs at hq with hkey
      · rw [not_or, Bool.not_eq_true, Nat.not_le] at hdone
        obtain rfl := pendingKey_inj hkey
        exact hnot ⟨hdeleted, hdone⟩
      · exact hclean x q hq hdeleted

/-- A step from a clean state ends in one, unless it revives a row. -/
theorem clean_step_iff (h : Sound config s) (hclean : Clean s) {e : Step} {t : World}
    (hstep : step config s e = some t) : Clean t ↔ ¬ Revives config s e := by
  cases e with
  | insert e now =>
    simp only [step] at hstep
    split_ifs at hstep
    obtain rfl := Option.some.inj hstep
    exact iff_of_true (clean_insert h hclean e now) id
  | create w =>
    simp only [step] at hstep
    split_ifs at hstep
    obtain rfl := Option.some.inj hstep
    exact iff_of_true (hclean.of_rows (fun x p hp => ⟨p, hp⟩) rfl) id
  | setEnabled id enabled =>
    obtain ⟨store, hset, rfl⟩ := Option.map_eq_some_iff.mp hstep
    obtain ⟨w, -, rfl⟩ := Option.map_eq_some_iff.mp hset
    exact iff_of_true (hclean.of_rows (fun x p hp => ⟨p, hp⟩) rfl) fun h => h
  | delete id =>
    obtain ⟨store, hdelete, rfl⟩ := Option.map_eq_some_iff.mp hstep
    exact iff_of_true (clean_delete h hclean hdelete) fun h => h
  | poll now limit =>
    simp only [step] at hstep
    split at hstep
    · obtain rfl := Option.some.inj hstep
      exact iff_of_true (hclean.of_rows (fun x p hp => ⟨p, hp⟩) rfl) id
    · cases hstep
  | load env =>
    simp only [step] at hstep
    split at hstep
    · obtain rfl := Option.some.inj hstep
      refine iff_of_true ?_ id
      unfold load
      dsimp only
      split <;> exact hclean.of_rows (fun x p hp => ⟨p, hp⟩) rfl
    · cases hstep
  | dismiss =>
    simp only [step] at hstep
    split at hstep
    · next p queue _ =>
      obtain rfl := Option.some.inj hstep
      refine iff_of_true (hclean.of_rows (fun x q hq => ?_) rfl) id
      replace hq := (Table.lookup_erase s.store.pending (pendingKey p.pair) (pendingKey x)).symm.trans hq
      split_ifs at hq
      exact ⟨q, hq⟩
    · cases hstep
  | record status success summary now =>
    simp only [step] at hstep
    split at hstep
    · next p queue hworker =>
      obtain rfl := Option.some.inj hstep
      rw [clean_record_iff hclean]
      simp only [Revives, hworker, Option.isSome_none, Bool.false_eq_true, or_false]
    · next p failure queue hworker =>
      obtain rfl := Option.some.inj hstep
      rw [clean_record_iff hclean]
      simp only [Revives, hworker, Option.isSome_some, or_true, true_and]
    · cases hstep
  | crash =>
    obtain rfl := Option.some.inj hstep
    exact iff_of_true (hclean.of_rows (fun x p hp => ⟨p, hp⟩) rfl) id

theorem clean_run_iff {steps : List Step} (h : Sound config s) (hclean : Clean s) {t : World}
    (hrun : run (step config) s steps = some t) :
    (∀ taken rest u, steps = taken ++ rest → run (step config) s taken = some u → Clean u) ↔
      Meets (step config) (fun s e => ¬ Revives config s e) s steps := by
  induction steps generalizing s with
  | nil =>
    refine iff_of_true (fun taken rest u hsplit htaken => ?_) trivial
    obtain ⟨rfl, -⟩ := List.append_eq_nil_iff.mp hsplit.symm
    obtain rfl := Option.some.inj htaken
    exact hclean
  | cons e steps ih =>
    obtain ⟨s₁, hstep, hrest⟩ := run_cons.mp hrun
    constructor
    · intro hall
      have hclean₁ : Clean s₁ := hall [e] steps s₁ rfl (run_cons.mpr ⟨s₁, hstep, rfl⟩)
      refine ⟨(clean_step_iff h hclean hstep).mp hclean₁, fun s' hs' => ?_⟩
      obtain rfl := Option.some.inj (hstep.symm.trans hs')
      refine (ih (h.step hstep) hclean₁ hrest).mp fun taken rest u hsplit htaken => ?_
      exact hall (e :: taken) rest u (by rw [hsplit]; rfl) (run_cons.mpr ⟨s₁, hstep, htaken⟩)
    · rintro ⟨hfirst, hlater⟩ taken rest u hsplit htaken
      have hclean₁ := (clean_step_iff h hclean hstep).mpr hfirst
      cases taken with
      | nil =>
        obtain rfl := Option.some.inj htaken
        exact hclean
      | cons e' taken =>
        obtain ⟨rfl, hsplit'⟩ := List.cons.inj hsplit
        obtain ⟨s₂, hstep', htaken'⟩ := run_cons.mp htaken
        obtain rfl := Option.some.inj (hstep.symm.trans hstep')
        exact (ih (h.step hstep) hclean₁ hrest).mpr (hlater s₁ hstep) taken rest u hsplit' htaken'

/-- The books are exact after every run; and a deleted subscription has no row at any time of it exactly if no
attempt is recorded for a retry after its subscription was deleted. -/
theorem deliveries_exact_iff (config : WebhookConfig) (steps : List Step) (s : World)
    (hrun : run (step config) initial steps = some s) :
    (∀ x, Exact config s x) ∧
    ((∀ taken rest t, steps = taken ++ rest → run (step config) initial taken = some t → Clean t) ↔
      Meets (step config) (fun s e => ¬ Revives config s e) initial steps) := by
  have hsound : Sound config s := run_preserves (fun s e s' h hs => h.step hs) steps (sound_initial config) hrun
  refine ⟨hsound.exact, clean_run_iff (sound_initial config) (fun x p hp => ?_) hrun⟩
  exact absurd ((Table.lookup_empty _).symm.trans hp) nofun

end Clean

namespace Sample

def hook : WebhookSubscription := ⟨⟨Uuid.ofNat 1⟩, "https://hooks.example", [.objectCreated], none, none, true⟩

def created : StorageEvent := ⟨.ofNat 1, .objectCreated, "b", some "k"⟩

def started : List Step := [.create hook, .insert created 0, .poll 0 10, .load (resolving [.v4 0x01010101])]

/-- A failed attempt, a retry that succeeds, and then the deletion. -/
def served : List Step :=
  started ++ [.record (some 500) false none 0, .poll 100 10, .load (resolving [.v4 0x01010101]),
    .record (some 200) true none 100,
    .delete hook.id]

/-- The deletion while the first attempt is under way. -/
def overtaken : List Step := started ++ [.delete hook.id, .record (some 500) false none 0]

end Sample

theorem deliveries_exact_served : ∃ s, run (step Sample.strict) initial Sample.served = some s ∧
    (logsOf s (Sample.created.id, Sample.hook.id)).map (·.success) = [false, true] ∧ ∀ x, Exact Sample.strict s x :=
  exists_and_of (by decide +kernel) fun s hrun _ => (deliveries_exact_iff Sample.strict Sample.served s hrun).1

/-- The row of a deleted subscription. -/
theorem deliveries_revived : ∃ s, run (step Sample.strict) initial Sample.overtaken = some s ∧
    (row s (Sample.created.id, Sample.hook.id)).isSome ∧ Sample.hook.id ∈ s.deleted := by
  decide +kernel

end RecordStore.Events
