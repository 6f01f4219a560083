import RecordStore.Lib.HashChain
import RecordStore.Audit.Walk

/-!
# Audit.Appends — the chain that the writer produces

The acknowledged events are the chain: `Chained` says that position `i` of the index leads to the record
of the `i`-th acknowledged event, linked to the one before it, and that the persisted head is the end of
the chain.  Every append keeps it, however the appends are grouped and whichever of them fail, as long
as a sequence number is left; such a log verifies.
-/

namespace RecordStore.Audit

open RecordStore.Lib RecordStore.Core Tx

variable {sha256 : Bytes → Digest32} {codec : Codec} {log log' : AuditLog}

/-! ## One append -/

theorem appendIn_returns {event : AuditEvent} {u : Unit} :
    Returns (appendIn sha256 codec event) log u log' ↔
      ∃ sequence previous, readChainHead sha256 log = .ok (sequence, previous) ∧ log.events[eventKey event]? = none ∧
        log' =
          { events := log.events.insert (eventKey event)
              (codec.encodeRecord (chainedRecord sha256 sequence previous event))
            sequenceIndex := log.sequenceIndex.insert sequence (eventKey event)
            chainState := (log.chainState.insert nextSequenceKey (beBytes 8 (saturatingAdd sequence 1).toNat)).insert
              headHashKey (hashEvent sha256 sequence previous event).bytes } := by
  unfold appendIn
  rw [returns_bind]
  simp only [returns_read]
  constructor
  · rintro ⟨head, log, ⟨rfl, rfl⟩, h⟩
    cases hhead : readChainHead sha256 log with
    | error e =>
      rw [hhead] at h
      exact absurd h returns_throw
    | ok pair =>
      obtain ⟨sequence, previous⟩ := pair
      rw [hhead] at h
      simp only [returns_bind, returns_read, returns_modify, returns_ensure, returns_okOr, chainedRecord] at h
      obtain ⟨_, _, ⟨rfl, rfl⟩, _, _, rfl, _, _, ⟨hfree, rfl⟩, _, _, rfl, links, _, ⟨hlinks, rfl⟩, _, _, rfl, rfl⟩ := h
      obtain rfl := Option.some.inj hlinks
      exact ⟨sequence, previous, rfl, hfree, rfl⟩
  · rintro ⟨sequence, previous, hhead, hfree, rfl⟩
    refine ⟨_, _, ⟨rfl, rfl⟩, ?_⟩
    rw [hhead]
    simp only [returns_bind, returns_read, returns_modify, returns_ensure, returns_okOr, chainedRecord]
    exact ⟨_, _, ⟨rfl, rfl⟩, .unit, _, rfl, .unit, _, ⟨hfree, rfl⟩, .unit, _, rfl, _, _, ⟨rfl, rfl⟩, .unit, _, rfl, rfl⟩

/-- The writer answers as if each event had its own transaction. -/
theorem commitBatch_eq (batch : List AuditEvent) (log : AuditLog) :
    commitBatch sha256 codec batch log =
      GroupCommit.oneByOne (fun _ => false) (appendIn sha256 codec) batch log := by
  unfold commitBatch
  rcases returns_or_fails (batch.mapM (appendIn sha256 codec)) log with ⟨outs, log', hr⟩ | ⟨e, hf⟩
  · rw [commit_of_returns hr, GroupCommit.oneByOne_of_returns hr]
    have hreplies : ∀ (l : List AuditEvent) {outs : List Unit} {s : AuditLog},
        Returns (l.mapM (appendIn sha256 codec)) s outs log' →
          (l.map fun _ => some (.ok ())) = outs.map fun a => some (Except.ok (ε := AuditError) a) := by
      intro l
      induction l with
      | nil =>
        intro outs s h
        rw [(returns_mapM_nil.mp h).1]
        rfl
      | cons e l ih =>
        intro outs s h
        obtain ⟨_, _, rest, -, h2, rfl⟩ := returns_mapM_cons.mp h
        rw [List.map_cons, List.map_cons, ih h2]
    simp only [hreplies batch hr]
  · rw [commit_of_fails hf]
    match batch with
    | [] => rfl
    | [event] =>
      rcases GroupCommit.fails_mapM_cons hf with h | ⟨_, s, -, h⟩
      · simp [GroupCommit.oneByOne, commit_of_fails h]
      · exact absurd h fails_pure
    | _ :: _ :: _ => rfl

/-! ## The chain -/

section Chain

variable (sha256)

/-- The link of the audit chain at a position. -/
def auditLink (i : Nat) (previous : Digest32) (event : AuditEvent) : Digest32 :=
  hashEvent sha256 (UInt64.ofNat i) previous event

/-- The hash after a list of events. -/
def headOf (events : List AuditEvent) : Digest32 :=
  HashChain.head (auditLink sha256) (genesisHash sha256) events

/-- The record of the event at position `i`. -/
def recordAt (events : List AuditEvent) (i : Nat) (event : AuditEvent) : AuditRecord :=
  chainedRecord sha256 (UInt64.ofNat i) (headOf sha256 (events.take i)) event

/-- The log holds the chain of the events, and nothing else is indexed. -/
structure Chained (codec : Codec) (log : AuditLog) (events : List AuditEvent) : Prop where
  head : readChainHead sha256 log = .ok (UInt64.ofNat events.length, headOf sha256 events)
  index : ∀ i : UInt64, log.sequenceIndex[i]? = (events[i.toNat]?).map eventKey
  stored : ∀ i event, events[i]? = some event →
    log.events[eventKey event]? = some (codec.encodeRecord (recordAt sha256 events i event))

end Chain

theorem headOf_take_succ {events : List AuditEvent} {i : Nat} {event : AuditEvent} (h : events[i]? = some event) :
    headOf sha256 (events.take (i + 1)) =
      hashEvent sha256 (UInt64.ofNat i) (headOf sha256 (events.take i)) event :=
  HashChain.head_take_succ h

theorem readChainHead_insert {sequence : UInt64} {hash : Digest32} (events : Table Bytes Bytes)
    (index : Table UInt64 Bytes) (state : Table String Bytes) :
    readChainHead sha256 ⟨events, index,
      (state.insert nextSequenceKey (beBytes 8 sequence.toNat)).insert headHashKey hash.bytes⟩ =
      .ok (sequence, hash) := by
  have hnext : ((state.insert nextSequenceKey (beBytes 8 sequence.toNat)).insert headHashKey
      hash.bytes)[nextSequenceKey]? = some (beBytes 8 sequence.toNat) := by
    rw [Table.lookup_insert, if_neg (by decide), Table.lookup_insert_self]
  have hhead : ((state.insert nextSequenceKey (beBytes 8 sequence.toNat)).insert headHashKey
      hash.bytes)[headHashKey]? = some hash.bytes := Table.lookup_insert_self _ _ _
  have hvalue : UInt64.ofNat (beValue (beBytes 8 sequence.toNat)) = sequence := by
    rw [beValue_beBytes sequence.toNat_lt, UInt64.ofNat_toNat]
  simp only [readChainHead, hnext, hhead, hvalue, length_beBytes, hash.length_bytes, if_true, dite_true, bind,
    Except.bind, pure, Except.pure]

theorem Chained.empty (legacy : Table Bytes Bytes) : Chained sha256 codec ⟨legacy, ∅, ∅⟩ [] := by
  refine ⟨rfl, ?_, ?_⟩
  · intro i
    exact Table.lookup_empty i
  · intro i event h
    simp at h

/-- A successful append puts the event at the end of the chain. -/
theorem Chained.append {events : List AuditEvent} {event : AuditEvent} {u : Unit}
    (h : Chained sha256 codec log events) (hn : events.length + 1 < 2 ^ 64)
    (hret : Returns (appendIn sha256 codec event) log u log') : Chained sha256 codec log' (events ++ [event]) := by
  obtain ⟨sequence, previous, hhead, hfree, rfl⟩ := appendIn_returns.mp hret
  obtain ⟨rfl, rfl⟩ := Prod.mk.inj (Except.ok.inj (hhead.symm.trans h.head))
  have hlast : headOf sha256 (events ++ [event]) =
      hashEvent sha256 (UInt64.ofNat events.length) (headOf sha256 events) event := HashChain.head_concat _ _ _ _
  refine ⟨?_, ?_, ?_⟩
  · rw [readChainHead_insert, next_position hn, hlast, List.length_append]
    rfl
  · intro i
    show (log.sequenceIndex.insert _ _)[i]? = _
    rw [Table.lookup_insert, h.index]
    by_cases hi : i = UInt64.ofNat events.length
    · rw [if_pos hi, hi, toNat_position (by omega)]
      simp
    · rw [if_neg hi]
      have hne : i.toNat ≠ events.length := by
        intro heq
        exact hi (by rw [← heq, UInt64.ofNat_toNat])
      rcases Nat.lt_or_ge i.toNat events.length with hlt | hge
      · rw [List.getElem?_append_left hlt]
      · rw [List.getElem?_eq_none hge, List.getElem?_eq_none (by simp; omega)]
  · intro i e he
    show (log.events.insert _ _)[eventKey e]? = _
    rw [Table.lookup_insert]
    rcases Nat.lt_or_ge i events.length with hlt | hge
    · rw [List.getElem?_append_left hlt] at he
      have hold := h.stored i e he
      have hkey : ¬ eventKey e = eventKey event := by
        intro heq
        rw [heq, hfree] at hold
        exact Option.some_ne_none _ hold.symm
      rw [if_neg hkey, hold]
      unfold recordAt
      rw [List.take_append_of_le_length (Nat.le_of_lt hlt)]
    · rw [List.getElem?_append_right hge] at he
      obtain ⟨hi, rfl⟩ : i = events.length ∧ event = e := by
        rcases Nat.eq_or_lt_of_le hge with heq | hgt
        · rw [← heq, Nat.sub_self] at he
          exact ⟨heq.symm, Option.some.inj he⟩
        · rw [List.getElem?_eq_none (by simp; omega)] at he
          exact absurd he (by simp)
      rw [if_pos rfl, hi]
      unfold recordAt
      rw [List.take_left]

/-! ## Batches and runs -/

section Runs

/-- The acknowledged events of a writer that gives each append its own transaction. -/
theorem Chained.oneByOne {events batch : List AuditEvent} (h : Chained sha256 codec log events)
    (hn : (events ++ acknowledged batch
      (GroupCommit.oneByOne (fun _ => false) (appendIn sha256 codec) batch log).1).length < 2 ^ 64) :
    Chained sha256 codec (GroupCommit.oneByOne (fun _ => false) (appendIn sha256 codec) batch log).2
      (events ++ acknowledged batch (GroupCommit.oneByOne (fun _ => false) (appendIn sha256 codec) batch log).1) := by
  induction batch generalizing log events with
  | nil => simpa [GroupCommit.oneByOne, acknowledged] using h
  | cons event batch ih =>
    rcases returns_or_fails (appendIn sha256 codec event) log with ⟨u, log₁, hr⟩ | ⟨e, hf⟩
    · have hack : ∀ rest, acknowledged (event :: batch) (some (.ok u) :: rest) = event :: acknowledged batch rest := by
        intro rest
        rfl
      simp only [GroupCommit.oneByOne, commit_of_returns hr, hack] at hn ⊢
      rw [List.append_cons] at hn ⊢
      refine ih (h.append ?_ hr) hn
      simp only [List.length_append, List.length_singleton] at hn
      omega
    · have hack : ∀ rest, acknowledged (event :: batch) (some (.error e) :: rest) = acknowledged batch rest := by
        intro rest
        rfl
      simp only [GroupCommit.oneByOne, commit_of_fails hf, Bool.false_eq_true, if_false, hack] at hn ⊢
      exact ih h hn

/-- One operation keeps the chain while a sequence number is left. -/
theorem Chained.serve {st : Served} {op : Operation} (h : Chained sha256 codec st.log st.acked)
    (hn : (serve sha256 codec st op).acked.length < 2 ^ 64) :
    Chained sha256 codec (serve sha256 codec st op).log (serve sha256 codec st op).acked := by
  cases op with
  | reopen => exact h
  | batch events =>
    have hserve : Audit.serve sha256 codec st (.batch events) =
        ⟨(GroupCommit.oneByOne (fun _ => false) (appendIn sha256 codec) events st.log).2,
          st.acked ++ acknowledged events
            (GroupCommit.oneByOne (fun _ => false) (appendIn sha256 codec) events st.log).1⟩ := by
      simp only [Audit.serve, commitBatch_eq]
    rw [hserve] at hn ⊢
    exact h.oneByOne hn

theorem acked_le_serve (st : Served) (op : Operation) : st.acked.length ≤ (serve sha256 codec st op).acked.length := by
  cases op with
  | reopen => exact Nat.le_refl _
  | batch events =>
    show st.acked.length ≤ (st.acked ++ _).length
    rw [List.length_append]
    exact Nat.le_add_right _ _

theorem serveAll_concat (legacy : Table Bytes Bytes) (ops : List Operation) (op : Operation) :
    serveAll sha256 codec legacy (ops ++ [op]) = serve sha256 codec (serveAll sha256 codec legacy ops) op := by
  unfold serveAll
  rw [List.foldl_append]
  rfl

/-- Every run keeps the chain while a sequence number is left. -/
theorem chained_run (legacy : Table Bytes Bytes) (ops : List Operation)
    (hn : (serveAll sha256 codec legacy ops).acked.length < 2 ^ 64) :
    Chained sha256 codec (serveAll sha256 codec legacy ops).log (serveAll sha256 codec legacy ops).acked := by
  induction ops using List.reverseRecOn with
  | nil => exact Chained.empty legacy
  | append_singleton ops op ih =>
    rw [serveAll_concat] at hn ⊢
    exact (ih (lt_of_le_of_lt (acked_le_serve _ op) hn)).serve hn

end Runs

/-! ## Verification of the chain -/

section Verified

variable {events : List AuditEvent}

theorem Chained.load (h : Chained sha256 codec log events) (hn : events.length < 2 ^ 64) {i : Nat}
    {event : AuditEvent} (he : events[i]? = some event) :
    load codec log (UInt64.ofNat i) = .ok (some (recordAt sha256 events i event)) := by
  obtain ⟨hi, -⟩ := List.getElem?_eq_some_iff.mp he
  have hkey : log.sequenceIndex[UInt64.ofNat i]? = some (eventKey event) := by
    rw [h.index, toNat_position (by omega), he]
    rfl
  unfold Audit.load
  simp only [hkey, h.stored i event he, decodeStored, codec.decode_encode]
  rfl

theorem Chained.hashAt (h : Chained sha256 codec log events) (hn : events.length < 2 ^ 64) {i : Nat}
    (hi : i < events.length) : hashAt sha256 codec log i = headOf sha256 (events.take i) := by
  cases i with
  | zero => rfl
  | succ i =>
    have he : events[i]? = some (events.get ⟨i, by omega⟩) := List.getElem?_eq_getElem _
    rw [hashAt_succ (by omega) (h.load hn he) rfl]
    exact (headOf_take_succ he).symm

theorem Chained.intactAt (h : Chained sha256 codec log events) (hn : events.length < 2 ^ 64) {i : Nat}
    (hi : i < events.length) : IntactAt sha256 codec log i := by
  have he : events[i]? = some (events.get ⟨i, hi⟩) := List.getElem?_eq_getElem _
  refine ⟨_, h.load hn he, ?_⟩
  rw [h.hashAt hn hi]
  exact verifyAgainst_intact.mpr ⟨_, rfl, rfl⟩

/-- What the log of the events reports to a walk with any page limits. -/
theorem Chained.walk (h : Chained sha256 codec log events) (hn : events.length < 2 ^ 64) {limits : List Nat}
    (hl : ∀ limit ∈ limits, 1 ≤ limit ∧ limit ≤ 10000) :
    ∃ pages, walk sha256 codec log limits 0 = .ok pages ∧ totalChecked pages = min limits.sum events.length ∧
      (∀ page ∈ pages, page.intact = page.checked ∧ page.Clean) ∧
      (limits ≠ [] → (complete pages = true ↔ events.length ≤ limits.sum)) := by
  rcases Nat.eq_zero_or_pos events.length with hzero | hpos
  · -- an empty log is one page that checks nothing
    cases limits with
    | nil => exact ⟨[], rfl, by simp [totalChecked], by simp, fun hne => absurd rfl hne⟩
    | cons limit limits =>
      have hhead := h.head
      rw [hzero] at hhead
      obtain ⟨hlimit, -⟩ := List.forall_mem_cons.mp hl
      have hpage : verifyChain sha256 codec log 0 limit = .ok ⟨0, 0, 0, 0, none, none, []⟩ := by
        unfold verifyChain
        simp [hhead, hlimit, bind, Except.bind, pure, Except.pure, Audit.startHash]
      refine ⟨_, walk_cons hpage, ?_, ?_, ?_⟩
      · simp [totalChecked, hzero]
      · simpa using ⟨rfl, rfl⟩
      · intro _
        simp [complete, hzero]
  · obtain ⟨pages, h1, h2, h3, h4⟩ := walk_intact hn h.head (fun j hj => h.intactAt hn hj) limits hpos rfl hl
    exact ⟨pages, h1, h2, h3, fun _ => h4⟩

end Verified

/-! ## The result -/

/-- While there are fewer than `2 ^ 64` acknowledged events, the positions from `0` on hold exactly these
events in the order of their acknowledgement, each record linked to the one before it and the first to the
genesis hash, and a walk from `0` with any page limits finds every one of them intact. -/
theorem audit_chain_verifies (sha256 : Bytes → Digest32) (codec : Codec) (legacy : Table Bytes Bytes)
    (ops : List Operation) (hn : (serveAll sha256 codec legacy ops).acked.length < 2 ^ 64) :
    (∃ hash : Nat → Digest32, hash 0 = genesisHash sha256 ∧ ∀ i : UInt64,
      load codec (serveAll sha256 codec legacy ops).log i =
        .ok (((serveAll sha256 codec legacy ops).acked[i.toNat]?).map fun event =>
          ⟨i, some ⟨hash i.toNat, hash (i.toNat + 1)⟩, event⟩)) ∧
    ∀ limits : List Nat, (∀ limit ∈ limits, 1 ≤ limit ∧ limit ≤ 10000) →
      ∃ pages, walk sha256 codec (serveAll sha256 codec legacy ops).log limits 0 = .ok pages ∧
        totalChecked pages = min limits.sum (serveAll sha256 codec legacy ops).acked.length ∧
        (∀ page ∈ pages, page.intact = page.checked ∧ page.unchained = 0 ∧ page.problems = []) ∧
        (limits ≠ [] → (complete pages = true ↔ (serveAll sha256 codec legacy ops).acked.length ≤ limits.sum)) := by
  have h := chained_run legacy ops hn
  generalize serveAll sha256 codec legacy ops = st at h hn ⊢
  refine ⟨⟨fun i => headOf sha256 (st.acked.take i), rfl, ?_⟩, ?_⟩
  · intro i
    cases he : st.acked[i.toNat]? with
    | none =>
      unfold load
      simp only [h.index, he, Option.map_none]
    | some event =>
      have hload := h.load hn he
      rw [UInt64.ofNat_toNat] at hload
      rw [hload, Option.map_some]
      show Except.ok (some (recordAt sha256 st.acked i.toNat event)) =
        Except.ok (some ⟨i, some ⟨headOf sha256 (st.acked.take i.toNat), headOf sha256 (st.acked.take (i.toNat + 1))⟩,
          event⟩)
      rw [headOf_take_succ he, UInt64.ofNat_toNat]
      unfold recordAt chainedRecord
      rw [UInt64.ofNat_toNat]
  · intro limits hl
    obtain ⟨pages, h1, h2, h3, h4⟩ := h.walk hn hl
    exact ⟨pages, h1, h2, fun page hp => ⟨(h3 page hp).1, (h3 page hp).2.unchained, (h3 page hp).2.problems⟩, h4⟩

/-! ## The last sequence number -/

namespace Sample

/-- The event numbered `k`. -/
def event (k : Nat) : AuditEvent where
  eventId := ⟨Uuid.ofNat k⟩
  timestamp := .epoch
  requestId := none
  principal := "system:test"
  credentialId := none
  sourceIp := none
  operation := "s3:PUT"
  resource := "bucket:records/a"
  result := .success
  metadata := ∅

/-- The first `m` events, each in a batch of its own. -/
def appends (m : Nat) : List Operation := (List.range m).map fun k => .batch [event k]

end Sample

theorem eventKey_sample {j k : Nat} (hj : j < 256 ^ 16) (hk : k < 256 ^ 16)
    (h : eventKey (Sample.event j) = eventKey (Sample.event k)) : j = k := by
  have huuid : beBytes 16 j = beBytes 16 k := List.append_cancel_left h
  have hvalue := congrArg beValue huuid
  rwa [beValue_beBytes hj, beValue_beBytes hk] at hvalue

/-- A new event is acknowledged. -/
theorem serve_fresh (codec : Codec) {st : Served} {event : AuditEvent} {sequence : UInt64} {previous : Digest32}
    (hhead : readChainHead sha256 st.log = .ok (sequence, previous)) (hfree : st.log.events[eventKey event]? = none) :
    ∃ log', Returns (appendIn sha256 codec event) st.log () log' ∧
      serve sha256 codec st (.batch [event]) = ⟨log', st.acked ++ [event]⟩ := by
  obtain ⟨log', hret⟩ : ∃ log', Returns (appendIn sha256 codec event) st.log () log' :=
    ⟨_, appendIn_returns.mpr ⟨sequence, previous, hhead, hfree, rfl⟩⟩
  refine ⟨log', hret, ?_⟩
  simp only [serve, commitBatch_eq, GroupCommit.oneByOne, commit_of_returns hret]
  rfl

/-- Every one of fewer than `2 ^ 64` new events is acknowledged, and the later ones stay new. -/
theorem acked_sample (sha256 : Bytes → Digest32) (codec : Codec) {m : Nat} (hm : m < 2 ^ 64) :
    (serveAll sha256 codec ∅ (Sample.appends m)).acked = (List.range m).map Sample.event ∧
      Chained sha256 codec (serveAll sha256 codec ∅ (Sample.appends m)).log ((List.range m).map Sample.event) ∧
      ∀ k, m ≤ k → k < 256 ^ 16 →
        (serveAll sha256 codec ∅ (Sample.appends m)).log.events[eventKey (Sample.event k)]? = none := by
  induction m with
  | zero => exact ⟨rfl, Chained.empty ∅, fun k _ _ => Table.lookup_empty _⟩
  | succ m ih =>
    obtain ⟨hacked, hchain, hfree⟩ := ih (Nat.lt_of_succ_lt hm)
    have hops : Sample.appends (m + 1) = Sample.appends m ++ [.batch [Sample.event m]] := by
      simp [Sample.appends, List.range_succ]
    have hsize : m < 256 ^ 16 := lt_trans (Nat.lt_of_succ_lt hm) (by norm_num)
    obtain ⟨log', hret, hserve⟩ := serve_fresh codec hchain.head (hfree m (Nat.le_refl m) hsize)
    rw [hops, serveAll_concat, hserve, hacked, List.range_succ, List.map_append]
    refine ⟨rfl, hchain.append (by simpa using hm) hret, ?_⟩
    intro k hk hk'
    obtain ⟨_, _, -, -, rfl⟩ := appendIn_returns.mp hret
    show (Std.ExtTreeMap.insert _ _ _)[eventKey (Sample.event k)]? = none
    rw [Table.lookup_insert, if_neg, hfree k (by omega) hk']
    intro heq
    have := eventKey_sample hk' hsize heq
    omega

/-- After `2 ^ 64` acknowledged events no walk checks as many records: the sequence has saturated. -/
theorem saturated_walk_short (sha256 : Bytes → Digest32) (codec : Codec) :
    (serveAll sha256 codec ∅ (Sample.appends (2 ^ 64))).acked.length = 2 ^ 64 ∧
      ∀ limits pages, walk sha256 codec (serveAll sha256 codec ∅ (Sample.appends (2 ^ 64))).log limits 0 = .ok pages →
        totalChecked pages ≠ (serveAll sha256 codec ∅ (Sample.appends (2 ^ 64))).acked.length := by
  -- `m` is the last sequence number
  obtain ⟨m, hm⟩ : ∃ m : Nat, 2 ^ 64 = m + 1 := ⟨2 ^ 64 - 1, by norm_num⟩
  rw [hm]
  obtain ⟨hacked, hchain, hfree⟩ := acked_sample sha256 codec (m := m) (by omega)
  have hops : Sample.appends (m + 1) = Sample.appends m ++ [.batch [Sample.event m]] := by
    simp [Sample.appends, List.range_succ]
  have hsize : m < 256 ^ 16 := by
    have : (2 : Nat) ^ 64 < 256 ^ 16 := by norm_num
    omega
  obtain ⟨log', hret, hserve⟩ := serve_fresh codec hchain.head (hfree m (Nat.le_refl m) hsize)
  have hlength : (serveAll sha256 codec ∅ (Sample.appends (m + 1))).acked.length = m + 1 := by
    rw [hops, serveAll_concat, hserve, hacked, List.length_append, List.length_map, List.length_range,
      List.length_singleton]
  refine ⟨hlength, ?_⟩
  intro limits pages hwalk
  rw [hlength]
  rw [hops, serveAll_concat, hserve] at hwalk
  have hpos : 0 < m := by omega
  obtain ⟨sequence, previous, hhead, -, rfl⟩ := appendIn_returns.mp hret
  obtain ⟨rfl, rfl⟩ := Prod.mk.inj (Except.ok.inj (hhead.symm.trans hchain.head))
  have hlast : saturatingAdd (UInt64.ofNat ((List.range m).map Sample.event).length) 1 = UInt64.ofNat m := by
    apply UInt64.toNat.inj
    rw [List.length_map, List.length_range, saturatingAdd_toNat, toNat_position (by omega)]
    show min (m + 1) (2 ^ 64 - 1) = m
    omega
  have hle := walk_checked_le (by omega) (by rw [readChainHead_insert, hlast]) hpos hwalk
  omega

/-! ## A codec -/

namespace Sample

open Code

def texts : Code String := (list byte).via asBytes fromUtf8 fromUtf8_asBytes

def numbers : Code Nat := (list byte).via (List.replicate · 0) (fun l => some l.length) (by simp)

def uuids : Code Uuid :=
  (list byte).via Uuid.bytes (fun b => if h : b.length = 16 then some ⟨b, h⟩ else none) fun u => dif_pos u.length_bytes

def digests : Code Digest32 :=
  (list byte).via Digest32.bytes (fun b => if h : b.length = 32 then some ⟨b, h⟩ else none) fun d =>
  dif_pos d.length_bytes

def links : Code ChainLinks :=
  (digests.pair digests).via (fun l => (l.previousHash, l.recordHash)) (fun x => some ⟨x.1, x.2⟩) fun _ => rfl

def times : Code DateTime :=
  ((numbers.pair numbers).pair numbers).via (fun t => ((t.seconds.toNat, (-t.seconds).toNat), t.nanoseconds))
    (fun x =>
      let seconds : Int := x.1.1 - x.1.2
      if h : (-8334601228800 ≤ seconds ∧ seconds ≤ 8210266876799) ∧ x.2 < 2000000000 then
        some ⟨seconds, x.2, h.1, h.2⟩
      else none)
    fun t => by simp [t.seconds_range, t.nanoseconds_lt]

def results : Code AuditResult :=
  byte.via AuditResult.canonicalTag (fun n => [AuditResult.success, .denied, .failure, .attempted][n.toNat]?)
    fun r => by cases r <;> rfl

def tables : Code (Table String String) :=
  (list (texts.pair texts)).via (·.toList) (fun l => some (l.foldl (fun t r => t.insert r.1 r.2) ∅))
    fun t => congrArg some (Table.foldl_insert_toList t)

def events : Code AuditEvent :=
  ((uuids.pair times).pair ((option texts).pair (texts.pair ((option uuids).pair ((option texts).pair
      (texts.pair (texts.pair (results.pair tables)))))))).via
    (fun e => ((e.eventId.uuid, e.timestamp), e.requestId, e.principal, e.credentialId, e.sourceIp, e.operation,
      e.resource, e.result, e.metadata))
    (fun ((id, time), request, principal, credential, ip, operation, resource, result, metadata) =>
      some ⟨⟨id⟩, time, request, principal, credential, ip, operation, resource, result, metadata⟩)
    fun _ => rfl

def records : Code AuditRecord :=
  (numbers.pair ((option links).pair events)).via (fun r => (r.sequence.toNat, r.chain, r.event))
    (fun (sequence, chain, event) => some ⟨.ofNat sequence, chain, event⟩) fun r => by simp

/-- A codec for records; there are no events from before the chain. -/
def coding : Codec where
  encodeRecord := records.write
  decodeRecord value := (records.read value).map Prod.fst
  decodeEvent _ := none
  decode_encode record := by rw [← List.append_nil (records.write record), records.read_write, Option.map_some]

/-- A digest: the last thirty-two bytes. -/
def digest (bytes : Bytes) : Digest32 := ⟨beBytes 32 (beValue bytes), length_beBytes _ _⟩

end Sample

/-- The walk that stays short, for a concrete hash and codec. -/
theorem audit_chain_saturates :
    (serveAll Sample.digest Sample.coding ∅ (Sample.appends (2 ^ 64))).acked.length = 2 ^ 64 ∧
      ∀ limits pages, walk Sample.digest Sample.coding
          (serveAll Sample.digest Sample.coding ∅ (Sample.appends (2 ^ 64))).log limits 0 = .ok pages →
        totalChecked pages ≠ (serveAll Sample.digest Sample.coding ∅ (Sample.appends (2 ^ 64))).acked.length :=
  saturated_walk_short Sample.digest Sample.coding

theorem audit_chain_verifies_two :
    ∃ pages, walk Sample.digest Sample.coding (serveAll Sample.digest Sample.coding ∅ (Sample.appends 2)).log [1, 1] 0 =
      .ok pages ∧ totalChecked pages = 2 ∧ complete pages = true := by
  have hlength : (serveAll Sample.digest Sample.coding ∅ (Sample.appends 2)).acked.length = 2 := by
    rw [(acked_sample Sample.digest Sample.coding (m := 2) (by norm_num)).1]
    rfl
  obtain ⟨pages, h1, h2, -, h3⟩ := (audit_chain_verifies Sample.digest Sample.coding ∅ (Sample.appends 2)
    (by rw [hlength]; norm_num)).2 [1, 1] (by simp)
  rw [hlength] at h2 h3
  exact ⟨pages, h1, h2, (h3 (by simp)).mpr (Nat.le_refl 2)⟩

end RecordStore.Audit
