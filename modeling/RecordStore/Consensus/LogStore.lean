import RecordStore.Lib.Pool
import RecordStore.Lib.Window
import RecordStore.Consensus.StateMachine

/-!
# Consensus.LogStore — the durable log and what a crash leaves of it

`RedbLogStore`.  The entries and the marker of what was purged are in one database.  An append and a
truncation are one transaction each; a purge is two: the marker is moved, and then the entries are removed.
-/

namespace RecordStore.Consensus

open RecordStore.Lib

variable {γ μ : Type}

/-! ## The store -/

/-- The position of an entry. -/
def LogId.number (id : LogId) : Nat := id.index.toNat

structure Vote where
  term : UInt64
  node : UInt64
  committed : Bool
  deriving DecidableEq

/-- The tables of the log database. -/
structure LogStore (γ μ : Type) where
  entries : Table Nat (Entry γ μ)
  vote : Option Vote
  committed : Option LogId
  lastPurged : Option LogId

structure LogState where
  lastPurgedLogId : Option LogId
  lastLogId : Option LogId
  deriving DecidableEq

namespace LogStore

def empty : LogStore γ μ := ⟨∅, none, none, none⟩

/-- The position that the last row of the table carries. -/
def lastEntry (s : LogStore γ μ) : Option LogId := s.entries.toList.getLast?.map (·.2.logId)

def getLogState (s : LogStore γ μ) : LogState := ⟨s.lastPurged, s.lastEntry.or s.lastPurged⟩

def saveVote (vote : Vote) (s : LogStore γ μ) : LogStore γ μ := { s with vote := some vote }

def saveCommitted (committed : Option LogId) (s : LogStore γ μ) : LogStore γ μ := { s with committed := committed }

def append (es : List (Entry γ μ)) (s : LogStore γ μ) : LogStore γ μ :=
  { s with entries := es.foldl (fun t e => t.insert e.logId.number e) s.entries }

def truncate (id : LogId) (s : LogStore γ μ) : LogStore γ μ :=
  { s with entries := s.entries.filter fun i _ => decide (i < id.number) }

/-- The first transaction of a purge. -/
def markPurged (id : LogId) (s : LogStore γ μ) : LogStore γ μ := { s with lastPurged := some id }

/-- The second transaction of a purge. -/
def removePurged (id : LogId) (s : LogStore γ μ) : LogStore γ μ :=
  { s with entries := s.entries.filter fun i _ => decide (id.number < i) }

end LogStore

/-- `next_index`: the number after a position, zero before the first. -/
def nextIndex (id : Option LogId) : Nat := id.elim 0 (·.number + 1)

/-! ## Calls and crashes -/

/-- The log database under a member. -/
structure Log (γ μ : Type) where
  store : LogStore γ μ
  -- a purge that is between its two transactions
  purging : Option LogId
  -- history: how many entries are committed and applied, and those whose append was acknowledged and that were neither
  -- truncated nor purged since
  committed : Nat
  applied : Nat
  acknowledged : List (Entry γ μ)

inductive LogEvent (γ μ : Type) where
  -- without an acknowledgement when the member crashes after the transaction
  | append (es : List (Entry γ μ)) (acknowledged : Bool)
  | truncate (id : LogId)
  | purge (id : LogId)
  | removePurged
  | saveVote (vote : Vote)
  | saveCommitted (committed : Option LogId)
  | commit (n : Nat)
  | apply (n : Nat)
  -- a crash, and the store is opened again
  | crash

namespace Log

def initial : Log γ μ := ⟨.empty, none, 0, 0, []⟩

/-- The store that is found after a crash. -/
def crashed (s : Log γ μ) : Log γ μ := { s with purging := none }

/-- Calls are made one after the other. -/
def step (s : Log γ μ) : LogEvent γ μ → Option (Log γ μ)
  | .crash => some s.crashed
  | .removePurged => s.purging.map fun id => { s with store := s.store.removePurged id, purging := none }
  | e =>
    if s.purging.isSome then none
    else match e with
      | .append es acknowledged =>
        some { s with
          store := s.store.append es
          acknowledged := if acknowledged then s.acknowledged ++ es else s.acknowledged }
      | .truncate id =>
        some { s with
          store := s.store.truncate id
          acknowledged := s.acknowledged.filter fun e => decide (e.logId.number < id.number) }
      | .purge id =>
        some { s with
          store := s.store.markPurged id
          purging := some id
          acknowledged := s.acknowledged.filter fun e => decide (id.number < e.logId.number) }
      | .saveVote vote => some { s with store := s.store.saveVote vote }
      | .saveCommitted committed => some { s with store := s.store.saveCommitted committed }
      | .commit n => some { s with committed := max s.committed n }
      | .apply n => some { s with applied := max s.applied n }
      | _ => none

/-- What Raft calls: entries are appended behind the last one, the log is cut above what is committed, and what is
purged is applied and was not purged before. -/
def Permitted (s : Log γ μ) : LogEvent γ μ → Prop
  | .append es _ => Numbered (·.logId.number) (nextIndex s.store.getLogState.lastLogId) es
  | .truncate id => s.committed ≤ id.number
  | .purge id => nextIndex s.store.lastPurged ≤ nextIndex (some id) ∧ nextIndex (some id) ≤ s.applied
  | .apply n => n ≤ s.committed
  | _ => True

/-- A crash between the two transactions of a purge finds no entry that the second one would have removed. -/
def Clean (s : Log γ μ) : LogEvent γ μ → Prop
  | .crash => ∀ id ∈ s.purging, ∀ r ∈ s.store.entries.toList, id.number < r.1
  | _ => True

instance (s : Log γ μ) : ∀ e : LogEvent γ μ, Decidable (s.Permitted e)
  | .append _ _ | .truncate _ | .purge _ | .apply _ => by
    unfold Permitted
    infer_instance
  | .removePurged | .saveVote _ | .saveCommitted _ | .commit _ | .crash => inferInstanceAs (Decidable True)

instance (s : Log γ μ) : ∀ e : LogEvent γ μ, Decidable (s.Clean e)
  | .crash => by
    unfold Clean
    infer_instance
  | .append _ _ | .truncate _ | .purge _ | .apply _ | .removePurged | .saveVote _ | .saveCommitted _ | .commit _ =>
    inferInstanceAs (Decidable True)

/-- What the member relies on when it opens the store. -/
structure Intact (s : Log γ μ) : Prop where
  ordered : ∀ purged, s.store.getLogState.lastPurgedLogId = some purged →
    ∃ last, s.store.getLogState.lastLogId = some last ∧ purged.index ≤ last.index
  emptied : s.store.entries = ∅ → s.store.getLogState.lastLogId = s.store.getLogState.lastPurgedLogId
  contiguous : ∀ i, (s.store.entries[i]?).isSome = true ↔
    nextIndex s.store.getLogState.lastPurgedLogId ≤ i ∧ i < nextIndex s.store.getLogState.lastLogId
  kept : ∀ e ∈ s.acknowledged, s.store.entries[e.logId.number]? = some e

/-! ## The invariant -/

/-- The entries are an interval that reaches down to the marker, each under its own number. -/
structure Spans (s : LogStore γ μ) (a b : Nat) : Prop where
  window : Window s.entries a b
  le : a ≤ b
  reaches : a ≤ nextIndex s.lastPurged
  numbered : ∀ (i : Nat) (e : Entry γ μ), s.entries[i]? = some e → e.logId.number = i

structure Consistent (s : Log γ μ) : Prop where
  spans : ∃ a b, Spans s.store a b
  purged : nextIndex s.store.lastPurged ≤ s.applied
  applied : s.applied ≤ s.committed
  kept : ∀ e ∈ s.acknowledged, s.store.entries[e.logId.number]? = some e ∧ nextIndex s.store.lastPurged ≤ e.logId.number
  purging : ∀ id, s.purging = some id → s.store.lastPurged = some id
  -- at rest, nothing is left below the marker
  clean : s.purging = none → ∀ i, (s.store.entries[i]?).isSome = true → nextIndex s.store.lastPurged ≤ i

variable {s s' : Log γ μ}

theorem nextIndex_lastEntry {t : LogStore γ μ} {a b : Nat} (h : Spans t a b) (hab : a < b) :
    nextIndex t.lastEntry = b := by
  obtain ⟨e, hlast, he⟩ := h.window.last hab
  have hnumber := h.numbered (b - 1) e he
  unfold LogStore.lastEntry
  rw [hlast]
  show e.logId.number + 1 = b
  omega

theorem lastEntry_of_empty {t : LogStore γ μ} {a b : Nat} (h : Spans t a b) (hab : ¬ a < b) : t.lastEntry = none := by
  unfold LogStore.lastEntry
  rw [h.window.toList_of_le (by omega)]
  rfl

/-- Where the next entry goes. -/
theorem exists_spans_next {t : LogStore γ μ} (h : ∃ a b, Spans t a b) :
    ∃ a, Spans t a (nextIndex t.getLogState.lastLogId) := by
  obtain ⟨a, b, h⟩ := h
  by_cases hab : a < b
  · have hnext : nextIndex t.getLogState.lastLogId = b := by
      have hlast := nextIndex_lastEntry h hab
      unfold LogStore.getLogState
      cases hentry : t.lastEntry with
      | none =>
        rw [hentry] at hlast
        simp only [nextIndex, Option.elim_none] at hlast
        omega
      | some id =>
        rw [hentry] at hlast
        exact hlast
    exact ⟨a, hnext ▸ h⟩
  · -- the store is empty, and the next entry follows the marker
    have hnext : t.getLogState.lastLogId = t.lastPurged := by
      unfold LogStore.getLogState
      rw [lastEntry_of_empty h hab]
      rfl
    refine ⟨nextIndex t.getLogState.lastLogId, ?_, Nat.le_refl _, hnext ▸ Nat.le_refl _, h.numbered⟩
    intro i
    rw [h.window i]
    omega

theorem consistent_initial : Consistent (initial : Log γ μ) where
  spans := ⟨0, 0, Window.empty 0, Nat.le_refl _, Nat.le_refl _, fun i e he => by
    rw [show (initial : Log γ μ).store.entries[i]? = none from Table.lookup_empty _] at he
    cases he⟩
  purged := Nat.le_refl _
  applied := Nat.le_refl _
  kept _ he := absurd he List.not_mem_nil
  purging _ h := by cases h
  clean _ i hi := by
    rw [show (initial : Log γ μ).store.entries[i]? = none from Table.lookup_empty _] at hi
    cases hi

/-! ### One lemma for each call -/

theorem lookup_append {es : List (Entry γ μ)} {t : LogStore γ μ} {n i : Nat} (hn : Numbered (·.logId.number) n es)
    (hi : i < n) : (t.append es).entries[i]? = t.entries[i]? :=
  Table.lookup_foldl_insert_of_not_mem (g := fun e => e) fun e he => by
    have := hn.number_le e he
    omega

theorem lookup_appended : ∀ {es : List (Entry γ μ)} {t : LogStore γ μ} {n : Nat}, Numbered (·.logId.number) n es →
    ∀ e ∈ es, (t.append es).entries[e.logId.number]? = some e
  | x :: es, t, n, hn, e, he => by
    rcases List.mem_cons.mp he with rfl | he
    · have hnumber : e.logId.number = n := hn.1
      have hlater := lookup_append (t := t.append [e]) hn.2 (i := e.logId.number) (by omega)
      exact hlater.trans (Table.lookup_insert_self t.entries _ _)
    · exact lookup_appended (t := t.append [x]) hn.2 e he

theorem Consistent.append (h : Consistent s) {es : List (Entry γ μ)} (acknowledged : Bool) (hrest : s.purging = none)
    (hn : Numbered (·.logId.number) (nextIndex s.store.getLogState.lastLogId) es) :
    Consistent { s with
      store := s.store.append es
      acknowledged := if acknowledged then s.acknowledged ++ es else s.acknowledged } := by
  obtain ⟨a, hspans⟩ := exists_spans_next h.spans
  -- what was there is below the new entries
  have hold : ∀ {i : Nat}, (s.store.entries[i]?).isSome = true →
    (s.store.append es).entries[i]? = s.store.entries[i]? :=
    fun hi => lookup_append hn ((hspans.window _).mp hi).2
  -- the new entries are above the marker
  have hmarker : nextIndex s.store.lastPurged ≤ nextIndex s.store.getLogState.lastLogId := by
    by_cases hab : a < nextIndex s.store.getLogState.lastLogId
    · have := h.clean hrest _ ((hspans.window _).mpr ⟨Nat.le_refl a, hab⟩)
      omega
    · unfold LogStore.getLogState
      rw [lastEntry_of_empty hspans hab]
      exact Nat.le_refl _
  have hkept : ∀ e ∈ s.acknowledged ++ es, (s.store.append es).entries[e.logId.number]? = some e ∧
      nextIndex s.store.lastPurged ≤ e.logId.number := by
    intro e he
    rcases List.mem_append.mp he with he | he
    · obtain ⟨hfound, hle⟩ := h.kept e he
      exact ⟨(hold (by rw [hfound]; rfl)).trans hfound, hle⟩
    · exact ⟨lookup_appended hn e he, hmarker.trans (hn.number_le e he)⟩
  refine ⟨⟨a, _, hspans.window.insertAll hspans.le hn, Nat.le_add_right_of_le hspans.le, hspans.reaches,
    number_of_lookup hspans.numbered⟩, h.purged, h.applied, ?_, h.purging, ?_⟩
  · intro e he
    refine hkept e ?_
    cases acknowledged with
    | true => exact he
    | false => exact List.mem_append_left _ he
  · intro _ i hi
    by_cases hlt : i < nextIndex s.store.getLogState.lastLogId
    · rw [lookup_append hn hlt] at hi
      exact h.clean hrest i hi
    · exact hmarker.trans (Nat.not_lt.mp hlt)

theorem Consistent.truncate (h : Consistent s) {id : LogId} (hid : s.committed ≤ id.number) :
    Consistent { s with
      store := s.store.truncate id
      acknowledged := s.acknowledged.filter fun e => decide (e.logId.number < id.number) } := by
  obtain ⟨a, b, hspans⟩ := h.spans
  have hlookup : ∀ i, (s.store.truncate id).entries[i]? = if i < id.number then s.store.entries[i]?
    else none := fun i => by
    show (s.store.entries.filter fun i _ => decide (i < id.number))[i]? = _
    rw [Table.lookup_filter]
    simp only [decide_eq_true_eq]
  have hreach := hspans.reaches
  have hle := hspans.le
  have hmarker := h.purged
  have happlied := h.applied
  refine ⟨⟨a, min b id.number, hspans.window.below id.number, by omega, hreach, ?_⟩, hmarker, happlied,
    ?_, h.purging, ?_⟩
  · intro i e he
    rw [hlookup] at he
    split_ifs at he
    exact hspans.numbered i e he
  · intro e he
    obtain ⟨hmem, hlt⟩ := List.mem_filter.mp he
    rw [hlookup, if_pos (of_decide_eq_true hlt)]
    exact h.kept e hmem
  · intro hrest i hi
    rw [hlookup] at hi
    split_ifs at hi
    · exact h.clean hrest i hi
    · cases hi

theorem Consistent.purge (h : Consistent s) {id : LogId} (hnew : nextIndex s.store.lastPurged ≤ nextIndex (some id))
    (hid : nextIndex (some id) ≤ s.applied) :
    Consistent { s with
      store := s.store.markPurged id
      purging := some id
      acknowledged := s.acknowledged.filter fun e => decide (id.number < e.logId.number) } := by
  obtain ⟨a, b, hspans⟩ := h.spans
  refine ⟨⟨a, b, hspans.window, hspans.le, hspans.reaches.trans hnew, hspans.numbered⟩, hid, h.applied, ?_, ?_, nofun⟩
  · intro e he
    obtain ⟨hmem, hlt⟩ := List.mem_filter.mp he
    exact ⟨(h.kept e hmem).1, of_decide_eq_true hlt⟩
  · intro id' hid'
    cases hid'
    rfl

theorem Consistent.removePurged (h : Consistent s) {id : LogId} (hid : s.purging = some id) :
    Consistent { s with store := s.store.removePurged id, purging := none } := by
  obtain ⟨a, b, hspans⟩ := h.spans
  have hmark := h.purging id hid
  have hlookup : ∀ i, (s.store.removePurged id).entries[i]? = if id.number < i then s.store.entries[i]? else none :=
    fun i => by
      show (s.store.entries.filter fun i _ => decide (id.number < i))[i]? = _
      rw [Table.lookup_filter]
      simp only [decide_eq_true_eq]
  have hnext : nextIndex s.store.lastPurged = id.number + 1 := by rw [hmark]; rfl
  have hreach := hspans.reaches
  refine ⟨?_, h.purged, h.applied, ?_, nofun, ?_⟩
  · -- the interval now starts at the marker, or nothing is left of it
    have hwindow := hspans.window.above id.number
    have hnumbered : ∀ (i : Nat) (e : Entry γ μ), (s.store.removePurged id).entries[i]? = some e →
      e.logId.number = i := by
      intro i e he
      rw [hlookup] at he
      split_ifs at he
      exact hspans.numbered i e he
    by_cases hab : id.number + 1 ≤ b
    · exact ⟨_, b, hwindow, by omega, by show _ ≤ nextIndex s.store.lastPurged; omega, hnumbered⟩
    · refine ⟨id.number + 1, id.number + 1, fun i => (hwindow i).trans ?_, Nat.le_refl _, hnext.ge, hnumbered⟩
      omega
  · intro e he
    obtain ⟨hfound, hle⟩ := h.kept e he
    rw [hlookup, if_pos (by omega)]
    exact ⟨hfound, hle⟩
  · intro _ i hi
    rw [hlookup] at hi
    split_ifs at hi with hlt
    · show nextIndex s.store.lastPurged ≤ i
      omega
    · cases hi

theorem Consistent.crashed (h : Consistent s) (hclean : s.Clean .crash) : Consistent s.crashed := by
  refine ⟨h.spans, h.purged, h.applied, h.kept, nofun, fun _ i hi => ?_⟩
  show nextIndex s.store.lastPurged ≤ i
  cases hp : s.purging with
  | none => exact h.clean hp i hi
  | some id =>
    obtain ⟨e, he⟩ := Option.isSome_iff_exists.mp hi
    have hlt := hclean id hp (i, e) (Std.ExtTreeMap.mem_toList_iff_getElem?_eq_some.mpr he)
    rw [h.purging id hp]
    exact hlt

theorem Consistent.step {e : LogEvent γ μ} (h : Consistent s) (hok : s.Permitted e ∧ s.Clean e)
    (hs : s.step e = some s') : Consistent s' := by
  obtain ⟨hpermitted, hclean⟩ := hok
  cases e with
  | crash =>
    cases hs
    exact h.crashed hclean
  | removePurged =>
    obtain ⟨id, hid, rfl⟩ := Option.map_eq_some_iff.mp hs
    exact h.removePurged hid
  | append es acknowledged =>
    simp only [Log.step] at hs
    split at hs
    · cases hs
    · cases hs
      exact h.append acknowledged (Option.not_isSome_iff_eq_none.mp ‹_›) hpermitted
  | truncate id =>
    simp only [Log.step] at hs
    split_ifs at hs
    cases hs
    exact h.truncate hpermitted
  | purge id =>
    simp only [Log.step] at hs
    split_ifs at hs
    cases hs
    exact h.purge hpermitted.1 hpermitted.2
  | saveVote vote | saveCommitted committed =>
    simp only [Log.step] at hs
    split_ifs at hs
    cases hs
    exact ⟨h.spans.imp fun _ => Exists.imp fun _ hspans => ⟨hspans.window, hspans.le, hspans.reaches, hspans.numbered⟩,
      h.purged, h.applied, h.kept, h.purging, h.clean⟩
  | commit n =>
    simp only [Log.step] at hs
    split_ifs at hs
    cases hs
    exact ⟨h.spans, h.purged, h.applied.trans (Nat.le_max_left _ _), h.kept, h.purging, h.clean⟩
  | apply n =>
    simp only [Log.step] at hs
    split_ifs at hs
    cases hs
    exact ⟨h.spans, h.purged.trans (Nat.le_max_left _ _), Nat.max_le.mpr ⟨h.applied, hpermitted⟩, h.kept,
      h.purging, h.clean⟩

/-! ## Over a run -/

theorem Consistent.intact (h : Consistent s) (hclean : ∀ i, (s.store.entries[i]?).isSome = true →
    nextIndex s.store.lastPurged ≤ i) : Intact s := by
  obtain ⟨a, hspans⟩ := exists_spans_next h.spans
  have hcontiguous : ∀ i, (s.store.entries[i]?).isSome = true ↔
      nextIndex s.store.getLogState.lastPurgedLogId ≤ i ∧ i < nextIndex s.store.getLogState.lastLogId := by
    intro i
    refine ⟨fun hi => ⟨hclean i hi, ((hspans.window i).mp hi).2⟩, fun hi => (hspans.window i).mpr ⟨?_, hi.2⟩⟩
    exact hspans.reaches.trans hi.1
  have hemptied : s.store.entries = ∅ → s.store.getLogState.lastLogId = s.store.getLogState.lastPurgedLogId := by
    intro hempty
    unfold LogStore.getLogState LogStore.lastEntry
    rw [hempty, (Window.empty 0).toList_of_le (Nat.le_refl 0)]
    rfl
  refine ⟨fun purged hpurged => ?_, hemptied, hcontiguous, fun e he => (h.kept e he).1⟩
  by_cases hab : a < nextIndex s.store.getLogState.lastLogId
  · -- the last entry is above the marker
    have hlast := nextIndex_lastEntry hspans hab
    cases hentry : s.store.lastEntry with
    | none =>
      rw [hentry] at hlast
      have hzero : (0 : Nat) = nextIndex s.store.getLogState.lastLogId := hlast
      omega
    | some last =>
      rw [hentry] at hlast
      refine ⟨last, ?_, ?_⟩
      · unfold LogStore.getLogState
        rw [hentry]
        rfl
      · have hlt := hclean _ ((hspans.window _).mpr ⟨Nat.le_refl a, hab⟩)
        rw [show s.store.lastPurged = some purged from hpurged] at hlt
        have hle : purged.number + 1 ≤ a := hlt
        have hlast : last.number + 1 = nextIndex s.store.getLogState.lastLogId := hlast
        rw [UInt64.le_iff_toNat_le]
        show purged.number ≤ last.number
        omega
  · refine ⟨purged, ?_, UInt64.le_refl _⟩
    unfold LogStore.getLogState
    rw [lastEntry_of_empty hspans hab]
    exact hpurged

/-- In a run of permitted calls in which no crash falls between the two transactions of a purge that has entries to
remove, the store is intact whenever no call is under way.  From each state of such a run, a crash leaves it intact
exactly when it is not of that kind. -/
theorem intact_iff_clean_crash {es : List (LogEvent γ μ)} {s : Log γ μ} (hrun : run Log.step initial es = some s)
    (h : Meets Log.step (fun s e => s.Permitted e ∧ s.Clean e) initial es) :
    (s.purging = none → s.Intact) ∧ (s.crashed.Intact ↔ s.Clean .crash) := by
  have hs : Consistent s := run_invariant (fun _ _ _ h hok hs => h.step hok hs) es consistent_initial h hrun
  refine ⟨fun hrest => hs.intact (hs.clean hrest), ?_, fun hclean =>
    (hs.crashed hclean).intact ((hs.crashed hclean).clean rfl)⟩
  intro hintact id hid r hr
  have hstored : (s.store.entries[r.1]?).isSome = true := by
    rw [Std.ExtTreeMap.mem_toList_iff_getElem?_eq_some.mp hr]
    rfl
  have hle := ((hintact.contiguous r.1).mp hstored).1
  rw [show s.crashed.store.getLogState.lastPurgedLogId = some id from hs.purging id hid] at hle
  exact hle

namespace Sample

def position (index : UInt64) : LogId := ⟨1, 1, index⟩

def blank (index : UInt64) : Entry Empty Unit := ⟨position index, .blank⟩

/-- Four entries, the last one truncated, and a purge that is completed before a crash. -/
def purgedRun : List (LogEvent Empty Unit) :=
  [.saveVote ⟨1, 1, true⟩, .append [blank 0, blank 1, blank 2, blank 3] true, .commit 3, .apply 2,
    .truncate (position 3), .purge (position 1), .removePurged, .append [blank 3] false, .crash]

/-- A snapshot is installed past the last entry, and the member crashes while it purges up to it. -/
def snapshotRun : List (LogEvent Empty Unit) :=
  [.append [blank 0, blank 1, blank 2] true, .commit 11, .apply 11, .purge (position 10), .crash]

end Sample

open Sample

theorem intact_iff_clean_crash_purged : ∃ s : Log Empty Unit, run Log.step initial purgedRun = some s ∧ s.Intact ∧
    s.acknowledged ≠ [] := by
  obtain ⟨s, hs, hrest, hsome⟩ : ∃ s : Log Empty Unit, run Log.step initial purgedRun = some s ∧ s.purging = none ∧
      s.acknowledged ≠ [] := by decide +kernel
  have hmeets : Meets Log.step (fun s e => s.Permitted e ∧ s.Clean e) initial purgedRun := by decide +kernel
  exact ⟨s, hs, (intact_iff_clean_crash hs hmeets).1 hrest, hsome⟩

/-- The last entry is then reported before the marker, and the entries at or below the marker are still stored. -/
theorem crash_between_marker_and_removal : ∃ s : Log Empty Unit, run Log.step initial snapshotRun = some s ∧
    (Meets Log.step Permitted initial snapshotRun ∧ s.store.getLogState = ⟨some (position 10), some (position 2)⟩ ∧
      (s.store.entries[0]?).isSome = true) ∧ ¬ s.Intact := by
  refine exists_and_of (by decide +kernel) fun s hs ⟨_, hstate, hfirst⟩ hintact => ?_
  have hle := ((hintact.contiguous 0).mp hfirst).1
  rw [hstate] at hle
  exact absurd hle (by decide)

end Log

end RecordStore.Consensus
