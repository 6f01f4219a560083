import RecordStore.Audit.Appends

/-!
# Audit.Tampering — what a clean walk says about an altered log

Take the log of a run and alter its records and its index in any way, but not the persisted head.  If a
walk over the altered log is clean, an event that is not the original one stands in a suffix whose records
all carry new hashes, up to the last.  The walk does not compare the last hash with the persisted head, so
such a suffix passes.
-/

namespace RecordStore.Audit

open RecordStore.Lib RecordStore.Core

variable {sha256 : Bytes → Digest32} {codec : Codec} {log log' : AuditLog} {events : List AuditEvent}

/-- The bytes that verifying a log hashes. -/
def Hashed (sha256 : Bytes → Digest32) (codec : Codec) (log : AuditLog) (bytes : Bytes) : Prop :=
  ∃ i record, load codec log (UInt64.ofNat i) = .ok (some record) ∧
    bytes = recordPreimage record.sequence (hashAt sha256 codec log i) (canonicalBytes record.event)

theorem recordPreimage_inj {s s' : UInt64} {p p' : Digest32} {c c' : Bytes}
    (h : recordPreimage s p c = recordPreimage s' p' c') : s = s' ∧ p = p' ∧ c = c' := by
  unfold recordPreimage at h
  simp only [List.append_assoc] at h
  obtain ⟨-, h⟩ := List.append_inj h rfl
  obtain ⟨hs, h⟩ := List.append_inj h ((length_beBytes _ _).trans (length_beBytes _ _).symm)
  obtain ⟨hp, hc⟩ := List.append_inj h (p.length_bytes.trans p'.length_bytes.symm)
  have hvalue := congrArg beValue hs
  rw [beValue_beBytes s.toNat_lt, beValue_beBytes s'.toNat_lt] at hvalue
  exact ⟨UInt64.toNat.inj hvalue, Digest32.ext hp, hc⟩

/-- For events whose texts and metadata have fewer than `2 ^ 32` bytes and entries: the canonical bytes
determine the event up to the digits of its timestamp below the microsecond; they show where they end; and the
bytes a record hash is taken over determine the sequence number, the predecessor and the event. -/
theorem canonicalBytes_determines {a b : AuditEvent} (ha : a.Fits (2 ^ 32)) (hb : b.Fits (2 ^ 32)) :
    (canonicalBytes a = canonicalBytes b → SameEvent a b) ∧
      (∀ x y, canonicalBytes a ++ x = canonicalBytes b ++ y → SameEvent a b ∧ x = y) ∧
      ∀ s s' p p', recordPreimage s p (canonicalBytes a) = recordPreimage s' p' (canonicalBytes b) →
        s = s' ∧ p = p' ∧ SameEvent a b := by
  have hsame : canonicalBytes a = canonicalBytes b → SameEvent a b := fun h =>
    (ha.sameEvent hb (congrArg (· ++ []) h)).1
  refine ⟨hsame, fun _ _ h => ha.sameEvent hb h, fun s s' p p' h => ?_⟩
  obtain ⟨hs, hp, hc⟩ := recordPreimage_inj h
  exact ⟨hs, hp, hsame hc⟩

namespace Sample

/-- The first event, so many nanoseconds after the epoch. -/
def after (n : Nat) (h : n < 2000000000) : AuditEvent :=
  { event 0 with timestamp := { DateTime.epoch with nanoseconds := n, nanoseconds_lt := h } }

theorem after_fits (n : Nat) (h : n < 2000000000) : (after n h).Fits (2 ^ 32) where
  texts := by
    show ∀ v ∈ (event 0).texts, (asBytes v).length < 2 ^ 32
    decide
  entries := by
    show (event 0).metadata.toList.length < 2 ^ 32
    decide

end Sample

/-- Events 200 and 300 ns after the epoch have the same bytes; one of the next microsecond has others. -/
theorem canonicalBytes_determines_nanoseconds :
    (Sample.after 200 (by decide)).Fits (2 ^ 32) ∧ (Sample.after 300 (by decide)).Fits (2 ^ 32) ∧
      (Sample.after 1000 (by decide)).Fits (2 ^ 32) ∧
      SameEvent (Sample.after 200 (by decide)) (Sample.after 300 (by decide)) ∧
      canonicalBytes (Sample.after 200 (by decide)) ≠ canonicalBytes (Sample.after 1000 (by decide)) := by
  refine ⟨Sample.after_fits _ _, Sample.after_fits _ _, Sample.after_fits _ _,
    (canonicalBytes_determines (Sample.after_fits _ _) (Sample.after_fits _ _)).1 (by decide +kernel), fun h => ?_⟩
  have hmicros := ((canonicalBytes_determines (Sample.after_fits _ _) (Sample.after_fits _ _)).1 h).timestamp
  exact absurd hmicros (by decide +kernel)

/-- What stands at the position is the original event. -/
def Original (codec : Codec) (log' : AuditLog) (events : List AuditEvent) (i : Nat) : Prop :=
  ∀ event record, events[i]? = some event → load codec log' (UInt64.ofNat i) = .ok (some record) →
    SameEvent event record.event

/-- A record with the original hash has the original predecessor and the original event. -/
theorem original_back (h : Chained sha256 codec log events) (hn : events.length < 2 ^ 64)
    (henc : ∀ event ∈ events, event.Fits maximumLength)
    (hsha : ∀ x y, Hashed sha256 codec log x → Hashed sha256 codec log' y → sha256 x = sha256 y → x = y) {i : Nat}
    (hi : i < events.length) (hintact : IntactAt sha256 codec log' i)
    (heq : hashAt sha256 codec log' (i + 1) = headOf sha256 (events.take (i + 1))) :
    hashAt sha256 codec log' i = headOf sha256 (events.take i) ∧ Original codec log' events i := by
  obtain ⟨event, he⟩ : ∃ event, events[i]? = some event := ⟨_, List.getElem?_eq_getElem hi⟩
  obtain ⟨record, hload, -, -, hhash⟩ := hintact.links (by omega)
  -- both sides are the hash of a record at `i`, one in each log
  have hpre := hsha (recordPreimage (UInt64.ofNat i) (headOf sha256 (events.take i)) (canonicalBytes event))
    (recordPreimage record.sequence (hashAt sha256 codec log' i) (canonicalBytes record.event))
    ⟨i, _, h.load hn he, by rw [h.hashAt hn hi]; rfl⟩ ⟨i, record, hload, rfl⟩
    ((headOf_take_succ he).symm.trans (heq.symm.trans hhash.symm))
  obtain ⟨-, hprevious, hcanonical⟩ := recordPreimage_inj hpre
  refine ⟨hprevious.symm, ?_⟩
  intro event' record' he' hload'
  obtain rfl := Option.some.inj (he.symm.trans he')
  obtain rfl := Option.some.inj (Except.ok.inj (hload.symm.trans hload'))
  exact sameEvent_of_canonicalBytes (henc event (List.mem_of_getElem? he)) hcanonical

/-- If a complete walk over an altered log of fewer than `2 ^ 64` records is clean, and no two of the byte
strings hashed collide, then at every position stands the original event, up to the digits of its timestamp
below the microsecond, unless that record and every one after it carries a hash other than the original. -/
theorem tampering_detected (sha256 : Bytes → Digest32) (codec : Codec) (legacy : Table Bytes Bytes)
    (ops : List Operation) (hn : (serveAll sha256 codec legacy ops).acked.length < 2 ^ 64)
    (henc : ∀ event ∈ (serveAll sha256 codec legacy ops).acked, event.Fits maximumLength) (log' : AuditLog)
    (hstate : log'.chainState = (serveAll sha256 codec legacy ops).log.chainState)
    (hsha : ∀ x y, Hashed sha256 codec (serveAll sha256 codec legacy ops).log x → Hashed sha256 codec log' y →
      sha256 x = sha256 y → x = y)
    (limits : List Nat) (pages : List ChainVerification) (hwalk : walk sha256 codec log' limits 0 = .ok pages)
    (hclean : ∀ page ∈ pages, page.unchained = 0 ∧ page.problems = []) (hdone : complete pages = true) :
    ∀ i event, (serveAll sha256 codec legacy ops).acked[i]? = some event →
      ∃ record, load codec log' (UInt64.ofNat i) = .ok (some record) ∧
        (SameEvent event record.event ∨
          ∀ j original record', i ≤ j → j < (serveAll sha256 codec legacy ops).acked.length →
            load codec (serveAll sha256 codec legacy ops).log (UInt64.ofNat j) = .ok (some original) →
            load codec log' (UInt64.ofNat j) = .ok (some record') →
            record'.chain.map (·.recordHash) ≠ original.chain.map (·.recordHash)) := by
  have h := chained_run legacy ops hn
  generalize serveAll sha256 codec legacy ops = st at h hn henc hstate hsha ⊢
  intro i event he
  obtain ⟨hi, -⟩ := List.getElem?_eq_some_iff.mp he
  have hhead : readChainHead sha256 log' = .ok (UInt64.ofNat st.acked.length, headOf sha256 st.acked) := by
    rw [← h.head]
    unfold readChainHead
    rw [hstate]
  have hall :=
    walk_clean hn hhead (Nat.zero_lt_of_lt hi) hwalk (fun page hp => ⟨(hclean page hp).1, (hclean page hp).2⟩) hdone
  obtain ⟨record, hload, -⟩ := (hall i (Nat.zero_le i) hi).links (by omega)
  refine ⟨record, hload, ?_⟩
  by_cases hsame : SameEvent event record.event
  · exact .inl hsame
  · refine .inr fun j original record' hij hj hloadj hloadj' heq => hsame ?_
    obtain ⟨eventj, hej⟩ : ∃ eventj, st.acked[j]? = some eventj := ⟨_, List.getElem?_eq_getElem hj⟩
    obtain rfl := Option.some.inj (Except.ok.inj (hloadj.symm.trans (h.load hn hej)))
    obtain ⟨found, hfound, -, hc, -⟩ := (hall j (Nat.zero_le j) hj).links (by omega)
    obtain rfl := Option.some.inj (Except.ok.inj (hloadj'.symm.trans hfound))
    have hhash : hashAt sha256 codec log' (j + 1) = headOf sha256 (st.acked.take (j + 1)) := by
      rw [hc] at heq
      exact (Option.some.inj heq).trans (headOf_take_succ hej).symm
    have hagree := HashChain.agree_below
      (fun _ _ => rfl)
      (fun k hk hk' => original_back h hn henc hsha hk (hall k (Nat.zero_le k) hk) hk') hj hhash
    exact hagree i hij event record he hload

/-! ## What passes -/

section Rewritten

variable (sha256 codec)

/-- The log with its first record replaced by one of the event `e`, hashed anew. -/
def rewriteFirst (log : AuditLog) (e : AuditEvent) : AuditLog :=
  { log with
    events := log.events.insert (eventKey e) (codec.encodeRecord (chainedRecord sha256 0 (genesisHash sha256) e)) }

/-- The log of one event. -/
def logOf (e : AuditEvent) : Served := serveAll sha256 codec ∅ [.batch [e]]

/-- A complete walk over the log is clean. -/
def Passes (log : AuditLog) : Prop :=
  ∃ pages, walk sha256 codec log [1] 0 = .ok pages ∧ (∀ page ∈ pages, page.unchained = 0 ∧ page.problems = []) ∧
    complete pages = true ∧ totalChecked pages = 1

theorem logOf_chained (e : AuditEvent) :
    (logOf sha256 codec e).acked = [e] ∧ Chained sha256 codec (logOf sha256 codec e).log [e] := by
  have hempty : Chained sha256 codec ⟨∅, ∅, ∅⟩ [] := Chained.empty ∅
  let st : Served := ⟨⟨∅, ∅, ∅⟩, []⟩
  have hfree : st.log.events[eventKey e]? = none := Table.lookup_empty _
  obtain ⟨log', hret, hserve⟩ := serve_fresh codec hempty.head hfree
  have hlog : logOf sha256 codec e = ⟨log', [e]⟩ := hserve
  rw [hlog]
  exact ⟨rfl, hempty.append (by norm_num) hret⟩

/-- The record of the one event, at the only position. -/
theorem load_logOf (e : AuditEvent) :
    load codec (logOf sha256 codec e).log 0 = .ok (some (chainedRecord sha256 0 (genesisHash sha256) e)) :=
  (logOf_chained sha256 codec e).2.load (by norm_num) (i := 0) rfl

theorem index_logOf (e : AuditEvent) {i : UInt64} (hi : i ≠ 0) :
    (logOf sha256 codec e).log.sequenceIndex[i]? = none := by
  have hpos : i.toNat ≠ 0 := fun h => hi (UInt64.toNat.inj h)
  rw [(logOf_chained sha256 codec e).2.index, List.getElem?_eq_none]
  · rfl
  · simp only [List.length_singleton]
    omega

variable (e e' : AuditEvent)

theorem load_rewriteFirst (hkey : eventKey e' = eventKey e) :
    load codec (rewriteFirst sha256 codec (logOf sha256 codec e).log e') 0 =
      .ok (some (chainedRecord sha256 0 (genesisHash sha256) e')) := by
  have hindex : (rewriteFirst sha256 codec (logOf sha256 codec e).log e').sequenceIndex[(0 : UInt64)]? =
      some (eventKey e') := by
    rw [hkey]
    exact (logOf_chained sha256 codec e).2.index 0
  have hrow : (rewriteFirst sha256 codec (logOf sha256 codec e).log e').events[eventKey e']? =
      some (codec.encodeRecord (chainedRecord sha256 0 (genesisHash sha256) e')) := Table.lookup_insert_self _ _ _
  unfold load
  simp only [hindex, hrow, decodeStored, codec.decode_encode]
  rfl

/-- A record that was replaced and hashed anew is intact. -/
theorem passes_rewriteFirst (hkey : eventKey e' = eventKey e) :
    Passes sha256 codec (rewriteFirst sha256 codec (logOf sha256 codec e).log e') := by
  have hload := load_rewriteFirst sha256 codec e e' hkey
  have hintact : ∀ j, j < 1 → IntactAt sha256 codec (rewriteFirst sha256 codec (logOf sha256 codec e).log e') j := by
    intro j hj
    obtain rfl : j = 0 := by omega
    exact ⟨_, hload, verifyAgainst_intact.mpr ⟨_, rfl, rfl⟩⟩
  have hhead : readChainHead sha256 (rewriteFirst sha256 codec (logOf sha256 codec e).log e') =
      .ok (UInt64.ofNat 1, headOf sha256 [e]) := (logOf_chained sha256 codec e).2.head
  obtain ⟨pages, h1, h2, h3, h4⟩ := walk_intact (i := 0) (by norm_num) hhead hintact [1] (by norm_num) rfl
    (by simp)
  exact ⟨pages, h1, fun page hp => ⟨(h3 page hp).2.unchained, (h3 page hp).2.problems⟩, h4.mpr (by simp), h2⟩

end Rewritten

namespace Sample

/-- An edit of the first event. -/
def edited : AuditEvent := { event 0 with operation := "s3:GET" }

/-- A text of `u32::MAX` bytes. -/
def long : String := String.ofList (List.replicate maximumLength 'a')

/-- Two ways to read the same bytes: the lengths saturate. -/
def longOperation : AuditEvent :=
  { event 0 with operation := long, resource := String.ofList (List.replicate 4 (Char.ofNat 0)) }
def longerOperation : AuditEvent :=
  { event 0 with
    operation := long ++ String.ofList (List.replicate 3 (Char.ofNat 0) ++ [Char.ofNat 4])
    resource := "" }

end Sample

theorem asBytes_append (s t : String) : asBytes (s ++ t) = asBytes s ++ asBytes t := by
  simp [asBytes, String.toList_append]

theorem length_asBytes_long : (asBytes Sample.long).length = maximumLength := by
  have hchar : String.utf8EncodeChar 'a' = [97] := by decide
  unfold asBytes Sample.long
  rw [String.toList_ofList, List.length_flatMap, List.map_replicate, hchar, List.sum_replicate]
  simp

/-- The canonical bytes do not tell events apart whose fields are longer than a length can say. -/
theorem canonicalBytes_long : canonicalBytes Sample.longOperation = canonicalBytes Sample.longerOperation := by
  have hfields : putStr Sample.longOperation.operation ++ putStr Sample.longOperation.resource =
      putStr Sample.longerOperation.operation ++ putStr Sample.longerOperation.resource := by
    have hfour : asBytes (String.ofList (List.replicate 3 (Char.ofNat 0) ++ [Char.ofNat 4])) = putLength 4 := by decide
    have hzero : asBytes (String.ofList (List.replicate 4 (Char.ofNat 0))) = putLength 0 := by decide
    have hlen : (putLength 0).length = 4 := length_putLength 0
    have hlong : putLength (maximumLength + 4) = putLength maximumLength := by
      unfold putLength
      rw [Nat.min_eq_right (Nat.le_add_right _ _), Nat.min_self]
    simp only [Sample.longOperation, Sample.longerOperation, putStr, putBytes, asBytes_append, hfour, hzero,
      List.length_append, length_asBytes_long, length_putLength, hlong, List.append_assoc]
    rfl
  unfold canonicalBytes
  simp only [List.append_assoc]
  simp only [← List.append_assoc (putStr _) (putStr _), hfields]
  rfl

/-- An edit of the last record passes with its hash recomputed; and where the lengths saturate, even with the
original hash. -/
theorem rewritten_suffix_unnoticed (sha256 : Bytes → Digest32) (codec : Codec) :
    ((logOf sha256 codec (Sample.event 0)).acked = [Sample.event 0] ∧
      (rewriteFirst sha256 codec (logOf sha256 codec (Sample.event 0)).log Sample.edited).chainState =
        (logOf sha256 codec (Sample.event 0)).log.chainState ∧
      Passes sha256 codec (rewriteFirst sha256 codec (logOf sha256 codec (Sample.event 0)).log Sample.edited) ∧
      ∃ record, load codec (rewriteFirst sha256 codec (logOf sha256 codec (Sample.event 0)).log Sample.edited) 0 =
        .ok (some record) ∧ ¬ SameEvent (Sample.event 0) record.event) ∧
    (logOf sha256 codec Sample.longOperation).acked = [Sample.longOperation] ∧
      (rewriteFirst sha256 codec (logOf sha256 codec Sample.longOperation).log Sample.longerOperation).chainState =
        (logOf sha256 codec Sample.longOperation).log.chainState ∧
      Passes sha256 codec
        (rewriteFirst sha256 codec (logOf sha256 codec Sample.longOperation).log Sample.longerOperation) ∧
      ∃ record, load codec
          (rewriteFirst sha256 codec (logOf sha256 codec Sample.longOperation).log Sample.longerOperation) 0 =
            .ok (some record) ∧ ¬ SameEvent Sample.longOperation record.event ∧
          record.chain.map (·.recordHash) = some (headOf sha256 [Sample.longOperation]) := by
  have hlong : eventKey Sample.longerOperation = eventKey Sample.longOperation := by
    simp only [eventKey, Sample.longOperation, Sample.longerOperation]
  refine ⟨⟨(logOf_chained sha256 codec _).1, rfl, passes_rewriteFirst sha256 codec _ _ rfl, _,
    load_rewriteFirst sha256 codec _ _ rfl, ?_⟩, (logOf_chained sha256 codec _).1, rfl,
    passes_rewriteFirst sha256 codec _ _ hlong, _, load_rewriteFirst sha256 codec _ _ hlong, ?_, ?_⟩
  · intro hsame
    have hoperation : "s3:PUT" = "s3:GET" := hsame.operation
    exact absurd hoperation (by decide)
  · intro hsame
    have hempty : String.ofList (List.replicate 4 (Char.ofNat 0)) = "" := hsame.resource
    exact absurd hempty (by decide)
  · show some (hashEvent sha256 0 (genesisHash sha256) Sample.longerOperation) =
      some (hashEvent sha256 0 (genesisHash sha256) Sample.longOperation)
    unfold hashEvent
    rw [canonicalBytes_long]

/-! ## An edit that is not original -/

section Edited

/-- What verifying a log hashes whose only record is at position zero. -/
theorem hashed_first {x : Bytes} {e : AuditEvent} (hindex : ∀ i : UInt64, i ≠ 0 → log.sequenceIndex[i]? = none)
    (hload : load codec log 0 = .ok (some (chainedRecord sha256 0 (genesisHash sha256) e)))
    (h : Hashed sha256 codec log x) : x = recordPreimage 0 (genesisHash sha256) (canonicalBytes e) := by
  obtain ⟨i, record, hrecord, rfl⟩ := h
  by_cases hi : UInt64.ofNat i = 0
  · rw [hi, hload] at hrecord
    obtain rfl := Option.some.inj (Except.ok.inj hrecord)
    have hhash : hashAt sha256 codec log i = genesisHash sha256 := by
      unfold hashAt
      rw [hi]
      rfl
    rw [hhash]
    rfl
  · unfold load at hrecord
    simp [hindex _ hi] at hrecord

/-- An edit whose hash differs makes no collision. -/
theorem hashed_rewriteFirst {e e' : AuditEvent} (hkey : eventKey e' = eventKey e)
    (hne : hashEvent sha256 0 (genesisHash sha256) e ≠ hashEvent sha256 0 (genesisHash sha256) e') :
    ∀ x y, Hashed sha256 codec (logOf sha256 codec e).log x →
      Hashed sha256 codec (rewriteFirst sha256 codec (logOf sha256 codec e).log e') y → sha256 x = sha256 y →
      x = y := by
  intro x y hx hy heq
  have hx' := hashed_first (fun i hi => index_logOf sha256 codec e hi) (load_logOf sha256 codec e) hx
  have hindex : ∀ i : UInt64, i ≠ 0 →
      (rewriteFirst sha256 codec (logOf sha256 codec e).log e').sequenceIndex[i]? = none :=
    fun i hi => index_logOf sha256 codec e hi
  have hy' := hashed_first hindex (load_rewriteFirst sha256 codec e e' hkey) hy
  rw [hx', hy'] at heq
  exact absurd heq hne

theorem acked_logOf (sha256 : Bytes → Digest32) (codec : Codec) (e : AuditEvent) :
    (serveAll sha256 codec ∅ [.batch [e]]).acked = [e] := (logOf_chained sha256 codec e).1

/-- The same edits for a concrete hash and codec. -/
theorem rewritten_suffix_passes :
    ((logOf Sample.digest Sample.coding (Sample.event 0)).acked = [Sample.event 0] ∧
      (rewriteFirst Sample.digest Sample.coding
          (logOf Sample.digest Sample.coding (Sample.event 0)).log Sample.edited).chainState =
        (logOf Sample.digest Sample.coding (Sample.event 0)).log.chainState ∧
      Passes Sample.digest Sample.coding (rewriteFirst Sample.digest Sample.coding
          (logOf Sample.digest Sample.coding (Sample.event 0)).log Sample.edited) ∧
      ∃ record, load Sample.coding (rewriteFirst Sample.digest Sample.coding
          (logOf Sample.digest Sample.coding (Sample.event 0)).log Sample.edited) 0 =
        .ok (some record) ∧ ¬ SameEvent (Sample.event 0) record.event) ∧
    (logOf Sample.digest Sample.coding Sample.longOperation).acked = [Sample.longOperation] ∧
      (rewriteFirst Sample.digest Sample.coding
          (logOf Sample.digest Sample.coding Sample.longOperation).log Sample.longerOperation).chainState =
        (logOf Sample.digest Sample.coding Sample.longOperation).log.chainState ∧
      Passes Sample.digest Sample.coding
        (rewriteFirst Sample.digest Sample.coding
            (logOf Sample.digest Sample.coding Sample.longOperation).log Sample.longerOperation) ∧
      ∃ record, load Sample.coding
          (rewriteFirst Sample.digest Sample.coding
              (logOf Sample.digest Sample.coding Sample.longOperation).log Sample.longerOperation) 0 =
            .ok (some record) ∧ ¬ SameEvent Sample.longOperation record.event ∧
          record.chain.map (·.recordHash) = some (headOf Sample.digest [Sample.longOperation]) :=
  rewritten_suffix_unnoticed Sample.digest Sample.coding

/-- The edit is not original, so its record, the last one, has lost the original hash. -/
theorem tampering_detected_edited :
    ∃ record, load Sample.coding (rewriteFirst Sample.digest Sample.coding
        (logOf Sample.digest Sample.coding (Sample.event 0)).log Sample.edited) 0 = .ok (some record) ∧
      record.chain.map (·.recordHash) ≠
        some (hashEvent Sample.digest 0 (genesisHash Sample.digest) (Sample.event 0)) := by
  have henc : (Sample.event 0).Fits maximumLength := ⟨by decide, by decide⟩
  have hne : hashEvent Sample.digest 0 (genesisHash Sample.digest) (Sample.event 0) ≠
      hashEvent Sample.digest 0 (genesisHash Sample.digest) Sample.edited := by
    decide +kernel
  have hacked := acked_logOf Sample.digest Sample.coding (Sample.event 0)
  obtain ⟨pages, hwalk, hclean, hdone, -⟩ :=
    passes_rewriteFirst Sample.digest Sample.coding (Sample.event 0) Sample.edited rfl
  have hload' := load_rewriteFirst Sample.digest Sample.coding (Sample.event 0) Sample.edited rfl
  obtain ⟨record, hrecord, hsame | hrest⟩ := tampering_detected Sample.digest Sample.coding ∅
    [.batch [Sample.event 0]] (by rw [hacked]; norm_num) (by rw [hacked]; simpa using henc)
    (rewriteFirst Sample.digest Sample.coding (logOf Sample.digest Sample.coding (Sample.event 0)).log
      Sample.edited) rfl (hashed_rewriteFirst rfl hne) [1] pages hwalk hclean hdone 0 (Sample.event 0)
    (by rw [hacked]; rfl)
  · obtain rfl := Option.some.inj (Except.ok.inj (hrecord.symm.trans hload'))
    have hoperation : "s3:PUT" = "s3:GET" := hsame.operation
    exact absurd hoperation (by decide)
  · exact ⟨record, hrecord, hrest 0 _ record (Nat.le_refl 0) (by rw [hacked]; exact Nat.one_pos)
      (load_logOf Sample.digest Sample.coding (Sample.event 0)) hrecord⟩

end Edited

end RecordStore.Audit
