import RecordStore.Core.Values

/-!
# Sharing.Probes — guessing capability tokens

A fixed-window limiter counts the requests of a client whose token names nothing.  Three of the public routes look a
share up and one an embed; each charges the limiter, and heeds its answer, on its own.
-/

namespace RecordStore.Sharing

open RecordStore.Lib

/-! ## The limiter -/

inductive RateDecision where
  | allowed
  | throttled (retryAfterSeconds : Nat)
  deriving DecidableEq

structure Window where
  started : Nat
  count : Nat
  deriving DecidableEq

/-- A fixed-window counter over a bounded key space; instants and the window in nanoseconds. -/
structure RateLimiter where
  inner : Table String Window
  permitted : Nat
  window : Nat
  capacity : Nat

def asSecs (nanoseconds : Nat) : Nat := nanoseconds / 1000000000

/-- The entry of a key; one that has run out starts anew. -/
def RateLimiter.entry (l : RateLimiter) (key : String) (now : Nat) : Window :=
  let entry := (l.inner[key]?).getD ⟨now, 0⟩
  if l.window ≤ now - entry.started then ⟨now, 0⟩ else entry

/-- The part of `check_at` that follows the check of the capacity. -/
def RateLimiter.count (l : RateLimiter) (key : String) (now : Nat) : RateDecision × RateLimiter :=
  if l.permitted ≤ (l.entry key now).count then
    (.throttled (asSecs (l.window - (now - (l.entry key now).started)) + 1),
      { l with inner := l.inner.insert key (l.entry key now) })
  else (.allowed, { l with inner := l.inner.insert key ⟨(l.entry key now).started, (l.entry key now).count + 1⟩ })

def RateLimiter.swept (l : RateLimiter) (now : Nat) : RateLimiter :=
  { l with inner := l.inner.filter fun _ w => now - w.started < l.window }

/-- `check_at`: a full map is swept of expired entries, and if it stays full a new key is refused. -/
def RateLimiter.checkAt (l : RateLimiter) (key : String) (now : Nat) : RateDecision × RateLimiter :=
  if l.capacity ≤ l.inner.size ∧ (l.inner[key]?).isNone then
    if l.capacity ≤ (l.swept now).inner.size then (.throttled (max (asSecs l.window) 1), l.swept now)
    else (l.swept now).count key now
  else l.count key now

/-! ## The public routes -/

/-- `CapabilityToken::parse`. -/
def parseToken (text : String) : Option String :=
  if text.utf8ByteSize ≠ 43 then none
  else if text.toList.all fun c => c.isAlphanum || c = '-' || c = '_' then some text
  else none

/-- The tokens that name a share or an embed. -/
structure Registry where
  shares : String → Bool
  embeds : String → Bool

inductive Route where
  | descriptor
  | unlock
  | content
  | embed
  deriving DecidableEq

structure Visit where
  client : String
  now : Nat
  route : Route
  token : String

/-- `linked`: what follows depends on the share or embed alone. -/
inductive Reply where
  | unknown
  | throttled (retryAfterSeconds : Nat)
  | linked
  deriving DecidableEq

def RateDecision.reply : RateDecision → Reply
  | .allowed => .unknown
  | .throttled seconds => .throttled seconds

/-- How a route answers as far as the token goes.  `look_up_share` and `unlock_share` charge the limiter and drop its
decision; of the malformed tokens only the descriptor route charges any. -/
def handle (r : Registry) (l : RateLimiter) (v : Visit) : Reply × RateLimiter :=
  match v.route, parseToken v.token with
  | .descriptor, none => ((l.checkAt v.client v.now).1.reply, (l.checkAt v.client v.now).2)
  | .descriptor, some token => if r.shares token then (.linked, l) else (.unknown, (l.checkAt v.client v.now).2)
  | .unlock, none => (.unknown, l)
  | .unlock, some token => if r.shares token then (.linked, l) else (.unknown, (l.checkAt v.client v.now).2)
  | .content, none => (.unknown, l)
  | .content, some token =>
    if r.shares token then (.linked, l) else ((l.checkAt v.client v.now).1.reply, (l.checkAt v.client v.now).2)
  | .embed, none => (.unknown, l)
  | .embed, some token =>
    if r.embeds token then (.linked, l) else ((l.checkAt v.client v.now).1.reply, (l.checkAt v.client v.now).2)

/-- The token names what the route looks up. -/
def Visit.valid (r : Registry) (v : Visit) : Bool :=
  (parseToken v.token).any fun token => if v.route = .embed then r.embeds token else r.shares token

/-- The answers to a sequence of requests, and the limiter after them. -/
def answers (r : Registry) : RateLimiter → List Visit → List (Visit × Reply)
  | _, [] => []
  | l, v :: vs => (v, (handle r l v).1) :: answers r (handle r l v).2 vs

/-- How many guesses of the client were answered as unknown. -/
def unknowns (client : String) (replies : List (Visit × Reply)) : Nat :=
  replies.countP fun a => a.1.client = client ∧ a.2 = .unknown

/-- The requests that are charged and answered as the limiter decides. -/
def heeded : Route → Bool → Prop
  | .descriptor, wellFormed => wellFormed = false
  | .unlock, _ => False
  | .content, wellFormed | .embed, wellFormed => wellFormed = true

instance : ∀ route wellFormed, Decidable (heeded route wellFormed)
  | .descriptor, b => inferInstanceAs (Decidable (b = false))
  | .unlock, _ => inferInstanceAs (Decidable False)
  | .content, b | .embed, b => inferInstanceAs (Decidable (b = true))

/-! ## One window -/

section Limiter

variable {l : RateLimiter} {client key : String} {start now : Nat}

/-- The client has no entry of the window that starts at `start`. -/
def RateLimiter.Unspent (l : RateLimiter) (client : String) (start : Nat) : Prop :=
  ∀ w, l.inner[client]? = some w → w.started + l.window ≤ start

/-- At least `n` and at most all permitted requests are counted for the client in the window. -/
def RateLimiter.Spent (l : RateLimiter) (client : String) (start n : Nat) : Prop :=
  (∃ w, l.inner[client]? = some w ∧ start ≤ w.started ∧ n ≤ w.count ∧ w.count ≤ l.permitted) ∨ n = 0 ∧
  l.Unspent client start

/-- The limits of a limiter do not change. -/
def RateLimiter.SameLimits (l l' : RateLimiter) : Prop := l'.permitted = l.permitted ∧ l'.window = l.window

theorem Spent.le {n : Nat} (h : l.Spent client start n) : n ≤ l.permitted := by
  rcases h with ⟨w, -, -, hn, hle⟩ | ⟨rfl, -⟩
  · exact hn.trans hle
  · exact Nat.zero_le _

/-- An entry of the window is not expired. -/
theorem Spent.sweep {n : Nat} (h : l.Spent client start n) (hnow : start ≤ now ∧ now < start + l.window) :
    (l.swept now).Spent client start n := by
  have hlookup : (l.swept now).inner[client]? = (l.inner[client]?).filter fun w => now - w.started < l.window :=
    Std.ExtTreeMap.getElem?_filter'
  rcases h with ⟨w, hw, hstart, hn, hle⟩ | ⟨rfl, hunspent⟩
  · refine .inl ⟨w, ?_, hstart, hn, hle⟩
    rw [hlookup, hw, Option.filter_some, if_pos (decide_eq_true (by omega))]
  · refine .inr ⟨rfl, fun w hw => hunspent w ?_⟩
    rw [hlookup] at hw
    exact (Option.filter_eq_some_iff.mp hw).1

theorem Spent.count_other {n : Nat} (h : l.Spent client start n) (hkey : key ≠ client) :
    (l.count key now).2.Spent client start n := by
  have hlookup : ∀ e : Window, (l.inner.insert key e)[client]? = l.inner[client]? := fun e => by
    rw [Table.lookup_insert, if_neg (Ne.symm hkey)]
  unfold RateLimiter.count
  split_ifs <;> simpa only [RateLimiter.Spent, RateLimiter.Unspent, hlookup] using h

/-- One more request of the client is counted, or refused if all are. -/
theorem Spent.count_own {n : Nat} (h : l.Spent client start n) (hnow : start ≤ now ∧ now < start + l.window) :
    (l.count client now).2.Spent client start (if (l.count client now).1 = .allowed then n + 1 else n) := by
  -- the entry is the one of this window, or it starts now
  have hentry : start ≤ (l.entry client now).started ∧ n ≤ (l.entry client now).count ∧
    (l.entry client now).count ≤ l.permitted := by
    unfold RateLimiter.entry
    rcases h with ⟨w, hw, hstart, hn, hle⟩ | ⟨rfl, hunspent⟩
    · simp only [hw, Option.getD_some]
      rw [if_neg (by omega)]
      exact ⟨hstart, hn, hle⟩
    · have hnew : (if l.window ≤ now - ((l.inner[client]?).getD ⟨now, 0⟩).started then ⟨now, 0⟩
          else (l.inner[client]?).getD ⟨now, 0⟩) =
          (⟨now, 0⟩ : Window) := by
        cases hw : l.inner[client]? with
        | none => rw [Option.getD_none, ite_self]
        | some w =>
          have hold := hunspent w hw
          rw [Option.getD_some, if_pos (by omega)]
      simp only [hnew]
      exact ⟨hnow.1, Nat.le_refl _, Nat.zero_le _⟩
  obtain ⟨hstart, hn, hle⟩ := hentry
  unfold RateLimiter.count
  by_cases hfull : l.permitted ≤ (l.entry client now).count
  · simp only [if_pos hfull, reduceCtorEq, if_false]
    exact .inl ⟨_, Table.lookup_insert_self _ _ _, hstart, hn, hle⟩
  · simp only [if_neg hfull, if_true]
    exact .inl ⟨_, Table.lookup_insert_self _ _ _, hstart, Nat.succ_le_succ hn, Nat.lt_of_not_le hfull⟩

theorem count_sameLimits : l.SameLimits (l.count key now).2 := by
  unfold RateLimiter.count
  split_ifs <;> exact ⟨rfl, rfl⟩

theorem checkAt_sameLimits : l.SameLimits (l.checkAt key now).2 := by
  have hswept : l.SameLimits (l.swept now) := ⟨rfl, rfl⟩
  unfold RateLimiter.checkAt
  split_ifs
  · exact hswept
  · exact ⟨count_sameLimits.1, count_sameLimits.2⟩
  · exact count_sameLimits

theorem Spent.check_other {n : Nat} (h : l.Spent client start n) (hkey : key ≠ client)
    (hnow : start ≤ now ∧ now < start + l.window) :
    (l.checkAt key now).2.Spent client start n := by
  unfold RateLimiter.checkAt
  split_ifs
  · exact Spent.sweep h hnow
  · exact Spent.count_other (Spent.sweep h hnow) hkey
  · exact Spent.count_other h hkey

theorem Spent.check_own {n : Nat} (h : l.Spent client start n) (hnow : start ≤ now ∧ now < start + l.window) :
    (l.checkAt client now).2.Spent client start (if (l.checkAt client now).1 = .allowed then n + 1 else n) := by
  unfold RateLimiter.checkAt
  by_cases hnew : l.capacity ≤ l.inner.size ∧ (l.inner[client]?).isNone
  · rw [if_pos hnew]
    by_cases hfull : l.capacity ≤ (l.swept now).inner.size
    · rw [if_pos hfull]
      exact Spent.sweep h hnow
    · rw [if_neg hfull]
      exact Spent.count_own (Spent.sweep h hnow) hnow
  · rw [if_neg hnew]
    exact Spent.count_own h hnow

end Limiter

/-! ## Sequences of requests -/

section Sequences

variable {r : Registry} {l : RateLimiter} {client : String} {start : Nat}

/-- A request with a valid token does not touch the limiter; one without is a guess. -/
theorem handle_valid {v : Visit} (h : v.valid r = true) : handle r l v = (.linked, l) := by
  obtain ⟨token, htoken, hnamed⟩ := (Option.any_eq_true _ _).mp h
  unfold handle
  cases hroute : v.route <;> simp_all

theorem handle_sameLimits (v : Visit) : l.SameLimits (handle r l v).2 := by
  unfold handle
  split <;> (try split_ifs) <;> first | exact checkAt_sameLimits | exact ⟨rfl, rfl⟩

/-- Another client's request leaves the count alone. -/
theorem Spent.handle_other {n : Nat} {v : Visit} (h : l.Spent client start n) (hclient : v.client ≠ client)
    (hnow : start ≤ v.now ∧ v.now < start + l.window) : (handle r l v).2.Spent client start n := by
  unfold handle
  split <;> (try split_ifs) <;> first | exact Spent.check_other h hclient hnow | exact h

/-- A heeded guess is answered as unknown only if it could be counted. -/
theorem Spent.handle_own {n : Nat} {v : Visit} (h : l.Spent client start n) (hclient : v.client = client)
    (hguess : v.valid r = false)
    (hheeded : heeded v.route (parseToken v.token).isSome) (hnow : start ≤ v.now ∧ v.now < start + l.window) :
    (handle r l v).2.Spent client start (if (handle r l v).1 = .unknown then n + 1 else n) := by
  have hcheck := Spent.check_own h hnow
  have hreply : handle r l v = ((l.checkAt v.client v.now).1.reply, (l.checkAt v.client v.now).2) := by
    unfold handle
    cases hroute : v.route <;> cases hparse : parseToken v.token <;> simp_all [heeded, Visit.valid]
  rw [hreply, hclient]
  cases hdecision : (l.checkAt client v.now).1 with
  | allowed => simpa only [hdecision, RateDecision.reply, if_true] using hcheck
  | throttled seconds => simpa only [hdecision, RateDecision.reply, reduceCtorEq, if_false] using hcheck

/-- Along a sequence: the guesses answered as unknown are all counted. -/
theorem Spent.unknowns_le {vs : List Visit} {n : Nat} (h : l.Spent client start n)
    (hnow : ∀ v ∈ vs, start ≤ v.now ∧ v.now < start + l.window)
    (hheeded : ∀ v ∈ vs, v.client = client → v.valid r = false → heeded v.route (parseToken v.token).isSome) :
    n + unknowns client (answers r l vs) ≤ l.permitted := by
  induction vs generalizing l n with
  | nil => exact Spent.le h
  | cons v vs ih =>
    obtain ⟨hpermitted, hwindow⟩ := handle_sameLimits (r := r) (l := l) v
    have hv := hnow v List.mem_cons_self
    have hrest : ∀ v' ∈ vs, start ≤ v'.now ∧ v'.now < start + (handle r l v).2.window := fun v' hv' => by
      rw [hwindow]
      exact hnow v' (List.mem_cons_of_mem v hv')
    have hstep : ∀ {m : Nat}, (handle r l v).2.Spent client start m →
      m + unknowns client (answers r (handle r l v).2 vs) ≤ l.permitted :=
      fun hm => hpermitted ▸ ih hm hrest fun v' hv' => hheeded v' (List.mem_cons_of_mem v hv')
    have hcount : unknowns client (answers r l (v :: vs)) = unknowns client (answers r (handle r l v).2 vs) +
        if v.client = client ∧ (handle r l v).1 = .unknown then 1 else 0 := by
      simp [unknowns, answers, List.countP_cons]
    rw [hcount]
    by_cases hclient : v.client = client
    · cases hvalid : v.valid r with
      | true =>
        rw [handle_valid hvalid] at hstep ⊢
        simpa using hstep h
      | false =>
        have hle := hstep (Spent.handle_own h hclient hvalid (hheeded v List.mem_cons_self hclient hvalid) hv)
        by_cases hunknown : (handle r l v).1 = .unknown
        · rw [if_pos hunknown] at hle
          rw [if_pos ⟨hclient, hunknown⟩]
          omega
        · rw [if_neg hunknown] at hle
          rw [if_neg fun hc => hunknown hc.2]
          exact hle
    · rw [if_neg fun hc => hclient hc.1]
      exact hstep (Spent.handle_other h hclient hv)

end Sequences

namespace Sample

/-- No share and no embed. -/
def nothing : Registry := ⟨fun _ => false, fun _ => false⟩

def limiter : RateLimiter := ⟨∅, 1, 10, 8⟩

/-- A guess: a well-formed token, or the empty text. -/
def guess (route : Route) (wellFormed : Bool) : Visit :=
  ⟨"10.0.0.1", 0, route, if wellFormed then "aaaaaaaaaaaaaaaaaaaaaaaaaaaaaaaaaaaaaaaaaaa" else ""⟩

theorem guess_kind (route : Route) (wellFormed : Bool) :
    (parseToken (guess route wellFormed).token).isSome = wellFormed := by
  cases route <;> cases wellFormed <;> decide +kernel

/-- A kind of guess that is not heeded is answered as unknown twice, where one is permitted. -/
theorem unknowns_unheeded {route : Route} {wellFormed : Bool} (h : ¬ heeded route wellFormed) :
    unknowns "10.0.0.1" (answers nothing limiter [guess route wellFormed, guess route wellFormed]) = 2 := by
  cases route <;> cases wellFormed <;> first | exact absurd (by decide) h | decide +kernel

end Sample

/-- Exactly the guesses that are heeded are bounded: malformed tokens on the descriptor route and well-formed ones on
the content routes.  A guess is answered as unknown or throttled, and a valid token is neither counted nor refused. -/
theorem guessing_bounded_iff (kinds : Route → Bool → Prop) :
    ((∀ (r : Registry) (l : RateLimiter) (client : String) (start : Nat) (vs : List Visit), l.Unspent client start →
        (∀ v ∈ vs, start ≤ v.now ∧ v.now < start + l.window) →
        (∀ v ∈ vs, v.client = client → v.valid r = false → kinds v.route (parseToken v.token).isSome) →
        unknowns client (answers r l vs) ≤ l.permitted) ↔
      ∀ route wellFormed, kinds route wellFormed → heeded route wellFormed) ∧
    ∀ (r : Registry) (l : RateLimiter) (v : Visit),
      (v.valid r = true → handle r l v = (.linked, l)) ∧ (v.valid r = false → (handle r l v).1 ≠ .linked) := by
  refine ⟨⟨fun h route wellFormed hkind => ?_, fun h r l client start vs hunspent hnow hkinds => ?_⟩,
    fun r l v => ⟨handle_valid, ?_⟩⟩
  · by_contra hunheeded
    have hle := h Sample.nothing Sample.limiter "10.0.0.1" 0 [Sample.guess route wellFormed,
      Sample.guess route wellFormed]
      (fun w hw => absurd hw (by rw [Sample.limiter, Table.lookup_empty]; exact nofun)) (fun v hv => ?_)
      fun v hv _ _ => ?_
    · rw [Sample.unknowns_unheeded hunheeded] at hle
      exact absurd hle (by decide)
    all_goals
      obtain rfl : v = Sample.guess route wellFormed := by simpa using hv
    · exact ⟨Nat.le_refl 0, (by decide : 0 < 0 + 10)⟩
    · rwa [Sample.guess_kind]
  · have hle := Spent.unknowns_le (r := r) (.inr ⟨rfl, hunspent⟩) hnow fun v hv hclient hguess =>
      h _ _ (hkinds v hv hclient hguess)
    rwa [Nat.zero_add] at hle
  · intro hguess
    have hreply : ∀ d : RateDecision, d.reply ≠ .linked := fun d => by cases d <;> simp [RateDecision.reply]
    unfold handle
    cases hroute : v.route <;> cases hparse : parseToken v.token <;> simp_all [Visit.valid]

theorem guessing_bounded_content : heeded .content true ∧
    unknowns "10.0.0.1"
      (answers Sample.nothing Sample.limiter [Sample.guess .content true, Sample.guess .content true]) ≤ 1 := by
  refine ⟨by decide, (guessing_bounded_iff fun route wellFormed => route = .content ∧
    wellFormed = true).1.mpr ?_ Sample.nothing
    Sample.limiter "10.0.0.1" 0 _ ?_ ?_ fun v hv _ _ => ?_⟩
  · rintro route wellFormed ⟨rfl, rfl⟩
    decide
  · exact fun w hw => absurd hw (by rw [Sample.limiter, Table.lookup_empty]; exact nofun)
  · decide
  · obtain rfl : v = Sample.guess .content true := by simpa using hv
    exact ⟨rfl, Sample.guess_kind .content true⟩

/-- Unknown tokens on the descriptor route are never throttled, malformed ones on the unlock route not even counted. -/
theorem guessing_unbounded :
    (answers Sample.nothing Sample.limiter
      [Sample.guess .descriptor true, Sample.guess .descriptor true]).map Prod.snd =
      [.unknown, .unknown] ∧
    (answers Sample.nothing Sample.limiter [Sample.guess .unlock false, Sample.guess .unlock false]).map Prod.snd =
      [.unknown, .unknown] ∧
      (handle Sample.nothing Sample.limiter (Sample.guess .unlock false)).2.inner.toList = [] := by
  decide +kernel

end RecordStore.Sharing
