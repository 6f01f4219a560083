import RecordStore.Lib.Pool

/-!
# Consensus.Voters — changes to the voting members

`promote_member`, `demote_member` and `remove_member` read the voters from the published metrics, make a
complete new set of them and submit it.  Consensus takes one submitted set after the other.  What a call
submits undoes every change that took effect after its read.
-/

namespace RecordStore.Consensus.Voters

open RecordStore.Lib

/-! ## The group and one change -/

/-- The members of the group: those that vote, and all of them. -/
structure Group where
  voters : Finset UInt64
  nodes : Finset UInt64

namespace Group

/-- `change_membership` with a set of voters: a voter must be a member, and one that is left out stays as a learner. -/
def changeVoters (g : Group) (voters : Finset UInt64) : Option Group :=
  if voters ⊆ g.nodes then some { g with voters := voters } else none

/-- `change_membership` with `RemoveNodes`: a member that votes is not removed. -/
def removeNode (g : Group) (id : UInt64) : Option Group :=
  if id ∈ g.voters then none else some { g with nodes := g.nodes.erase id }

end Group

inductive Change where
  | promote (id : UInt64)
  | demote (id : UInt64)
  | remove (id : UInt64)
  deriving DecidableEq

namespace Change

def member : Change → UInt64
  | promote id | demote id | remove id => id

/-- Whether the member is to vote. -/
def votes : Change → Bool
  | promote _ => true
  | demote _ | remove _ => false

/-- The set that a call submits for the set it has read. -/
def submission (c : Change) (read : Finset UInt64) : Finset UInt64 :=
  if c.votes then insert c.member read else read.erase c.member

theorem mem_submission {read : Finset UInt64} {c : Change} {m : UInt64} :
    m ∈ c.submission read ↔ if m = c.member then c.votes = true else m ∈ read := by
  unfold submission
  by_cases hv : c.votes = true <;> by_cases hm : m = c.member <;> simp [hv, hm]

/-- The change does to the voters what it says, and nothing else. -/
def Exact (c : Change) (before after : Finset UInt64) : Prop :=
  ∀ m, m ∈ after ↔ if m = c.member then c.votes = true else m ∈ before

/-- A submitted set is exact if what was read is still so, but for the member that the change is about. -/
theorem exact_submission_iff {c : Change} {read voters : Finset UInt64} :
    c.Exact voters (c.submission read) ↔ read.erase c.member = voters.erase c.member := by
  constructor
  · intro h
    ext m
    have hm := h m
    rw [mem_submission] at hm
    by_cases hc : m = c.member
    · simp [hc]
    · simpa [hc] using hm
  · intro h m
    rw [mem_submission]
    by_cases hc : m = c.member
    · simp [hc]
    · have hm : m ∈ read.erase c.member ↔ m ∈ voters.erase c.member := by rw [h]
      simpa [hc] using hm

/-- A change that leaves the voters as they are is exact if the member already is what it says. -/
theorem exact_self_iff {c : Change} {voters : Finset UInt64} :
    c.Exact voters voters ↔ (c.member ∈ voters ↔ c.votes = true) := by
  constructor
  · intro h
    simpa using h c.member
  · intro h m
    by_cases hc : m = c.member
    · rw [if_pos hc, hc]
      exact h
    · rw [if_neg hc]

theorem Exact.promote_subset {id : UInt64} {before after : Finset UInt64} (h : (promote id).Exact before after) :
    before ⊆ after := by
  intro m hm
  rw [h m]
  split_ifs
  · rfl
  · exact hm

end Change

/-! ## A call -/

inductive Outcome where
  | ok
  -- `Configuration`: the last voter, or a voter that is no member
  | refused
  -- another error, such as that the member no longer leads
  | failed
  deriving DecidableEq

inductive Phase where
  | begun
  -- the voters have been read
  | holding (read : Finset UInt64)
  -- a removal after its `demote_member`
  | dropping
  | done (outcome : Outcome)
  deriving DecidableEq

structure Call where
  change : Change
  phase : Phase
  deriving DecidableEq

/-- What one step of a call does: the group after it, where the call goes on, and whether the call counts its change
as made from here on. -/
structure Turn where
  group : Group
  phase : Phase
  effect : Bool

namespace Call

/-- `voter_ids`, and what the call decides on it. -/
def onRead (c : Call) (g : Group) (metrics : Finset UInt64) : Turn :=
  match c.change with
  | .promote id =>
    -- such a member votes already
    if id ∈ metrics then ⟨g, .done .ok, true⟩ else ⟨g, .holding metrics, false⟩
  | .demote id | .remove id =>
    -- the last voter stays
    if metrics.erase id = ∅ then ⟨g, .done .refused, false⟩ else ⟨g, .holding metrics, false⟩

/-- Where the call goes on when `set_voters` has succeeded. -/
def afterVoters (c : Call) : Phase :=
  match c.change with
  | .promote _ | .demote _ => .done .ok
  | .remove _ => .dropping

/-- `set_voters` -/
def onSubmit (c : Call) (g : Group) (read : Finset UInt64) : Turn :=
  match g.changeVoters (c.change.submission read) with
  | some g' => ⟨g', c.afterVoters, true⟩
  | none => ⟨g, .done .refused, false⟩

/-- `set_voters` ends in an error that is no `Configuration`: `remove_member` goes on as if it had succeeded. -/
def onLost (c : Call) (g : Group) : Turn :=
  match c.change with
  | .promote _ | .demote _ => ⟨g, .done .failed, false⟩
  | .remove _ => ⟨g, .dropping, true⟩

/-- The last step of `remove_member`: a refusal is taken for a member that is gone. -/
def onDrop (c : Call) (g : Group) : Turn :=
  ⟨(g.removeNode c.change.member).getD g, .done .ok, false⟩

end Call

/-! ## Calls side by side -/

structure World where
  group : Group
  -- the voters that the metrics show
  metrics : Finset UInt64
  calls : List Call
  -- the calls that count their change as made, the last one first
  effects : List (Nat × Change)

/-- A step of a call. -/
inductive Move where
  | read
  | submit
  -- the answer is an error that is no `Configuration`
  | lose
  | drop
  deriving DecidableEq

inductive Event where
  | call (change : Change)
  -- the metrics follow the group
  | publish
  | move (call : Nat) (move : Move)
  deriving DecidableEq

namespace World

def initial (g : Group) : World := ⟨g, g.voters, [], []⟩

/-- Call `i` makes a step. -/
def take (w : World) (i : Nat) (c : Call) (t : Turn) : World where
  group := t.group
  metrics := w.metrics
  calls := w.calls.set i { c with phase := t.phase }
  effects := if t.effect then (i, c.change) :: w.effects else w.effects

def turn (w : World) (c : Call) : Move → Option Turn
  | .read => match c.phase with
    | .begun => some (c.onRead w.group w.metrics)
    | _ => none
  | .submit => match c.phase with
    | .holding read => some (c.onSubmit w.group read)
    | _ => none
  | .lose => match c.phase with
    | .holding _ => some (c.onLost w.group)
    | .dropping => some ⟨w.group, .done .failed, false⟩
    | _ => none
  | .drop => match c.phase with
    | .dropping => some (c.onDrop w.group)
    | _ => none

def step (w : World) : Event → Option World
  | .call change => some { w with calls := w.calls ++ [⟨change, .begun⟩] }
  | .publish => some { w with metrics := w.group.voters }
  | .move i m => w.calls[i]?.bind fun c => (w.turn c m).map (w.take i c)

/-- What a step of a call can be. -/
theorem turn_cases {w : World} {c : Call} {m : Move} {t : Turn} (h : w.turn c m = some t) :
    (m = .read ∧ c.phase = .begun ∧ t = c.onRead w.group w.metrics) ∨
      (∃ read, m = .submit ∧ c.phase = .holding read ∧ t = c.onSubmit w.group read) ∨
      (∃ read, m = .lose ∧ c.phase = .holding read ∧ t = c.onLost w.group) ∨
      (m = .lose ∧ c.phase = .dropping ∧ t = ⟨w.group, .done .failed, false⟩) ∨
      (m = .drop ∧ c.phase = .dropping ∧ t = c.onDrop w.group) := by
  cases m <;> cases hp : c.phase <;> simp_all [turn]

theorem move_eq_some {w w' : World} {i : Nat} {m : Move} (h : w.step (.move i m) = some w') :
    ∃ c t, w.calls[i]? = some c ∧ w.turn c m = some t ∧ w' = w.take i c t := by
  obtain ⟨c, hc, h⟩ := Option.bind_eq_some_iff.mp h
  obtain ⟨t, ht, rfl⟩ := Option.map_eq_some_iff.mp h
  exact ⟨c, t, hc, ht, rfl⟩

/-! ## Voters that the changes ask for -/

/-- The member is to vote: the last change about it says so, or there is none and it voted at the start. -/
def Wanted (start : Finset UInt64) (effects : List (Nat × Change)) (m : UInt64) : Prop :=
  match effects.find? fun e => e.2.member = m with
  | some e => e.2.votes = true
  | none => m ∈ start

instance {start : Finset UInt64} {effects : List (Nat × Change)} {m : UInt64} : Decidable (Wanted start effects m) := by
  unfold Wanted
  split <;> infer_instance

theorem wanted_cons {start : Finset UInt64} {effects : List (Nat × Change)} {i : Nat} {c : Change} {m : UInt64} :
    Wanted start ((i, c) :: effects) m ↔ if m = c.member then c.votes = true else Wanted start effects m := by
  unfold Wanted
  rw [List.find?_cons]
  by_cases h : m = c.member
  · simp [h]
  · simp [h, Ne.symm h]

/-- The voters are those that the changes ask for. -/
def Follows (start : Finset UInt64) (w : World) : Prop := ∀ m, m ∈ w.group.voters ↔ Wanted start w.effects m

theorem follows_take_iff {start : Finset UInt64} {w : World} (h : w.Follows start) {i : Nat} {c : Call} {t : Turn} :
    (w.take i c t).Follows start ↔
      if t.effect then c.change.Exact w.group.voters t.group.voters else t.group.voters = w.group.voters := by
  unfold Follows take
  cases t.effect with
  | true =>
    simp only [if_true, wanted_cons, Change.Exact, ← h _]
  | false =>
    simp only [Bool.false_eq_true, if_false, ← h _]
    exact Finset.ext_iff.symm

/-- What a call decides on is still so: a member that needs no promotion votes, a submitted set differs from the
voters in the call's own member only, and a removal that goes on without its demotion is of a member that does not
vote. -/
def Fresh (w : World) : Event → Prop
  | .move i m => ∀ c ∈ w.calls[i]?,
    match m, c.phase with
    | .read, .begun => c.change.votes = true → c.change.member ∈ w.metrics → c.change.member ∈ w.group.voters
    | .submit, .holding read => c.change.submission read ⊆ w.group.nodes →
        read.erase c.change.member = w.group.voters.erase c.change.member
    | .lose, .holding _ => c.afterVoters = .dropping → c.change.member ∉ w.group.voters
    | _, _ => True
  | .call _ | .publish => True

instance {w : World} {e : Event} : Decidable (w.Fresh e) :=
  match e with
  | .call _ | .publish => isTrue trivial
  | .move i m =>
    have : ∀ c : Call, Decidable (match m, c.phase with
        | .read, .begun => c.change.votes = true → c.change.member ∈ w.metrics → c.change.member ∈ w.group.voters
        | .submit, .holding read => c.change.submission read ⊆ w.group.nodes →
            read.erase c.change.member = w.group.voters.erase c.change.member
        | .lose, .holding _ => c.afterVoters = .dropping → c.change.member ∉ w.group.voters
        | _, _ => True) := fun c => by
      split <;> infer_instance
    inferInstanceAs (Decidable (∀ c ∈ w.calls[i]?, _))

theorem exact_onRead_iff {g : Group} {c : Call} {metrics : Finset UInt64} :
    (if (c.onRead g metrics).effect then c.change.Exact g.voters (c.onRead g metrics).group.voters
      else (c.onRead g metrics).group.voters = g.voters) ↔
      (c.change.votes = true → c.change.member ∈ metrics → c.change.member ∈ g.voters) := by
  unfold Call.onRead
  cases hc : c.change with
  | promote id =>
    by_cases hm : id ∈ metrics
    · simp [hm, Change.exact_self_iff, Change.member, Change.votes]
    · simp [hm, Change.member]
  | demote id => by_cases hm : metrics.erase id = ∅ <;> simp [hm, Change.votes]
  | remove id => by_cases hm : metrics.erase id = ∅ <;> simp [hm, Change.votes]

theorem exact_onSubmit_iff {g : Group} {c : Call} {read : Finset UInt64} :
    (if (c.onSubmit g read).effect then c.change.Exact g.voters (c.onSubmit g read).group.voters
      else (c.onSubmit g read).group.voters = g.voters) ↔
      (c.change.submission read ⊆ g.nodes → read.erase c.change.member = g.voters.erase c.change.member) := by
  unfold Call.onSubmit Group.changeVoters
  by_cases hn : c.change.submission read ⊆ g.nodes
  · simp only [if_true, Change.exact_submission_iff, hn, true_imp_iff]
  · simp [hn]

theorem exact_onLost_iff {g : Group} {c : Call} :
    (if (c.onLost g).effect then c.change.Exact g.voters (c.onLost g).group.voters
      else (c.onLost g).group.voters = g.voters) ↔ (c.afterVoters = .dropping → c.change.member ∉ g.voters) := by
  unfold Call.onLost Call.afterVoters
  cases hc : c.change with
  | promote id => simp
  | demote id => simp
  | remove id => simp [Change.exact_self_iff, Change.member, Change.votes]

theorem onDrop_voters {g : Group} {c : Call} : (c.onDrop g).group.voters = g.voters := by
  unfold Call.onDrop Group.removeNode
  split_ifs <;> rfl

/-- A step keeps the voters that the changes ask for if and only if it finds what its call decided on. -/
theorem follows_step_iff {start : Finset UInt64} {w w' : World} {e : Event} (h : w.Follows start)
    (hs : w.step e = some w') : w'.Follows start ↔ w.Fresh e := by
  cases e with
  | call change =>
    cases hs
    exact iff_of_true h trivial
  | publish =>
    cases hs
    exact iff_of_true h trivial
  | move i m =>
    obtain ⟨c, t, hc, ht, rfl⟩ := move_eq_some hs
    rw [follows_take_iff h, Fresh, hc]
    simp only [Option.mem_some_iff, forall_eq']
    obtain ⟨rfl, hp, rfl⟩ | ⟨read, rfl, hp, rfl⟩ | ⟨read, rfl, hp, rfl⟩ | ⟨rfl, hp, rfl⟩ | ⟨rfl, hp, rfl⟩ :=
      turn_cases ht
    · rw [exact_onRead_iff, hp]
    · rw [exact_onSubmit_iff, hp]
    · rw [exact_onLost_iff, hp]
    · rw [hp]
      exact iff_of_true rfl trivial
    · rw [hp]
      exact iff_of_true onDrop_voters trivial

end World

namespace Phase

/-- The call counts its change as made. -/
def Settled (p : Phase) : Prop := p = .done .ok ∨ p = .dropping

/-- The change is still to be made. -/
def Pending (p : Phase) : Prop := p = .begun ∨ ∃ read, p = .holding read

end Phase

/-- What the steps of a call have in common. -/
structure Turn.Sound (c : Call) (t : Turn) : Prop where
  voters : t.group.voters.Nonempty
  held : ∀ read, t.phase = .holding read → (c.change.submission read).Nonempty
  settled : t.phase.Settled → t.effect = true ∨ c.phase.Settled
  pending : t.phase.Pending → t.effect = false ∧ c.phase.Pending
  effect : t.effect = true → c.phase.Pending

namespace Turn

variable {g : Group} {c : Call} {read : Finset UInt64}

/-- The call goes on with the set that it has read. -/
theorem sound_holding (hv : g.voters.Nonempty) (hp : c.phase = .begun) (hs : (c.change.submission read).Nonempty) :
    Turn.Sound c ⟨g, .holding read, false⟩ where
  voters := hv
  held := fun _ hr => Phase.holding.inj hr ▸ hs
  settled := fun h => by simp [Phase.Settled] at h
  pending := fun _ => ⟨rfl, .inl hp⟩
  effect := nofun

/-- The call ends with an error. -/
theorem sound_error (hv : g.voters.Nonempty) {o : Outcome} (ho : o ≠ .ok) : Turn.Sound c ⟨g, .done o, false⟩ where
  voters := hv
  held := nofun
  settled := fun h => by simp [Phase.Settled, ho] at h
  pending := fun h => by simp [Phase.Pending] at h
  effect := nofun

/-- The call counts its change as made. -/
theorem sound_effect (hv : g.voters.Nonempty) (hp : c.phase.Pending) {p : Phase} (hset : p.Settled) :
    Turn.Sound c ⟨g, p, true⟩ where
  voters := hv
  held := fun _ hr => by simp [Phase.Settled, show p = _ from hr] at hset
  settled := fun _ => .inl rfl
  pending := fun h => by rcases hset with rfl | rfl <;> simp [Phase.Pending] at h
  effect := fun _ => hp

theorem sound_onRead {metrics : Finset UInt64} (hv : g.voters.Nonempty) (hp : c.phase = .begun) :
    Turn.Sound c (c.onRead g metrics) := by
  have hdemote : ∀ id, c.change.votes = false → c.change.member = id →
      Turn.Sound c (if metrics.erase id = ∅ then ⟨g, .done .refused, false⟩ else ⟨g, .holding metrics, false⟩) := by
    rintro id hc rfl
    split_ifs with hm
    · exact sound_error hv nofun
    · refine sound_holding hv hp ?_
      rw [Change.submission, hc]
      exact Finset.nonempty_iff_ne_empty.mpr hm
  unfold Call.onRead
  cases hc : c.change with
  | promote id =>
    dsimp only
    split_ifs with hm
    · exact sound_effect hv (.inl hp) (.inl rfl)
    · refine sound_holding hv hp ⟨id, ?_⟩
      rw [hc]
      exact Finset.mem_insert_self id metrics
  | demote id => exact hdemote id (hc ▸ rfl) (hc ▸ rfl)
  | remove id => exact hdemote id (hc ▸ rfl) (hc ▸ rfl)

theorem sound_onSubmit (hv : g.voters.Nonempty) (hp : c.phase = .holding read)
    (hs : (c.change.submission read).Nonempty) : Turn.Sound c (c.onSubmit g read) := by
  unfold Call.onSubmit Group.changeVoters
  split_ifs
  · refine sound_effect hs (.inr ⟨read, hp⟩) ?_
    unfold Call.afterVoters
    cases c.change with
    | promote id => exact .inl rfl
    | demote id => exact .inl rfl
    | remove id => exact .inr rfl
  · exact sound_error hv nofun

theorem sound_onLost (hv : g.voters.Nonempty) (hp : c.phase = .holding read) : Turn.Sound c (c.onLost g) := by
  unfold Call.onLost
  cases c.change with
  | promote id => exact sound_error hv nofun
  | demote id => exact sound_error hv nofun
  | remove id => exact sound_effect hv (.inr ⟨read, hp⟩) (.inr rfl)

theorem sound_onDrop (hv : g.voters.Nonempty) (hp : c.phase = .dropping) : Turn.Sound c (c.onDrop g) where
  voters := by
    rw [World.onDrop_voters]
    exact hv
  held := nofun
  settled := fun _ => .inr (.inr hp)
  pending := fun h => by simp [Call.onDrop, Phase.Pending] at h
  effect := nofun

end Turn

namespace World

/-- The voters and the sets under way are not empty, and calls and effects tell the same story. -/
structure Sound (w : World) : Prop where
  voters : w.group.voters.Nonempty
  held : ∀ (i : Nat) (c : Call), w.calls[i]? = some c → ∀ read, c.phase = .holding read →
    (c.change.submission read).Nonempty
  settled : ∀ (i : Nat) (c : Call), w.calls[i]? = some c → c.phase.Settled → (i, c.change) ∈ w.effects
  pending : ∀ (i : Nat) (c : Call), w.calls[i]? = some c → c.phase.Pending → i ∉ w.effects.map Prod.fst
  known : ∀ e ∈ w.effects, ∃ c, w.calls[e.1]? = some c ∧ c.change = e.2
  once : (w.effects.map Prod.fst).Nodup

theorem sound_initial {g : Group} (h : g.voters.Nonempty) : (initial g).Sound where
  voters := h
  held := fun _ _ hc => nomatch hc
  settled := fun _ _ hc => nomatch hc
  pending := fun _ _ _ _ => List.not_mem_nil
  known := fun _ he => absurd he List.not_mem_nil
  once := List.nodup_nil

theorem sound_turn {w : World} (h : w.Sound) {i : Nat} {c : Call} (hc : w.calls[i]? = some c) {m : Move} {t : Turn}
    (ht : w.turn c m = some t) : t.Sound c := by
  obtain ⟨-, hp, rfl⟩ | ⟨read, -, hp, rfl⟩ | ⟨read, -, hp, rfl⟩ | ⟨-, hp, rfl⟩ | ⟨-, hp, rfl⟩ := turn_cases ht
  · exact Turn.sound_onRead h.voters hp
  · exact Turn.sound_onSubmit h.voters hp (h.held i c hc read hp)
  · exact Turn.sound_onLost h.voters hp
  · exact Turn.sound_error h.voters nofun
  · exact Turn.sound_onDrop h.voters hp

/-- A call after a step of call `i`: that one, or another one. -/
theorem getElem?_take {w : World} {i j : Nat} {c d : Call} {t : Turn} (hd : (w.take i c t).calls[j]? = some d) :
    (j = i ∧ d = { c with phase := t.phase }) ∨ (j ≠ i ∧ w.calls[j]? = some d) := by
  rw [take, List.getElem?_set] at hd
  split_ifs at hd with hij hlt
  · exact .inl ⟨hij.symm, (Option.some.inj hd).symm⟩
  · exact .inr ⟨Ne.symm hij, hd⟩

theorem mem_effects_take {w : World} {i : Nat} {c : Call} {t : Turn} {e : Nat × Change} :
    e ∈ (w.take i c t).effects ↔ (t.effect = true ∧ e = (i, c.change)) ∨ e ∈ w.effects := by
  unfold take
  cases t.effect <;> simp

theorem Sound.take {w : World} (h : w.Sound) {i : Nat} {c : Call} (hc : w.calls[i]? = some c) {t : Turn}
    (ht : t.Sound c) : (w.take i c t).Sound where
  voters := ht.voters
  held := by
    intro j d hd read hread
    obtain ⟨-, rfl⟩ | ⟨-, hd⟩ := getElem?_take hd
    · exact ht.held read hread
    · exact h.held j d hd read hread
  settled := by
    intro j d hd hset
    rw [mem_effects_take]
    obtain ⟨rfl, rfl⟩ | ⟨-, hd⟩ := getElem?_take hd
    · exact (ht.settled hset).imp (fun he => ⟨he, rfl⟩) (h.settled j c hc)
    · exact .inr (h.settled j d hd hset)
  pending := by
    intro j d hd hp hmem
    obtain ⟨e, he, rfl⟩ := List.mem_map.mp hmem
    rw [mem_effects_take] at he
    obtain ⟨hj, rfl⟩ | ⟨hj, hd⟩ := getElem?_take hd
    · have hpend := ht.pending hp
      rcases he with ⟨heff, -⟩ | he
      · exact absurd (hpend.1.symm.trans heff) nofun
      · exact h.pending i c hc hpend.2 (hj ▸ List.mem_map_of_mem he)
    · rcases he with ⟨-, rfl⟩ | he
      · exact hj rfl
      · exact h.pending e.1 d hd hp (List.mem_map_of_mem he)
  known := by
    intro e he
    have hset : (w.take i c t).calls[i]? = some { c with phase := t.phase } :=
      List.getElem?_set_self (List.getElem?_eq_some_iff.mp hc).1
    rcases mem_effects_take.mp he with ⟨-, rfl⟩ | he
    · exact ⟨_, hset, rfl⟩
    · obtain ⟨d, hd, hchange⟩ := h.known e he
      by_cases hi : i = e.1
      · subst hi
        exact ⟨_, hset, by rw [← hchange, Option.some.inj (hc.symm.trans hd)]⟩
      · exact ⟨d, (List.getElem?_set_ne hi).trans hd, hchange⟩
  once := by
    unfold World.take
    cases heff : t.effect with
    | false => exact h.once
    | true => exact List.nodup_cons.mpr ⟨h.pending i c hc (ht.effect heff), h.once⟩

theorem Sound.call {w : World} (h : w.Sound) (change : Change) :
    Sound { w with calls := w.calls ++ [⟨change, .begun⟩] } := by
  have hnew : ∀ j d, (w.calls ++ [⟨change, .begun⟩])[j]? = some d →
      w.calls[j]? = some d ∨ (j = w.calls.length ∧ d = ⟨change, .begun⟩) := by
    intro j d hd
    rcases Nat.lt_trichotomy j w.calls.length with hj | rfl | hj
    · exact .inl ((List.getElem?_append_left hj).symm.trans hd)
    · exact .inr ⟨rfl, (Option.some.inj ((List.getElem?_concat_length ..).symm.trans hd)).symm⟩
    · rw [List.getElem?_eq_none (by simpa using hj)] at hd
      exact absurd hd nofun
  exact
    { voters := h.voters
      held := by
        intro j d hd read hread
        obtain hd | ⟨-, rfl⟩ := hnew j d hd
        · exact h.held j d hd read hread
        · exact absurd hread nofun
      settled := by
        intro j d hd hset
        obtain hd | ⟨-, rfl⟩ := hnew j d hd
        · exact h.settled j d hd hset
        · exact hset.elim nofun nofun
      pending := by
        intro j d hd hp hmem
        obtain hd | ⟨rfl, -⟩ := hnew j d hd
        · exact h.pending j d hd hp hmem
        · obtain ⟨e, he, hj⟩ := List.mem_map.mp hmem
          obtain ⟨d, hd, -⟩ := h.known e he
          exact absurd (List.getElem?_eq_some_iff.mp hd).1 (by omega)
      known := by
        intro e he
        obtain ⟨d, hd, hchange⟩ := h.known e he
        exact ⟨d, (List.getElem?_append_left (List.getElem?_eq_some_iff.mp hd).1).trans hd, hchange⟩
      once := h.once }

theorem Sound.step {w w' : World} {e : Event} (h : w.Sound) (hs : w.step e = some w') : w'.Sound := by
  cases e with
  | call change =>
    cases hs
    exact h.call change
  | publish =>
    cases hs
    exact ⟨h.voters, h.held, h.settled, h.pending, h.known, h.once⟩
  | move i m =>
    obtain ⟨c, t, hc, ht, rfl⟩ := move_eq_some hs
    exact h.take hc (sound_turn h hc ht)

/-- A promotion that finds what it decided on takes no vote from anyone. -/
theorem promote_subset {start : Finset UInt64} {w w' : World} {i : Nat} {m : Move} (h : w.Follows start)
    (hf : w.Fresh (.move i m)) (hs : w.step (.move i m) = some w') {c : Call} (hc : w.calls[i]? = some c)
    {id : UInt64} (hp : c.change = .promote id) : w.group.voters ⊆ w'.group.voters := by
  obtain ⟨c', t, hc', ht, rfl⟩ := move_eq_some hs
  obtain rfl : c = c' := Option.some.inj (hc.symm.trans hc')
  have hex := (follows_take_iff h).mp ((follows_step_iff h hs).mpr hf)
  cases heff : t.effect with
  | true =>
    rw [heff, if_pos rfl, hp] at hex
    exact hex.promote_subset
  | false =>
    rw [heff, if_neg nofun] at hex
    exact hex.ge

/-! ## Every run -/

variable {start : Group} {events : List Event} {w : World}

theorem sound_run (h : start.voters.Nonempty) (hrun : run step (initial start) events = some w) : w.Sound :=
  run_preserves (fun _ _ _ hw hs => hw.step hs) events (sound_initial h) hrun

theorem follows_run (hf : Meets step Fresh (initial start) events) (hrun : run step (initial start) events = some w) :
    w.Follows start.voters :=
  run_invariant (fun _ _ _ hw hok hs => (follows_step_iff hw hs).mpr hok) events (fun _ => Iff.rfl) hf hrun

/-- In every run whose calls find what they decided on, the voters are those of the start as the settled calls have
changed them, one change after the other, and no promotion takes a vote away.  A step that finds something else is
exactly one that breaks this.  In every run some member votes. -/
theorem changes_take_effect_iff (hstart : start.voters.Nonempty)
    (hrun : run step (initial start) events = some w) :
    (Meets step Fresh (initial start) events →
      (∀ m, m ∈ w.group.voters ↔ Wanted start.voters w.effects m) ∧
      (∀ e w', w.step e = some w' → (w'.Follows start.voters ↔ w.Fresh e)) ∧
      (∀ (i : Nat) (m : Move) (w' : World) (c : Call) (id : UInt64), w.step (.move i m) = some w' →
        w.Fresh (.move i m) → w.calls[i]? = some c → c.change = .promote id → w.group.voters ⊆ w'.group.voters)) ∧
    (∀ (i : Nat) (c : Call), w.calls[i]? = some c → c.phase = .done .ok → (i, c.change) ∈ w.effects) ∧
    (∀ e ∈ w.effects, ∃ c, w.calls[e.1]? = some c ∧ c.change = e.2) ∧
    (w.effects.map Prod.fst).Nodup ∧ w.group.voters.Nonempty := by
  have hsound := sound_run hstart hrun
  refine ⟨fun hf => ?_, fun i c hc hok => hsound.settled i c hc (.inl hok), hsound.known, hsound.once, hsound.voters⟩
  have hfollows := follows_run hf hrun
  exact ⟨hfollows, fun e w' hs => follows_step_iff hfollows hs,
    fun i m w' c id hs hfresh hc hp => promote_subset hfollows hfresh hs hc hp⟩

namespace Sample

/-- One voter and two learners. -/
def group : Group := ⟨{1}, {1, 2, 3}⟩

/-- Two promotions, one after the other. -/
def inTurn : List Event :=
  [.call (.promote 2), .move 0 .read, .move 0 .submit, .publish, .call (.promote 3), .move 1 .read, .move 1 .submit]

/-- The same promotions: both read before either submits. -/
def sideBySide : List Event :=
  [.call (.promote 2), .call (.promote 3), .move 0 .read, .move 1 .read, .move 0 .submit, .move 1 .submit]

end Sample

/-- Each promotion reads what the one before it has left: three members vote. -/
theorem changes_take_effect_iff_in_turn : ∃ w, run step (initial Sample.group) Sample.inTurn = some w ∧
    (w.calls = [⟨.promote 2, .done .ok⟩, ⟨.promote 3, .done .ok⟩] ∧ w.group.voters = {1, 2, 3}) ∧
    ∀ m, m ∈ w.group.voters ↔ Wanted Sample.group.voters w.effects m := by
  have hfresh : Meets step Fresh (initial Sample.group) Sample.inTurn := by decide +kernel
  exact exists_and_of (by decide +kernel) fun w hrun _ =>
    ((changes_take_effect_iff (Finset.singleton_nonempty 1) hrun).1 hfresh).1

/-- Both promotions return `Ok`, and the first one's member does not vote: the second one took its vote away. -/
theorem promotion_lost : ∃ w, run step (initial Sample.group) Sample.sideBySide = some w ∧
    w.calls = [⟨.promote 2, .done .ok⟩, ⟨.promote 3, .done .ok⟩] ∧ w.group.voters = {1, 3} ∧
    Wanted Sample.group.voters w.effects 2 := by
  decide +kernel

end World

end RecordStore.Consensus.Voters
