import RecordStore.Lib.Tx

/-!
# Lib.GroupCommit — one transaction for many requests

A writer takes the requests that have queued and runs them in one transaction; if any of them fails,
the transaction is dropped and each request gets one of its own.  The callers cannot tell: the replies
and the state are those of the requests run one by one.

A failure may be `fatal` to the writer: it ends without answering the request or any after it.  A reply
is then `none`, a channel that was dropped.
-/

namespace RecordStore.Lib.GroupCommit

open Tx

variable {σ ε α β : Type}

/-- What the caller of each request receives. -/
abbrev Replies (ε α : Type) := List (Option (Except ε α))

/-- Each request in a transaction of its own, in order. -/
def oneByOne (fatal : ε → Bool) (f : β → Tx σ ε α) : List β → σ → Replies ε α × σ
  | [], s => ([], s)
  | b :: bs, s =>
    match commit (f b) s with
    | (.ok a, s') => ((some (.ok a)) :: (oneByOne fatal f bs s').1, (oneByOne fatal f bs s').2)
    | (.error e, s') =>
      if fatal e then ((b :: bs).map fun _ => none, s')
      else ((some (.error e)) :: (oneByOne fatal f bs s').1, (oneByOne fatal f bs s').2)

/-- All requests in one transaction; after a failure, each in its own. -/
def together (fatal : ε → Bool) (f : β → Tx σ ε α) (batch : List β) (s : σ) : Replies ε α × σ :=
  match commit (batch.mapM f) s with
  | (.ok outcomes, s') => (outcomes.map fun a => some (.ok a), s')
  | (.error e, _) => if fatal e then (batch.map fun _ => none, s) else oneByOne fatal f batch s

variable {fatal : ε → Bool} {f : β → Tx σ ε α} {s s' : σ}

/-- Requests that all succeed in one transaction succeed in their own, with the same results. -/
theorem oneByOne_of_returns {batch : List β} {outcomes : List α} (h : Returns (batch.mapM f) s outcomes s') :
    oneByOne fatal f batch s = (outcomes.map fun a => some (.ok a), s') := by
  induction batch generalizing s outcomes with
  | nil =>
    obtain ⟨rfl, rfl⟩ := returns_mapM_nil.mp h
    rfl
  | cons b bs ih =>
    obtain ⟨a, s₁, rest, h1, h2, rfl⟩ := returns_mapM_cons.mp h
    simp only [oneByOne, commit_of_returns h1, ih h2, List.map_cons]

/-- A failure of the whole is a failure of the first request or of the others after it. -/
theorem fails_mapM_cons {b : β} {bs : List β} {e : ε} (h : Fails ((b :: bs).mapM f) s e) :
    Fails (f b) s e ∨ ∃ a s₁, Returns (f b) s a s₁ ∧ Fails (bs.mapM f) s₁ e := by
  rw [List.mapM_cons] at h
  rcases fails_bind.mp h with h | ⟨a, s₁, h1, h2⟩
  · exact .inl h
  · refine .inr ⟨a, s₁, h1, ?_⟩
    rcases fails_bind.mp h2 with h2 | ⟨_, _, _, h3⟩
    · exact h2
    · exact absurd h3 fails_pure

/-- A request that is fatal in the one transaction is fatal in its own: everything before it succeeds. -/
theorem none_mem_of_fatal {batch : List β} {e : ε} (h : Fails (batch.mapM f) s e) (he : fatal e = true) :
    none ∈ (oneByOne fatal f batch s).1 := by
  induction batch generalizing s with
  | nil => exact absurd h fails_pure
  | cons b bs ih =>
    rcases fails_mapM_cons h with h1 | ⟨a, s₁, h1, h2⟩
    · simp [oneByOne, commit_of_fails h1, he]
    · simp only [oneByOne, commit_of_returns h1]
      exact List.mem_cons_of_mem _ (ih h2)

/-- Unless a request ends the writer, the one transaction cannot be told from one for each. -/
theorem together_eq_oneByOne {batch : List β} (h : ∀ e, Fails (batch.mapM f) s e → fatal e = false) :
    together fatal f batch s = oneByOne fatal f batch s := by
  unfold together
  rcases returns_or_fails (batch.mapM f) s with ⟨outcomes, s', hr⟩ | ⟨e, hf⟩
  · rw [commit_of_returns hr, oneByOne_of_returns hr]
  · simp [commit_of_fails hf, h e hf]

theorem together_eq_of_answered {batch : List β} (h : none ∉ (oneByOne fatal f batch s).1) :
    together fatal f batch s = oneByOne fatal f batch s := by
  apply together_eq_oneByOne
  intro e hf
  rw [← Bool.not_eq_true]
  exact fun he => h (none_mem_of_fatal hf he)

end RecordStore.Lib.GroupCommit
