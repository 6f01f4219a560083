import Mathlib

/-!
# Lib.Replay — a log applied up to a durable position

The entries of a log are numbered in increasing order.  A state that has applied a prefix of the log
records the number of the last entry; what is left to apply is read off that number.
-/

namespace RecordStore.Lib.Replay

variable {σ ε : Type}

/-- The entries after a recorded position. -/
def after (index : ε → Nat) (log : List ε) (applied : Option Nat) : List ε :=
  log.filter fun e => applied.all fun last => decide (last < index e)

section After

variable {index : ε → Nat} {log : List ε}

theorem after_eq_self {applied : Option Nat} (h : ∀ e ∈ log, ∀ last ∈ applied, last < index e) :
    after index log applied = log := by
  apply List.filter_eq_self.mpr
  intro e he
  cases applied with
  | none => rfl
  | some last => simpa using h e he last rfl

/-- After the entry at position `n` come those behind it. -/
theorem after_eq_drop (hlog : log.Pairwise fun e e' => index e < index e') {n : Nat} {e : ε} (he : log[n]? = some e) :
    after index log (some (index e)) = log.drop (n + 1) := by
  obtain ⟨hn, hget⟩ := List.getElem?_eq_some_iff.mp he
  have hsplit : log = log.take n ++ e :: log.drop (n + 1) := by
    rw [← hget, ← List.drop_eq_getElem_cons hn, List.take_append_drop]
  have hpairs := hlog
  rw [hsplit, List.pairwise_append, List.pairwise_cons] at hpairs
  obtain ⟨-, ⟨hlater, -⟩, hearlier⟩ := hpairs
  have hbefore : (log.take n).filter (fun x => decide (index e < index x)) = [] := by
    apply List.filter_eq_nil_iff.mpr
    intro x hx
    have := hearlier x hx e List.mem_cons_self
    simp only [decide_eq_true_eq]
    omega
  have hbehind : (log.drop (n + 1)).filter (fun x => decide (index e < index x)) = log.drop (n + 1) := by
    apply List.filter_eq_self.mpr
    intro x hx
    simpa using hlater x hx
  unfold after
  simp only [Option.all_some]
  conv_lhs => rw [hsplit]
  rw [List.filter_append, List.filter_cons_of_neg (by simp), hbefore, hbehind, List.nil_append]

end After

/-- The state is the one the first `n` entries of the log lead to.  An entry may have no effect to speak
of, and then nothing behind it is applied. -/
structure Applied (effect : ε → σ → Option σ) (init : σ) (log : List ε) (n : Nat) (s : σ) : Prop where
  le : n ≤ log.length
  eq : (log.take n).foldlM (fun s e => effect e s) init = some s

section Applied

variable {effect : ε → σ → Option σ} {init s s' : σ} {log : List ε} {n : Nat}

theorem Applied.zero : Applied effect init log 0 init := ⟨Nat.zero_le _, rfl⟩

theorem Applied.next (h : Applied effect init log n s) {e : ε} (he : log[n]? = some e) (hs : effect e s = some s') :
    Applied effect init log (n + 1) s' := by
  obtain ⟨hn, -⟩ := List.getElem?_eq_some_iff.mp he
  refine ⟨hn, ?_⟩
  rw [List.take_add_one, he, List.foldlM_append, h.eq]
  simpa using hs

/-- A field that every entry sets to its own value holds that of the last entry applied. -/
theorem Applied.last (h : Applied effect init log n s) {α : Type} {field : σ → α} {value : ε → α}
    (hset : ∀ e s s', effect e s = some s' → field s' = value e) :
    field s = (((log.take n).getLast?).map value).getD (field init) := by
  have heq := h.eq
  generalize log.take n = entries at heq ⊢
  cases entries using List.reverseRecOn with
  | nil =>
    obtain rfl : init = s := Option.some.inj heq
    rfl
  | append_singleton es e =>
    rw [List.foldlM_append] at heq
    obtain ⟨s₁, -, hlast⟩ := Option.bind_eq_some_iff.mp heq
    rw [List.getLast?_append_of_ne_nil _ (List.cons_ne_nil e [])]
    exact hset e s₁ s (by simpa using hlast)

end Applied

end RecordStore.Lib.Replay
