import RecordStore.Lib.Result

/-!
# Lib.Pool — processes over a shared state

A pool is a shared state and a growing list of processes.  One event moves the pool: a process makes a
move of its own, a process starts, or the shared state changes under all of them.  `run` is a sequence
of events, `Meets` says that a condition held before each of them.

The proof rule is that of processes that do not interfere.  `Holds I A C` is an invariant `I` of the shared
state, an assertion `A` that each process can make about it, and a relation `C` between any two processes
that keeps one from invalidating what the other asserts.
-/

namespace RecordStore.Lib

/-! ## Runs of events -/

section Runs

variable {σ ε : Type} {step : σ → ε → Option σ} {ok : σ → ε → Prop}

/-- The state after the events, if each of them can happen. -/
def run (step : σ → ε → Option σ) (s : σ) (events : List ε) : Option σ := events.foldlM step s

/-- The condition `ok` holds before each event of the run. -/
def Meets (step : σ → ε → Option σ) (ok : σ → ε → Prop) : σ → List ε → Prop
  | _, [] => True
  | s, e :: es => ok s e ∧ ∀ s', step s e = some s' → Meets step ok s' es

instance decidableMeets [∀ s e, Decidable (ok s e)] : ∀ (s : σ) (es : List ε), Decidable (Meets step ok s es)
  | _, [] => isTrue trivial
  | s, e :: es =>
    match h : step s e with
    | none => decidable_of_iff (ok s e) ⟨fun ho => ⟨ho, fun _ hs => absurd (h.symm.trans hs) nofun⟩, And.left⟩
    | some s' =>
      have := decidableMeets s' es
      decidable_of_iff (ok s e ∧ Meets step ok s' es)
        ⟨fun ho => ⟨ho.1, fun _ hs => Option.some.inj (h.symm.trans hs) ▸ ho.2⟩, fun hm => ⟨hm.1, hm.2 s' h⟩⟩

theorem Meets.and {ok' : σ → ε → Prop} :
    ∀ {es : List ε} {s : σ}, Meets step ok s es → Meets step ok' s es → Meets step (fun s e => ok s e ∧ ok' s e) s es
  | [], _, _, _ => trivial
  | _ :: _, _, h, h' => ⟨⟨h.1, h'.1⟩, fun s' hs => (h.2 s' hs).and (h'.2 s' hs)⟩

theorem run_cons {s s' : σ} {e : ε} {es : List ε} :
    run step s (e :: es) = some s' ↔ ∃ s₁, step s e = some s₁ ∧ run step s₁ es = some s' := by
  unfold run
  rw [List.foldlM_cons]
  exact Option.bind_eq_some_iff

/-- What every event that meets the condition preserves holds after the run. -/
theorem run_invariant {P : σ → Prop} (hstep : ∀ s e s', P s → ok s e → step s e = some s' → P s') :
    ∀ (es : List ε) {s s' : σ}, P s → Meets step ok s es → run step s es = some s' → P s'
  | [], s, s', h, _, hrun => by
    obtain rfl : s = s' := Option.some.inj hrun
    exact h
  | e :: es, s, s', h, hm, hrun => by
    obtain ⟨s₁, he, hrest⟩ := run_cons.mp hrun
    exact run_invariant hstep es (hstep s e s₁ h hm.1 he) (hm.2 s₁ he) hrest

/-- A condition that another one implies where an invariant holds that it keeps. -/
theorem Meets.imp_of {P : σ → Prop} {ok' : σ → ε → Prop} (himp : ∀ s e, P s → ok s e → ok' s e)
    (hstep : ∀ s e s', P s → ok s e → step s e = some s' → P s') :
    ∀ {es : List ε} {s : σ}, P s → Meets step ok s es → Meets step ok' s es
  | [], _, _, _ => trivial
  | e :: _, s, h, hm => ⟨himp s e h hm.1, fun s' hs => (hm.2 s' hs).imp_of himp hstep (hstep s e s' h hm.1 hs)⟩

/-- Two conditions on runs of certain events that agree where an invariant holds. -/
theorem Meets.iff_of {P : σ → Prop} {ok' : σ → ε → Prop} {kind : ε → Prop}
    (hiff : ∀ s e, P s → kind e → (ok s e ↔ ok' s e)) (hstep : ∀ s e s', P s → ok s e → step s e = some s' → P s')
    {es : List ε} {s : σ} (h : P s) (hkind : ∀ e ∈ es, kind e) : Meets step ok s es ↔ Meets step ok' s es := by
  have hall : ∀ (es : List ε) (s : σ), (∀ e ∈ es, kind e) → Meets step (fun _ e => kind e) s es := by
    intro es
    induction es with
    | nil => exact fun _ _ => trivial
    | cons e es ih => exact fun s hk => ⟨hk e List.mem_cons_self, fun s' _ => ih s' (List.forall_mem_cons.mp hk).2⟩
  constructor
  · intro hm
    refine (hm.and (hall es s hkind)).imp_of (fun s e h hok => (hiff s e h hok.2).mp hok.1) ?_ h
    exact fun s e s' h hok hs => hstep s e s' h hok.1 hs
  · intro hm
    refine (hm.and (hall es s hkind)).imp_of (fun s e h hok => (hiff s e h hok.2).mpr hok.1) ?_ h
    exact fun s e s' h hok hs => hstep s e s' h ((hiff s e h hok.2).mpr hok.1) hs

/-- What each event keeps exactly under a condition holds after the run exactly if it did before and the condition
is met. -/
theorem run_iff {I P : σ → Prop} (hinv : ∀ s e s', I s → step s e = some s' → I s')
    (hstep : ∀ s e s', I s → step s e = some s' → (P s' ↔ P s ∧ ok s e)) :
    ∀ (es : List ε) {s s' : σ}, I s → run step s es = some s' → (P s' ↔ P s ∧ Meets step ok s es)
  | [], s, s', _, hrun => by
    obtain rfl : s = s' := Option.some.inj hrun
    exact (and_iff_left trivial).symm
  | e :: es, s, s', h, hrun => by
    obtain ⟨s₁, he, hrest⟩ := run_cons.mp hrun
    rw [run_iff hinv hstep es (hinv s e s₁ h he) hrest, hstep s e s₁ h he, and_assoc]
    refine and_congr_right fun _ => and_congr_right fun _ => ⟨fun hm s₂ hs₂ => ?_, fun hm => hm s₁ he⟩
    rwa [← Option.some.inj (he.symm.trans hs₂)]

/-- The same for an invariant that needs no condition. -/
theorem run_preserves {P : σ → Prop} (hstep : ∀ s e s', P s → step s e = some s' → P s') (es : List ε) {s s' : σ}
    (h : P s) (hrun : run step s es = some s') : P s' := by
  have hfree : ∀ (es : List ε) (s : σ), Meets step (fun _ _ => True) s es := by
    intro es
    induction es with
    | nil => exact fun _ => trivial
    | cons e es ih => exact fun _ => ⟨trivial, fun s₁ _ => ih s₁⟩
  exact run_invariant (fun s e s' h _ hs => hstep s e s' h hs) es h (hfree es s) hrun

end Runs

/-! ## Pools -/

structure Pool (σ π : Type) where
  shared : σ
  procs : List π

namespace Pool

variable {σ π χ : Type}

/-- Process `i` makes the move `c`. -/
def work (step : σ → π → χ → Option (σ × π)) (s : Pool σ π) (i : Nat) (c : χ) : Option (Pool σ π) := do
  let p ← s.procs[i]?
  let (shared, p') ← step s.shared p c
  return ⟨shared, s.procs.set i p'⟩

/-- A process starts. -/
def spawn (s : Pool σ π) (p : π) : Pool σ π := { s with procs := s.procs ++ [p] }

theorem work_eq_some {step : σ → π → χ → Option (σ × π)} {s s' : Pool σ π} {i : Nat} {c : χ}
    (h : s.work step i c = some s') :
    ∃ p p', s.procs[i]? = some p ∧ step s.shared p c = some (s'.shared, p') ∧ s'.procs = s.procs.set i p' := by
  obtain ⟨p, hp, h⟩ := Option.bind_eq_some_iff.mp h
  obtain ⟨⟨shared, p'⟩, hstep, h⟩ := Option.bind_eq_some_iff.mp h
  obtain rfl : (⟨shared, s.procs.set i p'⟩ : Pool σ π) = s' := Option.some.inj h
  exact ⟨p, p', hp, hstep, rfl⟩

theorem spawn_eq_some {s : Pool σ π} {p q : π} {j : Nat} (hq : (s.spawn p).procs[j]? = some q) :
    (j = s.procs.length ∧ q = p) ∨ s.procs[j]? = some q := by
  unfold Pool.spawn at hq
  rw [List.getElem?_append] at hq
  split_ifs at hq with hj
  · exact .inr hq
  · obtain ⟨hlt, hget⟩ := List.getElem?_eq_some_iff.mp hq
    rw [List.length_singleton] at hlt
    exact .inl ⟨by omega, by simpa using hget.symm⟩

/-- An invariant of the shared state, what each process asserts of it, and what holds between any two. -/
structure Holds (I : σ → Prop) (A : σ → π → Prop) (C : π → π → Prop) (s : Pool σ π) : Prop where
  shared : I s.shared
  each : ∀ {i : Nat} {p : π}, s.procs[i]? = some p → A s.shared p
  pairs : ∀ {i j : Nat} {p q : π}, i ≠ j → s.procs[i]? = some p → s.procs[j]? = some q → C p q

namespace Holds

variable {I : σ → Prop} {A : σ → π → Prop} {C : π → π → Prop} {s : Pool σ π}

/-- A move keeps the invariant and its own assertion, and it invalidates no assertion of another process of
the pool. -/
theorem move {step : σ → π → χ → Option (σ × π)} {s' : Pool σ π} {i : Nat} {c : χ} (h : Holds I A C s)
    (hs : s.work step i c = some s')
    (own : ∀ {p p'}, s.procs[i]? = some p → I s.shared → A s.shared p → step s.shared p c = some (s'.shared, p') →
      I s'.shared ∧ A s'.shared p')
    (free : ∀ {p p' j q}, s.procs[i]? = some p → I s.shared → A s.shared p → step s.shared p c = some (s'.shared, p') →
      j ≠ i → s.procs[j]? = some q → C p q → A s.shared q → A s'.shared q)
    (pair : ∀ {p p' j q}, s.procs[i]? = some p → step s.shared p c = some (s'.shared, p') → j ≠ i →
      s.procs[j]? = some q → (C p q → C p' q) ∧ (C q p → C q p')) :
    Holds I A C s' := by
  obtain ⟨p, p', hp, hstep, hprocs⟩ := work_eq_some hs
  have hown := own hp h.shared (h.each hp) hstep
  -- a process of the new pool is the one that moved, or an old one at another place
  have hcases : ∀ {j : Nat} {q : π}, s'.procs[j]? = some q → (j = i ∧ q = p') ∨ (j ≠ i ∧ s.procs[j]? = some q) := by
    intro j q hq
    rw [hprocs, List.getElem?_set] at hq
    split_ifs at hq with hij
    · exact .inl ⟨hij.symm, (Option.some.inj hq).symm⟩
    · exact .inr ⟨fun e => hij e.symm, hq⟩
  refine ⟨hown.1, ?_, ?_⟩
  · intro j q hq
    rcases hcases hq with ⟨-, rfl⟩ | ⟨hj, hq⟩
    · exact hown.2
    · exact free hp h.shared (h.each hp) hstep hj hq (h.pairs (Ne.symm hj) hp hq) (h.each hq)
  · intro j k q r hjk hq hr
    rcases hcases hq with ⟨rfl, rfl⟩ | ⟨hj, hq⟩ <;> rcases hcases hr with ⟨rfl, rfl⟩ | ⟨hk, hr⟩
    · exact absurd rfl hjk
    · exact (pair hp hstep hk hr).1 (h.pairs hjk hp hr)
    · exact (pair hp hstep hj hq).2 (h.pairs hjk hq hp)
    · exact h.pairs hjk hq hr

/-- The same where nothing has to be known of the other process but its relation to the one that moves. -/
theorem work {step : σ → π → χ → Option (σ × π)} {s' : Pool σ π} {i : Nat} {c : χ} (h : Holds I A C s)
    (hs : s.work step i c = some s')
    (own : ∀ {p p'}, s.procs[i]? = some p → I s.shared → A s.shared p → step s.shared p c = some (s'.shared, p') →
      I s'.shared ∧ A s'.shared p')
    (free : ∀ {p p' q}, I s.shared → A s.shared p → step s.shared p c = some (s'.shared, p') → C p q →
      A s.shared q → A s'.shared q)
    (pair : ∀ {p p' q}, step s.shared p c = some (s'.shared, p') → (C p q → C p' q) ∧ (C q p → C q p')) :
    Holds I A C s' :=
  h.move hs own (fun _ hI hA hstep _ _ => free hI hA hstep) fun _ hstep _ _ => pair hstep

theorem spawn {p : π} (h : Holds I A C s) (hA : A s.shared p)
    (hC : ∀ {i : Nat} {q : π}, s.procs[i]? = some q → C p q ∧ C q p) : Holds I A C (s.spawn p) := by
  refine ⟨h.shared, ?_, ?_⟩
  · intro j q hq
    rcases spawn_eq_some hq with ⟨-, rfl⟩ | hq
    · exact hA
    · exact h.each hq
  · intro j k q r hjk hq hr
    rcases spawn_eq_some hq with ⟨hj, hq'⟩ | hq' <;> rcases spawn_eq_some hr with ⟨hk, hr'⟩ | hr'
    · exact absurd (hj.trans hk.symm) hjk
    · exact hq' ▸ (hC hr').1
    · exact hr' ▸ (hC hq').2
    · exact h.pairs hjk hq' hr'

/-- The shared state changes under the processes. -/
theorem change {shared : σ} (h : Holds I A C s) (hI : I shared)
    (hA : ∀ {i : Nat} {p : π}, s.procs[i]? = some p → A s.shared p → A shared p) :
    Holds I A C { s with shared := shared } :=
  ⟨hI, fun hp => hA hp (h.each hp), h.pairs⟩

end Holds

end Pool

end RecordStore.Lib
