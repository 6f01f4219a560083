import RecordStore.Lib.Result

/-!
# Lib.Tx — write transactions

`Tx σ ε` is a computation inside one write transaction on the tables `σ`.  It ends with a value or
with an error, and in both cases the writes made so far stay visible inside the transaction: an
error alone undoes nothing.  What becomes durable is decided by whoever opened the transaction;
`commit` keeps the writes of a successful computation and drops those of a failed one.

`Returns` and `Fails` are the two ways a computation can end, `Avoids` says that a class of errors
cannot end it.  Each has one rule per program construct, so that a proof about a command walks
along its statements and never unfolds the monad.
-/

namespace RecordStore.Lib

/-- A computation inside a write transaction on `σ` that may end with an error `ε`. -/
abbrev Tx (σ ε : Type) := ExceptT ε (StateM σ)

namespace Tx

variable {σ ε α β : Type}

/-- Run the computation on the tables `s`. -/
def exec (x : Tx σ ε α) (s : σ) : Except ε α × σ := x.run.run s

/-- `?` on a check: go on when `c` holds, end with `e` otherwise. -/
def ensure (c : Prop) [Decidable c] (e : ε) : Tx σ ε Unit := if c then pure () else throw e

/-- `ok_or`: the value of an option, or the error `e`. -/
def okOr (o : Option α) (e : ε) : Tx σ ε α :=
  match o with
  | some a => pure a
  | none => throw e

/-- `?` on a result whose error is converted. -/
def ofExcept {δ : Type} (x : Except δ α) (f : δ → ε) : Tx σ ε α :=
  match x with
  | .ok a => pure a
  | .error e => throw (f e)

/-- End with the error made from the value, when there is one. -/
def refuse {δ : Type} (o : Option δ) (f : δ → ε) : Tx σ ε Unit :=
  match o with
  | some d => throw (f d)
  | none => pure ()

/-- `if c { x }`. -/
def when (c : Prop) [Decidable c] (x : Tx σ ε Unit) : Tx σ ε Unit := if c then x else pure ()

/-- Read something of the tables. -/
def read (f : σ → α) : Tx σ ε α := do return f (← get)

/-- Run the computation in a transaction of its own: its writes survive only if it succeeds. -/
def commit (x : Tx σ ε α) (s : σ) : Except ε α × σ :=
  match exec x s with
  | (.ok a, s') => (.ok a, s')
  | (.error e, _) => (.error e, s)

/-- `x` started on `s` ends with the value `a` and leaves `s'`. -/
def Returns (x : Tx σ ε α) (s : σ) (a : α) (s' : σ) : Prop := exec x s = (.ok a, s')

/-- `x` started on `s` ends with the error `e`. -/
def Fails (x : Tx σ ε α) (s : σ) (e : ε) : Prop := (exec x s).1 = .error e

/-- `x` started on `s` does not end with an error in `bad`. -/
def Avoids (bad : ε → Prop) (x : Tx σ ε α) (s : σ) : Prop := ∀ e, Fails x s e → ¬ bad e

/-! ## Sequencing -/

theorem exec_bind (x : Tx σ ε α) (f : α → Tx σ ε β) (s : σ) :
    exec (x >>= f) s = match exec x s with
      | (.ok a, s') => exec (f a) s'
      | (.error e, s') => (.error e, s') := by
  simp only [exec, ExceptT.run_bind, StateT.run_bind]
  rcases (x.run.run s : Except ε α × σ) with ⟨r, s'⟩
  cases r <;> simp <;> rfl

theorem returns_bind {x : Tx σ ε α} {f : α → Tx σ ε β} {s s' : σ} {b : β} :
    Returns (x >>= f) s b s' ↔ ∃ a s₁, Returns x s a s₁ ∧ Returns (f a) s₁ b s' := by
  unfold Returns
  rw [exec_bind]
  rcases exec x s with ⟨r, s₁⟩
  cases r <;> simp

theorem fails_bind {x : Tx σ ε α} {f : α → Tx σ ε β} {s : σ} {e : ε} :
    Fails (x >>= f) s e ↔ Fails x s e ∨ ∃ a s₁, Returns x s a s₁ ∧ Fails (f a) s₁ e := by
  unfold Returns Fails
  rw [exec_bind]
  rcases exec x s with ⟨r, s₁⟩
  cases r <;> simp

theorem avoids_bind {bad : ε → Prop} {x : Tx σ ε α} {f : α → Tx σ ε β} {s : σ} :
    Avoids bad (x >>= f) s ↔
      Avoids bad x s ∧ ∀ a s₁, Returns x s a s₁ → Avoids bad (f a) s₁ := by
  simp only [Avoids, fails_bind]
  constructor
  · exact fun h => ⟨fun e he => h e (.inl he), fun a s₁ hr e he => h e (.inr ⟨a, s₁, hr, he⟩)⟩
  · rintro ⟨h1, h2⟩ e (he | ⟨a, s₁, hr, he⟩)
    · exact h1 e he
    · exact h2 a s₁ hr e he

theorem Returns.not_fails {x : Tx σ ε α} {s s' : σ} {a : α} {e : ε} (h : Returns x s a s') :
    ¬ Fails x s e := by
  unfold Fails
  rw [h]
  simp

theorem returns_or_fails (x : Tx σ ε α) (s : σ) : (∃ a s', Returns x s a s') ∨ ∃ e, Fails x s e := by
  unfold Returns Fails
  rcases exec x s with ⟨r, s'⟩
  cases r with
  | ok a => exact .inl ⟨a, s', rfl⟩
  | error e => exact .inr ⟨e, rfl⟩

/-! ## Statements -/

section Statements

variable {s s' : σ} {a b : α} {e e' : ε} {bad : ε → Prop}

theorem returns_pure : Returns (pure a : Tx σ ε α) s b s' ↔ b = a ∧ s' = s := by
  show ((.ok a, s) : Except ε α × σ) = (.ok b, s') ↔ _
  simp [eq_comm]

theorem fails_pure : ¬ Fails (pure a : Tx σ ε α) s e := by
  show ¬ (Except.ok a : Except ε α) = .error e
  simp

theorem returns_throw : ¬ Returns (throw e : Tx σ ε α) s b s' := by
  show ¬ ((.error e, s) : Except ε α × σ) = (.ok b, s')
  simp

theorem fails_throw : Fails (throw e : Tx σ ε α) s e' ↔ e' = e := by
  show (Except.error e : Except ε α) = .error e' ↔ _
  simp [eq_comm]

theorem returns_read {f : σ → α} : Returns (read f : Tx σ ε α) s b s' ↔ b = f s ∧ s' = s := by
  show ((.ok (f s), s) : Except ε α × σ) = (.ok b, s') ↔ _
  simp [eq_comm]

theorem fails_read {f : σ → α} : ¬ Fails (read f : Tx σ ε α) s e := by
  show ¬ (Except.ok (f s) : Except ε α) = .error e
  simp

theorem returns_modify {f : σ → σ} {u : Unit} :
    Returns (modify f : Tx σ ε Unit) s u s' ↔ s' = f s := by
  show ((.ok (), f s) : Except ε Unit × σ) = (.ok u, s') ↔ _
  simp [eq_comm]

theorem fails_modify {f : σ → σ} : ¬ Fails (modify f : Tx σ ε Unit) s e := by
  show ¬ (Except.ok () : Except ε Unit) = .error e
  simp

theorem returns_ite {c : Prop} [Decidable c] {x y : Tx σ ε α} :
    Returns (if c then x else y) s b s' ↔ (c ∧ Returns x s b s') ∨ (¬ c ∧ Returns y s b s') := by
  by_cases h : c <;> simp [h]

theorem fails_ite {c : Prop} [Decidable c] {x y : Tx σ ε α} :
    Fails (if c then x else y) s e ↔ (c ∧ Fails x s e) ∨ (¬ c ∧ Fails y s e) := by
  by_cases h : c <;> simp [h]

theorem returns_ensure {c : Prop} [Decidable c] {u : Unit} :
    Returns (ensure c e : Tx σ ε Unit) s u s' ↔ c ∧ s' = s := by
  unfold ensure
  rw [returns_ite, returns_pure]
  simp [returns_throw]

theorem fails_ensure {c : Prop} [Decidable c] :
    Fails (ensure c e : Tx σ ε Unit) s e' ↔ ¬ c ∧ e' = e := by
  unfold ensure
  rw [fails_ite, fails_throw]
  simp [fails_pure]

theorem returns_when {c : Prop} [Decidable c] {x : Tx σ ε Unit} {u : Unit} :
    Returns (when c x) s u s' ↔ (c ∧ Returns x s () s') ∨ (¬ c ∧ s' = s) := by
  unfold when
  rw [returns_ite, returns_pure]
  simp

theorem fails_when {c : Prop} [Decidable c] {x : Tx σ ε Unit} :
    Fails (when c x) s e ↔ c ∧ Fails x s e := by
  unfold when
  rw [fails_ite]
  simp [fails_pure]

theorem returns_okOr {o : Option α} :
    Returns (okOr o e : Tx σ ε α) s b s' ↔ o = some b ∧ s' = s := by
  cases o with
  | none => simp [okOr, returns_throw]
  | some a => simp [okOr, returns_pure, eq_comm]

theorem okOr_some_bind {a : α} {f : α → Tx σ ε β} : (okOr (some a) e : Tx σ ε α) >>= f = f a := rfl

theorem fails_okOr {o : Option α} :
    Fails (okOr o e : Tx σ ε α) s e' ↔ o = none ∧ e' = e := by
  cases o with
  | none => simp [okOr, fails_throw]
  | some a => simp [okOr, fails_pure]

theorem returns_ofExcept {δ : Type} {x : Except δ α} {f : δ → ε} :
    Returns (ofExcept x f : Tx σ ε α) s b s' ↔ x = .ok b ∧ s' = s := by
  cases x with
  | ok a => simp [ofExcept, returns_pure, eq_comm]
  | error e => simp [ofExcept, returns_throw]

theorem returns_refuse {δ : Type} {o : Option δ} {f : δ → ε} {u : Unit} :
    Returns (refuse o f : Tx σ ε Unit) s u s' ↔ o = none ∧ s' = s := by
  cases o with
  | none => simp [refuse, returns_pure]
  | some d => simp [refuse, returns_throw]

theorem avoids_of_not_fails {x : Tx σ ε α} (h : ∀ e, ¬ Fails x s e) : Avoids bad x s :=
  fun e he => absurd he (h e)

theorem avoids_ite {c : Prop} [Decidable c] {x y : Tx σ ε α} :
    Avoids bad (if c then x else y) s ↔ (c → Avoids bad x s) ∧ (¬ c → Avoids bad y s) := by
  by_cases h : c <;> simp [h]

theorem avoids_pure : Avoids bad (pure a : Tx σ ε α) s := avoids_of_not_fails fun _ => fails_pure

theorem avoids_read {f : σ → α} : Avoids bad (read f : Tx σ ε α) s := avoids_of_not_fails fun _ => fails_read

theorem avoids_modify {f : σ → σ} : Avoids bad (modify f : Tx σ ε Unit) s :=
  avoids_of_not_fails fun _ => fails_modify

theorem avoids_throw : Avoids bad (throw e : Tx σ ε α) s ↔ ¬ bad e := by
  simp only [Avoids, fails_throw, forall_eq]

theorem avoids_ensure {c : Prop} [Decidable c] : Avoids bad (ensure c e : Tx σ ε Unit) s ↔ (¬ c → ¬ bad e) := by
  simp only [Avoids, fails_ensure, and_imp]
  exact ⟨fun h hc => h e hc rfl, by rintro h _ hc rfl; exact h hc⟩

theorem avoids_okOr {o : Option α} : Avoids bad (okOr o e : Tx σ ε α) s ↔ (o = none → ¬ bad e) := by
  simp only [Avoids, fails_okOr, and_imp]
  exact ⟨fun h ho => h e ho rfl, by rintro h _ ho rfl; exact h ho⟩

theorem avoids_when {c : Prop} [Decidable c] {x : Tx σ ε Unit} :
    Avoids bad (when c x) s ↔ (c → Avoids bad x s) := by
  simp only [Avoids, fails_when, and_imp]
  exact ⟨fun h hc e => h e hc, fun h e hc => h hc e⟩

end Statements

/-! ## Renaming the result -/

section Map

variable {x : Tx σ ε α} {f : α → β} {s s' : σ} {b : β} {e : ε}

theorem returns_map : Returns (f <$> x) s b s' ↔ ∃ a, b = f a ∧ Returns x s a s' := by
  rw [← bind_pure_comp, returns_bind]
  simp only [returns_pure]
  constructor
  · rintro ⟨a, s₁, h, rfl, rfl⟩
    exact ⟨a, rfl, h⟩
  · rintro ⟨a, rfl, h⟩
    exact ⟨a, s', h, rfl, rfl⟩

theorem fails_map : Fails (f <$> x) s e ↔ Fails x s e := by
  rw [← bind_pure_comp, fails_bind]
  simp [fails_pure]

theorem avoids_map {bad : ε → Prop} : Avoids bad (f <$> x) s ↔ Avoids bad x s := by
  simp only [Avoids, fails_map]

end Map

/-! ## What a computation does not write -/

section Keeps

variable {τ : Type} {f : σ → τ}

/-- Whenever `x` returns, what `f` reads of the tables is as it was. -/
def Keeps (f : σ → τ) (x : Tx σ ε α) : Prop := ∀ ⦃s a s'⦄, Returns x s a s' → f s' = f s

theorem keeps_bind {x : Tx σ ε α} {k : α → Tx σ ε β} (hx : Keeps f x) (hk : ∀ a, Keeps f (k a)) :
    Keeps f (x >>= k) := by
  intro s b s' h
  obtain ⟨a, s₁, h1, h2⟩ := returns_bind.mp h
  exact (hk a h2).trans (hx h1)

theorem keeps_pure (a : α) : Keeps f (pure a : Tx σ ε α) := fun _ _ _ h => congrArg f (returns_pure.mp h).2

theorem keeps_throw (e : ε) : Keeps f (throw e : Tx σ ε α) := fun _ _ _ h => absurd h returns_throw

theorem keeps_read (g : σ → α) : Keeps f (read g : Tx σ ε α) := fun _ _ _ h => congrArg f (returns_read.mp h).2

theorem keeps_okOr (o : Option α) (e : ε) : Keeps f (okOr o e : Tx σ ε α) :=
  fun _ _ _ h => congrArg f (returns_okOr.mp h).2

theorem keeps_ofExcept {δ : Type} (x : Except δ α) (g : δ → ε) : Keeps f (ofExcept x g : Tx σ ε α) :=
  fun _ _ _ h => congrArg f (returns_ofExcept.mp h).2

theorem keeps_refuse {δ : Type} (o : Option δ) (g : δ → ε) : Keeps f (refuse o g : Tx σ ε Unit) :=
  fun _ _ _ h => congrArg f (returns_refuse.mp h).2

theorem keeps_ensure {c : Prop} [Decidable c] (e : ε) : Keeps f (ensure c e : Tx σ ε Unit) :=
  fun _ _ _ h => congrArg f (returns_ensure.mp h).2

theorem keeps_modify {g : σ → σ} (hg : ∀ s, f (g s) = f s) : Keeps f (modify g : Tx σ ε Unit) :=
  fun s _ _ h => returns_modify.mp h ▸ hg s

theorem keeps_ite {c : Prop} [Decidable c] {x y : Tx σ ε α} (hx : Keeps f x) (hy : Keeps f y) :
    Keeps f (if c then x else y) := by
  split_ifs
  · exact hx
  · exact hy

theorem keeps_when {c : Prop} [Decidable c] {x : Tx σ ε Unit} (hx : Keeps f x) : Keeps f (when c x) :=
  keeps_ite hx (keeps_pure ())

theorem keeps_map {x : Tx σ ε α} {g : α → β} (hx : Keeps f x) : Keeps f (g <$> x) := by
  intro s b s' h
  obtain ⟨a, -, ha⟩ := returns_map.mp h
  exact hx ha

end Keeps

/-! ## Transactions -/

section Commit

variable {x : Tx σ ε α} {s s' : σ} {a : α} {e : ε}

theorem commit_of_returns (h : Returns x s a s') : commit x s = (.ok a, s') := by
  unfold commit
  rw [h]

theorem commit_of_fails (h : Fails x s e) : commit x s = (.error e, s) := by
  unfold Fails at h
  unfold commit
  rcases hx : exec x s with ⟨r, s₁⟩
  rw [hx] at h
  simp only at h
  rw [h]

theorem commit_eq_ok : commit x s = (.ok a, s') ↔ Returns x s a s' := by
  refine ⟨fun h => ?_, commit_of_returns⟩
  rcases returns_or_fails x s with ⟨b, s₁, hr⟩ | ⟨e, hf⟩
  · rw [commit_of_returns hr] at h
    simp only [Prod.mk.injEq, Except.ok.injEq] at h
    rw [← h.1, ← h.2]
    exact hr
  · rw [commit_of_fails hf] at h
    simp at h

theorem commit_eq_error : commit x s = (.error e, s') ↔ Fails x s e ∧ s' = s := by
  constructor
  · intro h
    rcases returns_or_fails x s with ⟨b, s₁, hr⟩ | ⟨e', hf⟩
    · rw [commit_of_returns hr] at h
      simp at h
    · rw [commit_of_fails hf] at h
      simp only [Prod.mk.injEq, Except.error.injEq] at h
      rw [← h.1, ← h.2]
      exact ⟨hf, rfl⟩
  · rintro ⟨hf, rfl⟩
    exact commit_of_fails hf

/-- What every successful run establishes, a transaction preserves. -/
theorem commit_preserves {P : σ → Prop} (hs : P s) (h : ∀ a s', Returns x s a s' → P s') :
    P (commit x s).2 := by
  rcases returns_or_fails x s with ⟨a, s', hr⟩ | ⟨e, hf⟩
  · rw [commit_of_returns hr]
    exact h a s' hr
  · rw [commit_of_fails hf]
    exact hs

end Commit

/-! ## Loops over a list -/

section Loops

theorem returns_forM_nil {f : α → Tx σ ε PUnit} {s s' : σ} {u : PUnit} :
    Returns (List.forM [] f) s u s' ↔ s' = s := by
  show Returns (pure PUnit.unit) s u s' ↔ _
  rw [returns_pure]
  simp

theorem returns_forM_cons {f : α → Tx σ ε PUnit} {x : α} {l : List α} {s s' : σ} {u : PUnit} :
    Returns (List.forM (x :: l) f) s u s' ↔
      ∃ s₁, Returns (f x) s .unit s₁ ∧ Returns (List.forM l f) s₁ u s' := by
  show Returns (f x >>= fun _ => List.forM l f) s u s' ↔ _
  rw [returns_bind]
  constructor
  · rintro ⟨_, s₁, h1, h2⟩
    exact ⟨s₁, h1, h2⟩
  · rintro ⟨s₁, h1, h2⟩
    exact ⟨_, s₁, h1, h2⟩

theorem returns_forM_append {f : α → Tx σ ε PUnit} {l l' : List α} {s s₁ s' : σ} {u : PUnit}
    (h : Returns (List.forM l f) s .unit s₁) (h' : Returns (List.forM l' f) s₁ u s') :
    Returns (List.forM (l ++ l') f) s u s' := by
  induction l generalizing s with
  | nil =>
    obtain rfl := returns_forM_nil.mp h
    exact h'
  | cons x l ih =>
    obtain ⟨s₂, h1, h2⟩ := returns_forM_cons.mp h
    exact returns_forM_cons.mpr ⟨s₂, h1, ih h2⟩

/-- A loop whose every turn makes a known write is the fold of the writes. -/
theorem returns_forM_map {f : α → Tx σ ε PUnit} {x : β → α} {g : β → σ → σ}
    (h : ∀ b s, Returns (f (x b)) s .unit (g b s)) (l : List β) (s : σ) :
    Returns (List.forM (l.map x) f) s .unit (l.foldl (fun s b => g b s) s) := by
  induction l generalizing s with
  | nil => exact returns_forM_nil.mpr rfl
  | cons b l ih => exact returns_forM_cons.mpr ⟨g b s, h b s, ih (g b s)⟩

/-- A field of a state that can be replaced without touching the rest. -/
structure Field (σ τ : Type) where
  get : σ → τ
  set : τ → σ → σ
  get_set : ∀ t s, get (set t s) = t
  set_set : ∀ t t' s, set t (set t' s) = set t s
  set_get : ∀ s, set (get s) s = s

/-- A fold that changes one field. -/
theorem Field.foldl {τ : Type} (field : Field σ τ) (f : τ → α → τ) (l : List α) (s : σ) :
    l.foldl (fun s x => field.set (f (field.get s) x) s) s = field.set (l.foldl f (field.get s)) s := by
  induction l generalizing s with
  | nil => exact (field.set_get s).symm
  | cons x l ih => rw [List.foldl_cons, ih, field.get_set, field.set_set, List.foldl_cons]

/-- A loop of plain writes is the fold of the writes. -/
theorem returns_forM_modify {g : α → σ → σ} {l : List α} {s s' : σ} {u : PUnit} :
    Returns (List.forM l fun x => (modify (g x) : Tx σ ε PUnit)) s u s' ↔
      s' = l.foldl (fun s x => g x s) s := by
  induction l generalizing s with
  | nil => exact returns_forM_nil
  | cons x l ih =>
    rw [returns_forM_cons, List.foldl_cons]
    constructor
    · rintro ⟨s₁, h1, h2⟩
      rw [returns_modify] at h1
      rw [ih, h1] at h2
      exact h2
    · intro h
      exact ⟨g x s, returns_modify.mpr rfl, ih.mpr h⟩

theorem avoids_forM {bad : ε → Prop} {f : α → Tx σ ε PUnit} (hf : ∀ x s, Avoids bad (f x) s) (l : List α)
    (s : σ) : Avoids bad (List.forM l f) s := by
  induction l generalizing s with
  | nil => exact avoids_pure
  | cons x l ih =>
    show Avoids bad (f x >>= fun _ => List.forM l f) s
    exact avoids_bind.mpr ⟨hf x s, fun _ s₁ _ => ih s₁⟩

theorem avoids_mapM {bad : ε → Prop} {f : α → Tx σ ε β} (hf : ∀ x s, Avoids bad (f x) s) (l : List α) (s : σ) :
    Avoids bad (l.mapM f) s := by
  induction l generalizing s with
  | nil =>
    rw [List.mapM_nil]
    exact avoids_pure
  | cons x l ih =>
    rw [List.mapM_cons]
    exact avoids_bind.mpr ⟨hf x s, fun _ s₁ _ => avoids_bind.mpr ⟨ih s₁, fun _ _ _ => avoids_pure⟩⟩

theorem returns_mapM_nil {f : α → Tx σ ε β} {s s' : σ} {bs : List β} :
    Returns ([].mapM f) s bs s' ↔ bs = [] ∧ s' = s := by
  rw [List.mapM_nil, returns_pure]

theorem returns_mapM_cons {f : α → Tx σ ε β} {x : α} {l : List α} {s s' : σ} {bs : List β} :
    Returns ((x :: l).mapM f) s bs s' ↔
      ∃ b s₁ bs', Returns (f x) s b s₁ ∧ Returns (l.mapM f) s₁ bs' s' ∧ bs = b :: bs' := by
  rw [List.mapM_cons, returns_bind]
  simp only [returns_bind, returns_pure]
  constructor
  · rintro ⟨b, s₁, h1, bs', s₂, h2, rfl, rfl⟩
    exact ⟨b, s₁, bs', h1, h2, rfl⟩
  · rintro ⟨b, s₁, bs', h1, h2, rfl⟩
    exact ⟨b, s₁, h1, bs', s', h2, rfl, rfl⟩

/-- The invariant rule of a loop that maps over a list: `P` speaks about what is left of the list. -/
theorem mapM_preserves {f : α → Tx σ ε β} {P : List α → σ → Prop}
    (hstep : ∀ x l s b s', P (x :: l) s → Returns (f x) s b s' → P l s') {l : List α} {s s' : σ}
    {bs : List β} (hP : P l s) (h : Returns (l.mapM f) s bs s') : P [] s' := by
  induction l generalizing s bs with
  | nil =>
    rw [returns_mapM_nil] at h
    rw [h.2]
    exact hP
  | cons x l ih =>
    rw [returns_mapM_cons] at h
    obtain ⟨b, s₁, bs', h1, h2, -⟩ := h
    exact ih (hstep x l s b s₁ hP h1) h2

end Loops

end Tx

end RecordStore.Lib
