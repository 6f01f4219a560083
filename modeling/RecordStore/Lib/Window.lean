import RecordStore.Lib.Table

/-!
# Lib.Window — tables whose keys are an interval

A log that is cut at both ends is a table over the naturals whose keys are those of an interval.  Rows that
carry the following numbers extend it, dropping the rows on one side of a number shortens it, and its last
row is the one before its end.
-/

namespace RecordStore.Lib

variable {V : Type} {t : Table Nat V} {a b c : Nat}

/-- Keeping the rows of some keys. -/
theorem Table.lookup_filter (t : Table Nat V) (p : Nat → Bool) (i : Nat) :
    (t.filter fun k _ => p k)[i]? = if p i then t[i]? else none := by
  rw [Std.ExtTreeMap.getElem?_filter']
  cases t[i]? with
  | none => simp
  | some v => simp [Option.filter_some]

/-- The keys of the table are the numbers from `a` up to `b`. -/
def Window (t : Table Nat V) (a b : Nat) : Prop := ∀ i, (t[i]?).isSome = true ↔ a ≤ i ∧ i < b

/-- The values carry the numbers from `n` on. -/
def Numbered (number : V → Nat) : Nat → List V → Prop
  | _, [] => True
  | n, v :: vs => number v = n ∧ Numbered number (n + 1) vs

instance Numbered.decidable (number : V → Nat) : ∀ (n : Nat) (vs : List V), Decidable (Numbered number n vs)
  | _, [] => isTrue trivial
  | n, _ :: vs =>
    have := Numbered.decidable number (n + 1) vs
    inferInstanceAs (Decidable (_ ∧ _))

theorem Numbered.number_le {number : V → Nat} : ∀ {vs : List V} {n : Nat}, Numbered number n vs → ∀ v ∈ vs, n ≤ number v
  | _ :: _, _, h, u, hu => by
    rcases List.mem_cons.mp hu with rfl | hu
    · exact h.1.ge
    · exact Nat.le_of_succ_le (h.2.number_le u hu)

/-- Values that are written under their own numbers are found under them. -/
theorem number_of_lookup {number : V → Nat} : ∀ {vs : List V} {t : Table Nat V},
    (∀ (i : Nat) (v : V), t[i]? = some v → number v = i) →
      ∀ (i : Nat) (v : V), (vs.foldl (fun t v => t.insert (number v) v) t)[i]? = some v → number v = i
  | [], _, h => h
  | u :: vs, t, h => by
    show ∀ (i : Nat) (v : V), (vs.foldl _ (t.insert (number u) u))[i]? = some v → number v = i
    refine number_of_lookup fun i v hv => ?_
    rcases Table.of_lookup_insert hv with ⟨hi, rfl⟩ | ⟨-, hv⟩
    · exact hi.symm
    · exact h i v hv

namespace Window

theorem empty (a : Nat) : Window (∅ : Table Nat V) a a := by
  intro i
  rw [Table.lookup_empty]
  simp only [Option.isSome_none, Bool.false_eq_true, false_iff]
  omega

theorem insert (h : Window t a b) (hab : a ≤ b) (v : V) : Window (t.insert b v) a (b + 1) := by
  intro i
  rw [Table.lookup_insert]
  split_ifs with hi
  · simp only [Option.isSome_some, true_iff]
    omega
  · rw [h i]
    omega

/-- A run of values with the following numbers. -/
theorem insertAll {number : V → Nat} : ∀ {vs : List V} {t : Table Nat V} {b : Nat}, Window t a b → a ≤ b →
    Numbered number b vs → Window (vs.foldl (fun t v => t.insert (number v) v) t) a (b + vs.length)
  | [], _, _, h, _, _ => h
  | v :: vs, t, b, h, hab, hn => by
    have hrest := insertAll (t := t.insert b v) (h.insert hab v) (Nat.le_succ_of_le hab) hn.2
    rw [List.foldl_cons, hn.1, List.length_cons, ← Nat.add_assoc, Nat.add_right_comm]
    exact hrest

theorem below (h : Window t a b) (c : Nat) : Window (t.filter fun i _ => decide (i < c)) a (min b c) := by
  intro i
  rw [Table.lookup_filter]
  split_ifs with hi
  · rw [h i]
    rw [decide_eq_true_eq] at hi
    omega
  · simp only [Option.isSome_none, Bool.false_eq_true, false_iff]
    rw [decide_eq_true_eq] at hi
    omega

theorem above (h : Window t a b) (c : Nat) : Window (t.filter fun i _ => decide (c < i)) (max a (c + 1)) b := by
  intro i
  rw [Table.lookup_filter]
  split_ifs with hi
  · rw [h i]
    rw [decide_eq_true_eq] at hi
    omega
  · simp only [Option.isSome_none, Bool.false_eq_true, false_iff]
    rw [decide_eq_true_eq] at hi
    omega

/-- The last row of a window that is not empty. -/
theorem last (h : Window t a b) (hab : a < b) : ∃ v, t.toList.getLast? = some (b - 1, v) ∧ t[b - 1]? = some v := by
  have hmem : ∀ i, i ∈ t ↔ a ≤ i ∧ i < b := fun i => by rw [Std.ExtTreeMap.mem_iff_isSome_getElem?, h i]
  have hmax : t.maxKey? = some (b - 1) := by
    rw [Std.ExtTreeMap.maxKey?_eq_some_iff_mem_and_forall]
    refine ⟨(hmem _).mpr (by omega), fun i hi => ?_⟩
    rw [Nat.isLE_compare]
    have := (hmem i).mp hi
    omega
  rw [Std.ExtTreeMap.maxKey?_eq_getLast?_keys, ← Std.ExtTreeMap.map_fst_toList_eq_keys, List.getLast?_map,
    Option.map_eq_some_iff] at hmax
  obtain ⟨⟨i, v⟩, hlast, rfl⟩ := hmax
  exact ⟨v, hlast, Std.ExtTreeMap.mem_toList_iff_getElem?_eq_some.mp (List.mem_of_getLast? hlast)⟩

theorem toList_of_le (h : Window t a b) (hab : b ≤ a) : t.toList = [] := by
  rw [List.eq_nil_iff_forall_not_mem]
  rintro ⟨i, v⟩ hi
  have hsome := (h i).mp (by rw [Std.ExtTreeMap.mem_toList_iff_getElem?_eq_some.mp hi]; rfl)
  omega

end Window

end RecordStore.Lib
