import Mathlib

/-!
# Lib.Table — ordered key-value tables

A durable table is an extensional ordered map: iteration is in key order, and two tables with the
same rows are equal.  On top of the map operations this file adds what reasoning about counters
kept beside a table needs:

* `Indexes index rows p key`: a second table that lists the rows in `p` by another key;
* `sumOver p f`: the sum of `f` over the rows whose value satisfies `p`, and how one insertion or
  one removal changes it;
* `Swap t t' old new`: `t'` is `t` with one value exchanged, as far as such sums go;
* `rowsIn lo hi`: the rows of a half-open key range, in key order.
-/

namespace RecordStore.Lib

/-- `lo ≤ k < hi` in the order of the keys. -/
def InRange {K : Type} [Ord K] (lo hi k : K) : Prop := (compare lo k).isLE ∧ compare k hi = .lt

instance {K : Type} [Ord K] (lo hi k : K) : Decidable (InRange lo hi k) :=
  inferInstanceAs (Decidable (_ ∧ _))

/-- An ordered table from keys `K` to values `V`. -/
abbrev Table (K V : Type) [Ord K] := Std.ExtTreeMap K V compare

namespace Table

variable {K V : Type} [Ord K] [Std.TransOrd K]

/-! ## Lookups -/

theorem lookup_empty (a : K) : (∅ : Table K V)[a]? = none := Std.ExtTreeMap.getElem?_empty

section Lookups

variable [Std.LawfulEqOrd K] [DecidableEq K]

theorem lookup_insert (t : Table K V) (k a : K) (v : V) :
    (t.insert k v)[a]? = if a = k then some v else t[a]? := by
  simp only [Std.ExtTreeMap.getElem?_insert, Std.compare_eq_iff_eq, @eq_comm K k a]

theorem lookup_erase (t : Table K V) (k a : K) :
    (t.erase k)[a]? = if a = k then none else t[a]? := by
  simp only [Std.ExtTreeMap.getElem?_erase, Std.compare_eq_iff_eq, @eq_comm K k a]

@[simp] theorem lookup_insert_self (t : Table K V) (k : K) (v : V) : (t.insert k v)[k]? = some v := by
  rw [lookup_insert, if_pos rfl]

@[simp] theorem lookup_erase_self (t : Table K V) (k : K) : (t.erase k)[k]? = none := by
  rw [lookup_erase, if_pos rfl]

/-- A row of a table after an insertion is the new one or was there under another key. -/
theorem of_lookup_insert {t : Table K V} {k a : K} {v w : V} (h : (t.insert k v)[a]? = some w) :
    a = k ∧ v = w ∨ a ≠ k ∧ t[a]? = some w := by
  rw [lookup_insert] at h
  split_ifs at h with hk
  · exact .inl ⟨hk, Option.some.inj h⟩
  · exact .inr ⟨hk, h⟩

theorem of_lookup_singleton {k a : K} {v w : V} (h : ((∅ : Table K V).insert k v)[a]? = some w) : a = k ∧ v = w :=
  (of_lookup_insert h).resolve_right fun h => by cases (lookup_empty a).symm.trans h.2

theorem of_lookup_erase {t : Table K V} {k a : K} {w : V} (h : (t.erase k)[a]? = some w) : a ≠ k ∧ t[a]? = some w := by
  rw [lookup_erase] at h
  split_ifs at h with hk
  exact ⟨hk, h⟩

omit [Std.LawfulEqOrd K] in
/-- One change at the keys of a list. -/
theorem lookup_foldl {α : Type} {f : α → K} {o : Option V} {change : Table K V → α → Table K V}
    (h : ∀ t x a, (change t x)[a]? = if a = f x then o else t[a]?) (l : List α) (t : Table K V) (a : K) :
    (l.foldl change t)[a]? = if a ∈ l.map f then o else t[a]? := by
  induction l generalizing t with
  | nil => simp
  | cons x l ih =>
    rw [List.foldl_cons, ih, h]
    simp only [List.map_cons, List.mem_cons]
    by_cases h1 : a ∈ l.map f
    · rw [if_pos h1, if_pos (.inr h1)]
    · by_cases h2 : a = f x
      · rw [if_neg h1, if_pos h2, if_pos (.inl h2)]
      · rw [if_neg h1, if_neg h2, if_neg (not_or.mpr ⟨h2, h1⟩)]

/-- Erasing the keys of a list. -/
theorem lookup_foldl_erase {α : Type} (f : α → K) (l : List α) (t : Table K V) (a : K) :
    (l.foldl (fun t x => t.erase (f x)) t)[a]? = if a ∈ l.map f then none else t[a]? :=
  lookup_foldl (fun t x => lookup_erase t (f x)) l t a

/-- Writing one value under the keys of a list. -/
theorem lookup_foldl_insert {α : Type} (f : α → K) (v : V) (l : List α) (t : Table K V) (a : K) :
    (l.foldl (fun t x => t.insert (f x) v) t)[a]? = if a ∈ l.map f then some v else t[a]? :=
  lookup_foldl (fun t x a => lookup_insert t (f x) a v) l t a

theorem lookup_foldl_insert_of_not_mem {α : Type} {f : α → K} {g : α → V} {l : List α} {t : Table K V} {a : K}
    (h : ∀ x ∈ l, f x ≠ a) : (l.foldl (fun t x => t.insert (f x) (g x)) t)[a]? = t[a]? := by
  induction l generalizing t with
  | nil => rfl
  | cons x l ih =>
    rw [List.foldl_cons, ih fun y hy => h y (List.mem_cons_of_mem _ hy), lookup_insert,
      if_neg (h x List.mem_cons_self).symm]

/-- Under distinct keys every value stays where it was written. -/
theorem lookup_foldl_insert_of_mem {α : Type} {f : α → K} {g : α → V} {l : List α} {t : Table K V} {x : α}
    (hdistinct : (l.map f).Nodup) (hx : x ∈ l) : (l.foldl (fun t x => t.insert (f x) (g x)) t)[f x]? = some (g x) := by
  induction l generalizing t with
  | nil => cases hx
  | cons y l ih =>
    obtain ⟨hy, hl⟩ := List.nodup_cons.mp hdistinct
    rw [List.foldl_cons]
    rcases List.mem_cons.mp hx with rfl | hx
    · have hlater : ∀ z ∈ l, f z ≠ f x := fun z hz e => hy (List.mem_map.mpr ⟨z, hz, e⟩)
      rw [lookup_foldl_insert_of_not_mem hlater, lookup_insert_self]
    · exact ih hl hx

/-- Writing back the rows of a table gives the table. -/
theorem foldl_insert_toList (t : Table K V) : t.toList.foldl (fun t r => t.insert r.1 r.2) (∅ : Table K V) = t := by
  refine Std.ExtTreeMap.ext_getElem? fun a => ?_
  have hdistinct : t.toList.Pairwise fun r r' => r.1 ≠ r'.1 :=
    Std.ExtTreeMap.distinct_keys_toList.imp fun hne heq => hne (by rw [heq]; exact Std.ReflCmp.compare_self)
  cases h : t[a]? with
  | none =>
    rw [lookup_foldl_insert_of_not_mem, Std.ExtTreeMap.getElem?_empty]
    rintro ⟨k, v⟩ hr rfl
    rw [Std.ExtTreeMap.mem_toList_iff_getElem?_eq_some.mp hr] at h
    cases h
  | some v =>
    -- the row is written, and no later row has its key
    obtain ⟨before, after, hsplit⟩ := List.append_of_mem (Std.ExtTreeMap.mem_toList_iff_getElem?_eq_some.mpr h)
    rw [hsplit] at hdistinct ⊢
    rw [List.foldl_append, List.foldl_cons, lookup_foldl_insert_of_not_mem, lookup_insert_self]
    intro r hr
    exact ((List.pairwise_cons.mp (List.pairwise_append.mp hdistinct).2.1).1 r hr).symm

theorem insert_erase (t : Table K V) (k : K) (v : V) : (t.erase k).insert k v = t.insert k v := by
  refine Std.ExtTreeMap.ext_getElem? fun a => ?_
  rw [lookup_insert, lookup_insert, lookup_erase]
  by_cases h : a = k
  · rw [if_pos h, if_pos h]
  · rw [if_neg h, if_neg h, if_neg h]

theorem erase_of_none {t : Table K V} {k : K} (h : t[k]? = none) : t.erase k = t := by
  refine Std.ExtTreeMap.ext_getElem? fun a => ?_
  rw [lookup_erase]
  by_cases e : a = k
  · rw [if_pos e, e, h]
  · rw [if_neg e]

end Lookups

/-! ## Indexes -/

section Index

variable {I : Type} [Ord I] [Std.TransOrd I] {index : Table K I} {rows : Table I V} {p : V → Bool}
  {key : V → K} {i : I} {v : V}

/-- The index lists the rows in `p`, each under a key of its own. -/
def Indexes (index : Table K I) (rows : Table I V) (p : V → Bool) (key : V → K) : Prop :=
  ∀ (k : K) (i : I), index[k]? = some i ↔ ∃ v : V, rows[i]? = some v ∧ p v = true ∧ k = key v

theorem indexes_all : Indexes index rows (fun _ => true) key ↔
    ∀ (k : K) (i : I), index[k]? = some i ↔ ∃ v : V, rows[i]? = some v ∧ k = key v := by
  simp only [Indexes, true_and]

/-- The key of a new row is free if no other row has it. -/
theorem Indexes.free (h : Indexes index rows p key) (hother : ∀ (j : I) (w : V), rows[j]? = some w → key v ≠ key w) :
    index[key v]? = none := by
  cases hk : index[key v]? with
  | none => rfl
  | some j =>
    obtain ⟨w, hw, -, he⟩ := (h _ j).mp hk
    exact absurd he (hother j w hw)

variable [Std.LawfulEqOrd I] [DecidableEq I] [Std.LawfulEqOrd K] [DecidableEq K]

theorem Indexes.insert (h : Indexes index rows p key) (hnew : rows[i]? = none)
    (hfree : p v = true → index[key v]? = none) :
    Indexes (if p v then index.insert (key v) i else index) (rows.insert i v) p key := by
  intro k j
  constructor
  · intro hk
    have hcases : (p v = true ∧ k = key v ∧ i = j) ∨ index[k]? = some j := by
      split_ifs at hk with hp
      · exact (of_lookup_insert hk).imp (⟨hp, ·⟩) And.right
      · exact .inr hk
    rcases hcases with ⟨hp, rfl, rfl⟩ | hk
    · exact ⟨v, lookup_insert_self _ _ _, hp, rfl⟩
    · obtain ⟨w, hw, hrest⟩ := (h k j).mp hk
      refine ⟨w, ?_, hrest⟩
      rw [lookup_insert, if_neg, hw]
      rintro rfl
      cases hnew.symm.trans hw
  · rintro ⟨w, hw, hp, rfl⟩
    rcases of_lookup_insert hw with ⟨rfl, rfl⟩ | ⟨-, hw⟩
    · rw [if_pos hp, lookup_insert_self]
    · have hold := (h _ j).mpr ⟨w, hw, hp, rfl⟩
      split_ifs with hv
      · rw [lookup_insert, if_neg, hold]
        intro e
        rw [e, hfree hv] at hold
        cases hold
      · exact hold

theorem Indexes.erase (h : Indexes index rows p key) (hv : rows[i]? = some v) :
    Indexes (if p v then index.erase (key v) else index) (rows.erase i) p key := by
  intro k j
  constructor
  · intro hk
    have hcases : (p v = true → k ≠ key v) ∧ index[k]? = some j := by
      split_ifs at hk with hp
      · exact (of_lookup_erase hk).imp_left fun hne _ => hne
      · exact ⟨fun h => absurd h hp, hk⟩
    obtain ⟨w, hw, hp, rfl⟩ := (h k j).mp hcases.2
    refine ⟨w, ?_, hp, rfl⟩
    rw [lookup_erase, if_neg, hw]
    rintro rfl
    obtain rfl := Option.some.inj (hv.symm.trans hw)
    exact hcases.1 hp rfl
  · rintro ⟨w, hw, hp, rfl⟩
    obtain ⟨hne, hw⟩ := of_lookup_erase hw
    have hold := (h _ j).mpr ⟨w, hw, hp, rfl⟩
    split_ifs with hpv
    · -- the entry of one key names one row
      rw [lookup_erase, if_neg, hold]
      exact fun e => hne (Option.some.inj (hold.symm.trans ((h _ i).mpr ⟨v, hv, hpv, e⟩)))
    · exact hold

end Index

/-! ## Rows -/

section Rows

/-- The values of the rows, in key order. -/
def rows (t : Table K V) : List V := t.toList.map Prod.snd

variable [Std.LawfulEqOrd K]

theorem mem_rows {t : Table K V} {v : V} : v ∈ t.rows ↔ ∃ k : K, t[k]? = some v := by
  simp only [rows, List.mem_map, Prod.exists, exists_eq_right]
  exact exists_congr fun k => Std.ExtTreeMap.mem_toList_iff_getElem?_eq_some

theorem nodup_toList (t : Table K V) : t.toList.Nodup := by
  have h := Std.ExtTreeMap.distinct_keys_toList (t := t)
  refine h.imp ?_
  rintro ⟨a, v⟩ ⟨b, w⟩ hab heq
  exact hab (by rw [Prod.mk.injEq] at heq; rw [heq.1]; exact Std.ReflCmp.compare_self)

theorem toList_insert_perm (t : Table K V) (k : K) (v : V) :
    (t.insert k v).toList.Perm ((k, v) :: (t.erase k).toList) := by
  refine (List.perm_ext_iff_of_nodup (nodup_toList _) (List.nodup_cons.mpr ⟨?_, nodup_toList _⟩)).mpr ?_
  · rw [Std.ExtTreeMap.mem_toList_iff_getElem?_eq_some]
    simp
  · rintro ⟨a, w⟩
    rw [List.mem_cons, Std.ExtTreeMap.mem_toList_iff_getElem?_eq_some,
      Std.ExtTreeMap.mem_toList_iff_getElem?_eq_some, Std.ExtTreeMap.getElem?_insert,
      Std.ExtTreeMap.getElem?_erase, Prod.mk.injEq]
    by_cases h : k = a
    · subst h
      simp [eq_comm]
    · have hne : compare k a ≠ .eq := fun e => h (Std.LawfulEqOrd.eq_of_compare e)
      simp [hne, Ne.symm h]

theorem toList_erase_perm {t : Table K V} {k : K} {v : V} (h : t[k]? = some v) :
    t.toList.Perm ((k, v) :: (t.erase k).toList) := by
  have e : (t.insert k v) = t := by
    refine Std.ExtTreeMap.ext_getElem? fun a => ?_
    rw [Std.ExtTreeMap.getElem?_insert]
    split
    · next e => rw [← Std.LawfulEqOrd.eq_of_compare e, h]
    · rfl
  have := toList_insert_perm t k v
  rwa [e] at this

/-- Two tables with rows under the same keys list them in the same order, up to the values. -/
theorem keys_perm {W : Type} {t : Table K V} {t' : Table K W}
    (h : ∀ k : K, (t[k]?).isSome = (t'[k]?).isSome) : (t.toList.map Prod.fst).Perm (t'.toList.map Prod.fst) := by
  have hnodup : ∀ {U : Type} (t : Table K U), (t.toList.map Prod.fst).Nodup := by
    intro U t
    refine List.pairwise_map.mpr ((Std.ExtTreeMap.distinct_keys_toList (t := t)).imp ?_)
    rintro ⟨a, v⟩ ⟨b, w⟩ hab (heq : a = b)
    exact hab (by rw [heq]; exact Std.ReflCmp.compare_self)
  have hmem : ∀ {U : Type} (t : Table K U) (k : K), k ∈ t.toList.map Prod.fst ↔ (t[k]?).isSome := by
    intro U t k
    rw [List.mem_map, Option.isSome_iff_exists]
    constructor
    · rintro ⟨⟨a, v⟩, hr, rfl⟩
      exact ⟨v, Std.ExtTreeMap.mem_toList_iff_getElem?_eq_some.mp hr⟩
    · rintro ⟨v, hv⟩
      exact ⟨(k, v), Std.ExtTreeMap.mem_toList_iff_getElem?_eq_some.mpr hv, rfl⟩
  refine (List.perm_ext_iff_of_nodup (hnodup t) (hnodup t')).mpr fun k => ?_
  rw [hmem, hmem, h]

end Rows

/-! ## Key ranges -/

section Ranges

/-- The rows with `lo ≤ key < hi`, in key order. -/
def rowsIn (t : Table K V) (lo hi : K) : List (K × V) :=
  t.toList.filter fun r => decide (InRange lo hi r.1)

theorem mem_rowsIn [Std.LawfulEqOrd K] {t : Table K V} {lo hi k : K} {v : V} :
    (k, v) ∈ t.rowsIn lo hi ↔ t[k]? = some v ∧ InRange lo hi k := by
  simp [rowsIn, Std.ExtTreeMap.mem_toList_iff_getElem?_eq_some]

theorem rowsIn_ordered (t : Table K V) (lo hi : K) :
    (t.rowsIn lo hi).Pairwise fun a b => compare a.1 b.1 = .lt :=
  Std.ExtTreeMap.ordered_keys_toList.filter _

end Ranges

/-! ## Sums over rows -/

section Sums

/-- How many rows have a value in `p`. -/
def countOf (t : Table K V) (p : V → Bool) : Nat := (t.rows.filter p).length

/-- The sum of `f` over the rows with a value in `p`. -/
def sumOver (t : Table K V) (p : V → Bool) (f : V → Nat) : Nat := ((t.rows.filter p).map f).sum

/-- What one row contributes to `sumOver p f`. -/
def share (p : V → Bool) (f : V → Nat) (v : V) : Nat := if p v then f v else 0

variable {p q : V → Bool} {f g : V → Nat}

theorem countOf_eq_sumOver (t : Table K V) (p : V → Bool) : t.countOf p = t.sumOver p fun _ => 1 := by
  simp [countOf, sumOver]

theorem sumOver_eq_sum_share (t : Table K V) (p : V → Bool) (f : V → Nat) :
    t.sumOver p f = (t.toList.map fun r => share p f r.2).sum := by
  unfold sumOver rows
  induction t.toList with
  | nil => rfl
  | cons r l ih =>
    simp only [List.map_cons, List.filter_cons, List.sum_cons, share] at ih ⊢
    split <;> simp [ih]

/-- Removing all rows of a class takes their shares away. -/
theorem sumOver_filter (t : Table K V) (keep : K → V → Bool) (p : V → Bool) (f : V → Nat) :
    sumOver (t.filter keep) p f +
      ((t.toList.filter fun r => !keep r.1 r.2).map fun r => share p f r.2).sum = t.sumOver p f := by
  rw [sumOver_eq_sum_share, sumOver_eq_sum_share, Std.ExtTreeMap.toList_filter]
  induction t.toList with
  | nil => rfl
  | cons r l ih =>
    simp only [List.filter_cons, List.map_cons, List.sum_cons]
    cases keep r.1 r.2 <;> simp only [Bool.not_true, Bool.not_false, if_true, if_false, List.map_cons,
      List.sum_cons, Bool.false_eq_true] <;> omega

variable [Std.LawfulEqOrd K]

/-- Removing a row takes its share away. -/
theorem sumOver_erase (t : Table K V) (k : K) (p : V → Bool) (f : V → Nat) :
    sumOver (t.erase k) p f + (t[k]?).elim 0 (share p f) = t.sumOver p f := by
  rw [sumOver_eq_sum_share, sumOver_eq_sum_share]
  cases h : t[k]? with
  | none =>
    have e : t.erase k = t := by
      refine Std.ExtTreeMap.ext_getElem? fun a => ?_
      rw [Std.ExtTreeMap.getElem?_erase]
      split
      · next e => rw [← Std.LawfulEqOrd.eq_of_compare e, h]
      · rfl
    simp [e]
  | some v =>
    have hp := ((toList_erase_perm h).map fun r => share p f r.2).sum_eq
    simp only [List.map_cons, List.sum_cons] at hp
    simp only [Option.elim_some]
    omega

/-- Writing a row replaces the share of the row that was there. -/
theorem sumOver_insert (t : Table K V) (k : K) (v : V) (p : V → Bool) (f : V → Nat) :
    sumOver (t.insert k v) p f + (t[k]?).elim 0 (share p f) = t.sumOver p f + share p f v := by
  have hp := ((toList_insert_perm t k v).map fun r => share p f r.2).sum_eq
  have he := sumOver_erase t k p f
  rw [sumOver_eq_sum_share (t.erase k)] at he
  simp only [List.map_cons, List.sum_cons] at hp
  rw [sumOver_eq_sum_share (t.insert k v), hp]
  omega

theorem share_le_sumOver {t : Table K V} {k : K} {v : V} (h : t[k]? = some v) :
    share p f v ≤ t.sumOver p f := by
  have he := sumOver_erase t k p f
  rw [h, Option.elim_some] at he
  omega

theorem le_sumOver {t : Table K V} {k : K} {v : V} (h : t[k]? = some v) (hp : p v = true) :
    f v ≤ t.sumOver p f := by
  have hle := share_le_sumOver (p := p) (f := f) h
  rwa [share, if_pos hp] at hle

theorem sumOver_congr {t : Table K V} (h : ∀ (k : K) v, t[k]? = some v → share p f v = share q g v) :
    t.sumOver p f = t.sumOver q g := by
  rw [sumOver_eq_sum_share, sumOver_eq_sum_share]
  congr 1
  refine List.map_congr_left fun r hr => ?_
  exact h r.1 r.2 (Std.ExtTreeMap.mem_toList_iff_getElem?_eq_some.mp hr)

/-- As far as sums go, `t'` is `t` with the value `old` taken out and the value `new` put in. -/
def Swap (t t' : Table K V) (old new : Option V) : Prop :=
  ∀ (p : V → Bool) (f : V → Nat),
    t'.sumOver p f + old.elim 0 (share p f) = t.sumOver p f + new.elim 0 (share p f)

omit [Std.LawfulEqOrd K] in
theorem Swap.refl (t : Table K V) : Swap t t none none := fun _ _ => rfl

theorem swap_insert (t : Table K V) (k : K) (v : V) : Swap t (t.insert k v) t[k]? (some v) :=
  fun p f => sumOver_insert t k v p f

theorem swap_erase (t : Table K V) (k : K) : Swap t (t.erase k) t[k]? none :=
  fun p f => sumOver_erase t k p f

theorem Swap.add {t t' : Table K V} {old : Option V} (h : Swap t t' old none) {k : K} (hk : t'[k]? = none)
    (v : V) : Swap t (t'.insert k v) old (some v) := by
  intro p f
  have h1 := h p f
  have h2 := sumOver_insert t' k v p f
  rw [hk] at h2
  simp only [Option.elim_none, Option.elim_some] at h1 h2 ⊢
  omega

end Sums

end Table

end RecordStore.Lib
