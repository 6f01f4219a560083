import Mathlib

/-!
# Lib.Spread — one item of every class first

Choosing `n` items of a list in two passes: one item of every class that is not taken yet, and then the others.
Both passes are prefixes of one ranking, which does not depend on `n`.  So a choice is compared with another by
where an item stands in the ranking: an item that is added to the list lets no other one move up.
-/

namespace RecordStore.Lib

variable {α κ : Type} [DecidableEq α] [DecidableEq κ] {f : α → κ} {s : List κ} {l pre post : List α} {x z : α}

/-- The first item of every class that is not taken. -/
def firsts (f : α → κ) : List κ → List α → List α
  | _, [] => []
  | s, a :: l => if f a ∈ s then firsts f s l else a :: firsts f (f a :: s) l

/-- The first item of every class, and then the others. -/
def spreadRanking (f : α → κ) (s : List κ) (l : List α) : List α :=
  firsts f s l ++ l.filter (· ∉ firsts f s l)

section Firsts

omit [DecidableEq α]

theorem firsts_congr {t : List κ} (h : ∀ k, k ∈ s ↔ k ∈ t) (l : List α) : firsts f s l = firsts f t l := by
  induction l generalizing s t with
  | nil => rfl
  | cons a l ih =>
    have hcons : ∀ k, k ∈ f a :: s ↔ k ∈ f a :: t := by simp [h]
    rw [firsts, firsts, ih h, ih hcons]
    simp only [h]

theorem firsts_append (l m : List α) :
    firsts f s (l ++ m) = firsts f s l ++ firsts f (l.map f ++ s) m := by
  induction l generalizing s with
  | nil => rfl
  | cons a l ih =>
    rw [List.cons_append, firsts, firsts]
    split_ifs with h
    · rw [ih]
      congr 1
      refine firsts_congr (fun k => ?_) m
      simp only [List.map_cons, List.cons_append, List.mem_cons, List.mem_append]
      exact ⟨.inr, fun hk => hk.elim (fun e => .inr (e ▸ h)) id⟩
    · rw [ih, List.cons_append]
      congr 2
      exact firsts_congr (fun k => by simp [or_left_comm]) m

theorem firsts_sublist (s : List κ) (l : List α) : (firsts f s l).Sublist l := by
  induction l generalizing s with
  | nil => exact .slnil
  | cons a l ih =>
    rw [firsts]
    split_ifs
    · exact (ih _).cons _
    · exact (ih _).cons_cons _

/-- What the first pass takes is of classes that differ and that were not taken. -/
theorem firsts_fresh (s : List κ) (l : List α) :
    ((firsts f s l).map f).Nodup ∧ ∀ a ∈ firsts f s l, f a ∉ s := by
  induction l generalizing s with
  | nil => exact ⟨.nil, by simp [firsts]⟩
  | cons a l ih =>
    rw [firsts]
    split_ifs with h
    · exact ih s
    · obtain ⟨hnodup, hfresh⟩ := ih (f a :: s)
      refine ⟨List.nodup_cons.mpr ⟨fun ha => ?_, hnodup⟩, fun b hb => ?_⟩
      · obtain ⟨b, hb, e⟩ := List.mem_map.mp ha
        exact hfresh b hb (e ▸ List.mem_cons_self)
      · rcases List.mem_cons.mp hb with rfl | hb
        · exact h
        · exact fun hk => hfresh b hb (List.mem_cons_of_mem _ hk)

/-- The first pass leaves no class out. -/
theorem mem_keys_firsts (k : κ) :
    k ∈ (firsts f s l).map f ↔ k ∈ l.map f ∧ k ∉ s := by
  induction l generalizing s with
  | nil => simp [firsts]
  | cons a l ih =>
    rw [firsts]
    split_ifs with h
    · rw [ih, List.map_cons, List.mem_cons]
      refine and_congr_left fun hk => (or_iff_right ?_).symm
      exact fun e => hk (e ▸ h)
    · rw [List.map_cons, List.mem_cons, ih, List.map_cons, List.mem_cons, List.mem_cons]
      by_cases e : k = f a
      · simp [e, h]
      · simp [e]

theorem length_firsts (s : List κ) (l : List α) :
    (firsts f s l).length = ((l.map f).toFinset \ s.toFinset).card := by
  rw [← List.length_map (f := f), ← List.toFinset_card_of_nodup (firsts_fresh s l).1]
  congr 1
  ext k
  rw [List.mem_toFinset, mem_keys_firsts, Finset.mem_sdiff, List.mem_toFinset, List.mem_toFinset]

/-- More items, more classes. -/
theorem length_firsts_mono (s : List κ) {m : List α} (h : l ⊆ m) :
    (firsts f s l).length ≤ (firsts f s m).length := by
  rw [length_firsts, length_firsts]
  refine Finset.card_le_card (Finset.sdiff_subset_sdiff (fun k hk => ?_) subset_rfl)
  rw [List.mem_toFinset] at hk ⊢
  exact List.map_subset f h hk

/-- One more item, one more class at most. -/
theorem length_firsts_insert (s : List κ) (pre post : List α) (x : α) :
    (firsts f s (pre ++ x :: post)).length ≤ (firsts f s (pre ++ post)).length + 1 := by
  rw [length_firsts, length_firsts]
  have hkeys : ((pre ++ x :: post).map f).toFinset = insert (f x) ((pre ++ post).map f).toFinset := by
    ext k
    simp
  rw [hkeys]
  calc (insert (f x) ((pre ++ post).map f).toFinset \ s.toFinset).card
      ≤ (insert (f x) (((pre ++ post).map f).toFinset \ s.toFinset)).card :=
        Finset.card_le_card fun k => by
          simp only [Finset.mem_sdiff, Finset.mem_insert]
          exact fun h => h.1.imp_right fun hk => ⟨hk, h.2⟩
    _ ≤ _ := Finset.card_insert_le ..

theorem notMem_firsts_of_taken (hl : (pre ++ z :: post).Nodup) (hz : f z ∈ pre.map f ++ s) :
    z ∉ firsts f s (pre ++ z :: post) := by
  obtain ⟨-, hpost, hdisj⟩ := List.nodup_append'.mp hl
  rw [firsts_append, firsts, if_pos hz, List.mem_append]
  rintro (h | h)
  · exact hdisj ((firsts_sublist s pre).subset h) List.mem_cons_self
  · exact (List.nodup_cons.mp hpost).1 ((firsts_sublist _ post).subset h)

end Firsts

section Ranking

theorem spreadRanking_perm (hl : l.Nodup) : (spreadRanking f s l).Perm l := by
  refine (List.perm_ext_iff_of_nodup ?_ hl).mpr fun a => ?_
  · refine (List.nodup_append'.mpr ⟨hl.sublist (firsts_sublist s l), hl.filter _, fun a ha h => ?_⟩)
    exact of_decide_eq_true (List.mem_filter.mp h).2 ha
  · rw [spreadRanking, List.mem_append, List.mem_filter, decide_eq_true_eq]
    have hsub : a ∈ firsts f s l → a ∈ l := fun h => (firsts_sublist s l).subset h
    tauto

/-- An item whose class is taken when it is reached is shared only when no class is left. -/
theorem classes_taken_of_shared {before after : List α} {n : ℕ}
    (h : (spreadRanking f s l).take n = before ++ z :: after)
    (hz : f z ∈ s ++ before.map f) : ∀ a ∈ l, f a ∈ s ++ before.map f := by
  have hprefix : before ++ [z] <+: spreadRanking f s l :=
    .trans ⟨after, by rw [h, List.append_assoc, List.singleton_append]⟩ (List.take_prefix n _)
  obtain ⟨hnodup, hfresh⟩ := firsts_fresh (f := f) s l
  rcases List.prefix_or_prefix_of_prefix hprefix (List.prefix_append _ _) with hin | hin
  · -- the first pass takes no class twice
    obtain ⟨rest, e⟩ := hin
    rw [← e, List.map_append, List.map_append] at hnodup
    rcases List.mem_append.mp hz with hz | hz
    · exact absurd hz (hfresh z (e ▸ by simp))
    · exact absurd hnodup.of_append_left (by simpa [List.nodup_append] using fun _ => by simpa using hz)
  · have hbefore : firsts f s l <+: before := by
      rcases List.prefix_concat_iff.mp hin with e | e
      · rw [e, List.map_append] at hnodup
        rcases List.mem_append.mp hz with hz | hz
        · exact absurd hz (hfresh z (e ▸ by simp))
        · exact absurd hnodup (by simpa [List.nodup_append] using fun _ => by simpa using hz)
      · exact e
    intro a ha
    by_cases hk : f a ∈ s
    · exact List.mem_append_left _ hk
    · have := (mem_keys_firsts (f := f) (s := s) (l := l) (f a)).mpr ⟨List.mem_map_of_mem ha, hk⟩
      exact List.mem_append_right _ (List.map_subset f hbefore.subset this)

/-- The choice is longer than the first pass exactly when an item of it shares its class. -/
theorem length_firsts_lt_iff {n : ℕ} :
    ((firsts f s l).take n).length < ((spreadRanking f s l).take n).length ↔
      ∃ a ∈ (spreadRanking f s l).take n, f a ∈ s ∨ ∃ b ∈ (spreadRanking f s l).take n, b ≠ a ∧ f b = f a := by
  obtain ⟨hdistinct, hfresh⟩ := firsts_fresh (f := f) s l
  rw [spreadRanking, List.take_append]
  constructor
  · intro hlt
    obtain ⟨a, ha⟩ : ∃ a, a ∈ (l.filter (· ∉ firsts f s l)).take (n - (firsts f s l).length) := by
      refine List.exists_mem_of_length_pos ?_
      rw [List.length_append] at hlt
      omega
    obtain ⟨hal, hout⟩ := List.mem_filter.mp (List.mem_of_mem_take ha)
    have hall : (firsts f s l).take n = firsts f s l := by
      refine List.take_of_length_le ?_
      have := List.length_pos_of_mem ha
      rw [List.length_take] at this
      omega
    refine ⟨a, List.mem_append_right _ ha, or_iff_not_imp_left.mpr fun hs => ?_⟩
    obtain ⟨b, hb, e⟩ := List.mem_map.mp ((mem_keys_firsts (f a)).mpr ⟨List.mem_map_of_mem hal, hs⟩)
    rw [hall]
    exact ⟨b, List.mem_append_left _ hb, fun e => of_decide_eq_true hout (e ▸ hb), e⟩
  · rintro ⟨a, ha, hshare⟩
    by_contra hge
    have hnone : (l.filter (· ∉ firsts f s l)).take (n - (firsts f s l).length) = [] := by
      refine List.eq_nil_of_length_eq_zero ?_
      rw [List.length_append] at hge
      omega
    rw [hnone, List.append_nil] at ha hshare
    rcases hshare with hs | ⟨b, hb, hne, e⟩
    · exact hfresh a (List.mem_of_mem_take ha) hs
    · exact hne (List.inj_on_of_nodup_map hdistinct (List.mem_of_mem_take hb) (List.mem_of_mem_take ha) e)

/-! ### Where an item stands -/

/-- An item that opens a class stands behind those that opened one before it. -/
theorem idxOf_of_fresh (hl : (pre ++ z :: post).Nodup) (hz : f z ∉ pre.map f ++ s) :
    (spreadRanking f s (pre ++ z :: post)).idxOf z = (firsts f s pre).length := by
  have hpre : z ∉ firsts f s pre := fun h =>
    (List.nodup_append'.mp hl).2.2 ((firsts_sublist s pre).subset h) List.mem_cons_self
  rw [spreadRanking, firsts_append, firsts, if_neg hz, List.append_assoc, List.idxOf_append_of_notMem hpre,
    List.cons_append, List.idxOf_cons_self, Nat.add_zero]

/-- The items before `z` that the first pass leaves. -/
theorem length_filter_pre (hl : (pre ++ z :: post).Nodup) :
    (pre.filter (· ∉ firsts f s (pre ++ z :: post))).length + (firsts f s pre).length = pre.length := by
  obtain ⟨hpre, -, hdisj⟩ := List.nodup_append'.mp hl
  have hsame : pre.filter (· ∉ firsts f s (pre ++ z :: post)) = pre.filter (· ∉ firsts f s pre) := by
    refine List.filter_congr fun a ha => ?_
    have hrest : a ∉ firsts f (pre.map f ++ s) (z :: post) := fun h =>
      hdisj ha ((firsts_sublist _ _).subset h)
    simp only [firsts_append, List.mem_append, hrest, or_false]
  have hperm := (spreadRanking_perm (f := f) (s := s) hpre).length_eq
  rw [spreadRanking, List.length_append] at hperm
  rw [hsame]
  omega

/-- An item of a class that is taken stands behind the first pass, and behind what that left before it. -/
theorem idxOf_of_taken (hl : (pre ++ z :: post).Nodup) (hz : f z ∈ pre.map f ++ s) :
    (spreadRanking f s (pre ++ z :: post)).idxOf z + (firsts f s pre).length =
      (firsts f s (pre ++ z :: post)).length + pre.length := by
  have hout := notMem_firsts_of_taken hl hz
  have hpre : z ∉ pre.filter (· ∉ firsts f s (pre ++ z :: post)) := fun h =>
    (List.nodup_append'.mp hl).2.2 (List.mem_of_mem_filter h) List.mem_cons_self
  have hlen := length_filter_pre (f := f) (s := s) hl
  rw [spreadRanking, List.idxOf_append_of_notMem hout, List.filter_append,
    List.filter_cons_of_pos (by simpa using hout), List.idxOf_append_of_notMem hpre, List.idxOf_cons_self]
  omega

/-- An item that is added lets no other one move up. -/
theorem idxOf_le_insert (hl : (pre ++ x :: post).Nodup) (hz : z ∈ pre ++ post) :
    (spreadRanking f s (pre ++ post)).idxOf z ≤ (spreadRanking f s (pre ++ x :: post)).idxOf z := by
  have hl' : (pre ++ post).Nodup := hl.sublist (List.Sublist.append_left (List.sublist_cons_self x post) pre)
  have hall : (firsts f s (pre ++ post)).length ≤ (firsts f s (pre ++ x :: post)).length :=
    length_firsts_mono s (List.Sublist.append_left (List.sublist_cons_self x post) pre).subset
  rcases List.mem_append.mp hz with hz | hz
  · obtain ⟨p, q, rfl⟩ := List.append_of_mem hz
    rw [List.append_assoc, List.cons_append] at hl hl' hall ⊢
    rw [List.append_assoc, List.cons_append] at hall ⊢
    by_cases hk : f z ∈ p.map f ++ s
    · have h := idxOf_of_taken hl hk
      have h' := idxOf_of_taken hl' hk
      omega
    · rw [idxOf_of_fresh hl hk, idxOf_of_fresh hl' hk]
  · obtain ⟨p, q, rfl⟩ := List.append_of_mem hz
    have e : ∀ r, pre ++ (p ++ z :: r) = (pre ++ p) ++ z :: r := fun r => (List.append_assoc ..).symm
    have e' : pre ++ x :: (p ++ z :: q) = (pre ++ x :: p) ++ z :: q := by simp
    rw [e, e'] at hall ⊢
    rw [e'] at hl
    rw [e] at hl'
    have hpre : (firsts f s (pre ++ p)).length ≤ (firsts f s (pre ++ x :: p)).length :=
      length_firsts_mono s (List.Sublist.append_left (List.sublist_cons_self x p) pre).subset
    have hpre' := length_firsts_insert (f := f) s pre p x
    have hlen : (pre ++ x :: p).length = (pre ++ p).length + 1 := by simp; omega
    by_cases hk : f z ∈ (pre ++ p).map f ++ s
    · have hk' : f z ∈ (pre ++ x :: p).map f ++ s := by
        simp only [List.map_append, List.map_cons, List.mem_append, List.mem_cons] at hk ⊢
        tauto
      have h := idxOf_of_taken hl' hk
      have h' := idxOf_of_taken hl hk'
      omega
    · by_cases hk' : f z ∈ (pre ++ x :: p).map f ++ s
      · -- `x` takes the class that `z` opened
        have h := idxOf_of_fresh hl' hk
        have h' := idxOf_of_taken hl hk'
        have hsub := (firsts_sublist (f := f) s (pre ++ x :: p)).length_le
        have hmono := length_firsts_mono (f := f) s (List.sublist_append_left (pre ++ p) (z :: q)).subset
        omega
      · rw [idxOf_of_fresh hl' hk, idxOf_of_fresh hl hk']
        exact hpre

/-! ### The choice -/

/-- Of the items chosen with `x` in the list, all others are chosen without it. -/
theorem mem_take_of_insert {n : ℕ} (hl : (pre ++ x :: post).Nodup)
    (hz : z ∈ (spreadRanking f s (pre ++ x :: post)).take n) (hne : z ≠ x) :
    z ∈ (spreadRanking f s (pre ++ post)).take n := by
  have hl' : (pre ++ post).Nodup := hl.sublist (List.Sublist.append_left (List.sublist_cons_self x post) pre)
  have hmem := List.mem_of_mem_take hz
  have hall : z ∈ pre ++ post := by
    have h := (spreadRanking_perm hl).mem_iff.mp hmem
    simpa [hne] using h
  rw [List.mem_take_iff_idxOf_lt hmem] at hz
  rw [List.mem_take_iff_idxOf_lt ((spreadRanking_perm hl').mem_iff.mpr hall)]
  exact (idxOf_le_insert hl hall).trans_lt hz

/-- An item that is not chosen makes no difference. -/
theorem take_insert_of_notMem {n : ℕ} (hl : (pre ++ x :: post).Nodup)
    (hx : x ∉ (spreadRanking f s (pre ++ x :: post)).take n) :
    (spreadRanking f s (pre ++ x :: post)).take n = (spreadRanking f s (pre ++ post)).take n := by
  have hmem : x ∈ spreadRanking f s (pre ++ x :: post) := (spreadRanking_perm hl).mem_iff.mpr (by simp)
  rw [List.mem_take_iff_idxOf_lt hmem, Nat.not_lt] at hx
  by_cases hk : f x ∈ pre.map f ++ s
  · have hfirsts : firsts f s (pre ++ x :: post) = firsts f s (pre ++ post) := by
      rw [firsts_append, firsts, if_pos hk, firsts_append]
    have hlen := length_filter_pre (f := f) (s := s) hl
    have hidx := idxOf_of_taken hl hk
    have hout := notMem_firsts_of_taken hl hk
    rw [hfirsts] at hlen hidx hout
    have hn : n ≤ (firsts f s (pre ++ post) ++ pre.filter (· ∉ firsts f s (pre ++ post))).length := by
      rw [List.length_append]
      omega
    rw [spreadRanking, spreadRanking, hfirsts, List.filter_append, List.filter_cons_of_pos (by simpa using hout),
      List.filter_append, ← List.append_assoc, ← List.append_assoc, List.take_append_of_le_length hn,
      List.take_append_of_le_length hn]
  · rw [idxOf_of_fresh hl hk] at hx
    rw [spreadRanking, spreadRanking, firsts_append, firsts_append pre post, List.append_assoc, List.append_assoc,
      List.take_append_of_le_length hx, List.take_append_of_le_length hx]

end Ranking

end RecordStore.Lib
