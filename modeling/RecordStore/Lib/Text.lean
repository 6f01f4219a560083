import Mathlib

/-!
# Lib.Text — fields and their separators

A text that is put together from fields can be taken apart again where no field contains the separator that
follows it.
-/

namespace RecordStore.Lib

variable {α : Type} {sep : α} {a b x y : List α}

/-- `trim_matches`. -/
def trimWhile (p : α → Bool) (l : List α) : List α := ((l.dropWhile p).reverse.dropWhile p).reverse

/-- The first separator tells where the first field ends. -/
theorem field_inj (ha : sep ∉ a) (hb : sep ∉ b) (h : a ++ sep :: x = b ++ sep :: y) : a = b ∧ x = y := by
  induction a generalizing b with
  | nil =>
    cases b with
    | nil => exact ⟨rfl, (List.cons.inj h).2⟩
    | cons v b => exact absurd ((List.cons.inj h).1 ▸ List.mem_cons_self) hb
  | cons u a ih =>
    cases b with
    | nil => exact absurd ((List.cons.inj h).1 ▸ List.mem_cons_self) ha
    | cons v b =>
      obtain ⟨rfl, hrest⟩ := List.cons.inj h
      obtain ⟨rfl, hxy⟩ :=
        ih (fun hm => ha (List.mem_cons_of_mem u hm)) (fun hm => hb (List.mem_cons_of_mem u hm)) hrest
      exact ⟨rfl, hxy⟩

/-- Lists with the same image, under a map that tells their entries apart. -/
theorem eq_of_map_eq {β : Type} {f : α → β} {l l' : List α} (hinj : ∀ a ∈ l, ∀ b ∈ l', f a = f b → a = b)
    (h : l.map f = l'.map f) : l = l' := by
  induction l generalizing l' with
  | nil => exact (List.map_eq_nil_iff.mp h.symm).symm
  | cons a l ih =>
    cases l' with
    | nil => exact absurd h (by simp)
    | cons b l' =>
      obtain ⟨hab, hrest⟩ := List.cons.inj h
      rw [hinj a List.mem_cons_self b List.mem_cons_self hab,
        ih (fun a ha b hb => hinj a (List.mem_cons_of_mem _ ha) b (List.mem_cons_of_mem _ hb)) hrest]

/-- The fields with a separator between any two. -/
def join (sep : α) : List (List α) → List α
  | [] => []
  | [a] => a
  | a :: b :: l => a ++ sep :: join sep (b :: l)

theorem mem_join {c : α} {l : List (List α)} (h : c ∈ join sep l) : c = sep ∨ ∃ a ∈ l, c ∈ a := by
  induction l with
  | nil => exact absurd h List.not_mem_nil
  | cons a l ih =>
    cases l with
    | nil => exact .inr ⟨a, List.mem_cons_self, h⟩
    | cons b l =>
      rcases List.mem_append.mp h with h | h
      · exact .inr ⟨a, List.mem_cons_self, h⟩
      · rcases List.mem_cons.mp h with rfl | h
        · exact .inl rfl
        · rcases ih h with rfl | ⟨d, hd, hc⟩
          · exact .inl rfl
          · exact .inr ⟨d, List.mem_cons_of_mem a hd, hc⟩

/-- Fields that are not empty can be told from one another. -/
theorem join_inj {l l' : List (List α)} (hl : ∀ a ∈ l, a ≠ [] ∧ sep ∉ a) (hl' : ∀ a ∈ l', a ≠ [] ∧ sep ∉ a)
    (h : join sep l = join sep l') : l = l' := by
  induction l generalizing l' with
  | nil =>
    cases l' with
    | nil => rfl
    | cons b l' =>
      cases l' with
      | nil => exact absurd h.symm (hl' b List.mem_cons_self).1
      | cons d l' => exact absurd h.symm (by simp [join])
  | cons a l ih =>
    have ha := hl a List.mem_cons_self
    cases l' with
    | nil =>
      cases l with
      | nil => exact absurd h ha.1
      | cons d l => exact absurd h (by simp [join])
    | cons b l' =>
      have hb := hl' b List.mem_cons_self
      cases l with
      | nil =>
        cases l' with
        | nil => exact congrArg ([·]) h
        | cons d l' =>
          have hsep : sep ∈ a := by
            rw [show a = b ++ sep :: join sep (d :: l') from h]
            exact List.mem_append_right b List.mem_cons_self
          exact absurd hsep ha.2
      | cons d l =>
        cases l' with
        | nil =>
          have hsep : sep ∈ b := by
            rw [← show a ++ sep :: join sep (d :: l) = b from h]
            exact List.mem_append_right a List.mem_cons_self
          exact absurd hsep hb.2
        | cons d' l' =>
          obtain ⟨rfl, hrest⟩ := field_inj ha.2 hb.2 h
          rw [ih (fun e he => hl e (List.mem_cons_of_mem a he)) (fun e he => hl' e (List.mem_cons_of_mem a he)) hrest]

/-- Lines with a terminator each, closed by an empty one. -/
theorem lines_inj {l l' : List (List α)} (hl : ∀ a ∈ l, a ≠ [] ∧ sep ∉ a) (hl' : ∀ a ∈ l', a ≠ [] ∧ sep ∉ a)
    (h : l.flatMap (· ++ [sep]) ++ sep :: x = l'.flatMap (· ++ [sep]) ++ sep :: y) : l = l' ∧ x = y := by
  have hempty : ∀ {a : List α} {z : List α}, a ≠ [] ∧ sep ∉ a → sep :: x ≠ a ++ z ∧ sep :: y ≠ a ++ z := by
    rintro (_ | ⟨u, a⟩) z ⟨hne, hsep⟩
    · exact absurd rfl hne
    · exact ⟨fun he => hsep ((List.cons.inj he).1 ▸ List.mem_cons_self),
        fun he => hsep ((List.cons.inj he).1 ▸ List.mem_cons_self)⟩
  induction l generalizing l' with
  | nil =>
    cases l' with
    | nil => exact ⟨rfl, (List.cons.inj h).2⟩
    | cons b l' =>
      rw [List.flatMap_cons, List.append_assoc, List.append_assoc] at h
      exact absurd h (hempty (hl' b List.mem_cons_self)).1
  | cons a l ih =>
    cases l' with
    | nil =>
      rw [List.flatMap_cons, List.append_assoc, List.append_assoc] at h
      exact absurd h.symm (hempty (hl a List.mem_cons_self)).2
    | cons b l' =>
      simp only [List.flatMap_cons, List.append_assoc, List.singleton_append] at h
      obtain ⟨rfl, hrest⟩ := field_inj (hl a List.mem_cons_self).2 (hl' b List.mem_cons_self).2 h
      obtain ⟨rfl, hxy⟩ := ih (fun e he => hl e (List.mem_cons_of_mem a he))
        (fun e he => hl' e (List.mem_cons_of_mem a he)) hrest
      exact ⟨rfl, hxy⟩

end RecordStore.Lib
