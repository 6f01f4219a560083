import Mathlib

/-!
# Lib.HashChain — lists committed to by a chain of links

A chain starts at a genesis value and links one item after the other, each at its position.  A stored
chain whose entry at `j` carries the digest of the original one agrees with it at and before `j`: the
agreement runs backwards, one link at a time, as far as equal digests have equal preimages.
-/

namespace RecordStore.Lib.HashChain

variable {D E : Type} (link : Nat → D → E → D) (genesis : D)

/-- The digest after the last item. -/
def head (items : List E) : D := items.zipIdx.foldl (fun d item => link item.2 d item.1) genesis

theorem head_concat (items : List E) (e : E) :
    head link genesis (items ++ [e]) = link items.length (head link genesis items) e := by
  simp [head, List.zipIdx_append, List.foldl_append]

variable {link genesis}

theorem head_take_succ {items : List E} {i : Nat} {e : E} (h : items[i]? = some e) :
    head link genesis (items.take (i + 1)) = link i (head link genesis (items.take i)) e := by
  obtain ⟨hi, -⟩ := List.getElem?_eq_some_iff.mp h
  rw [List.take_add_one, h, Option.toList_some, head_concat, List.length_take, Nat.min_eq_left (Nat.le_of_lt hi)]

/-- Agreement runs backwards from a shared digest. -/
theorem agree_below {items : List E} {previous digest : Nat → D} {R : Nat → Prop} {n j : Nat}
    (hlinked : ∀ i, i + 1 < n → previous (i + 1) = digest i)
    (hback : ∀ i < n, digest i = head link genesis (items.take (i + 1)) →
      previous i = head link genesis (items.take i) ∧ R i)
    (hj : j < n) (h : digest j = head link genesis (items.take (j + 1))) : ∀ i ≤ j, R i := by
  induction j with
  | zero =>
    intro i hi
    obtain rfl := Nat.le_zero.mp hi
    exact (hback 0 hj h).2
  | succ j ih =>
    intro i hi
    obtain ⟨hprevious, hR⟩ := hback (j + 1) hj h
    rcases Nat.lt_or_ge i (j + 1) with hlt | hge
    · rw [hlinked j hj] at hprevious
      exact ih (Nat.lt_of_succ_lt hj) hprevious i (Nat.le_of_lt_succ hlt)
    · obtain rfl : i = j + 1 := Nat.le_antisymm hi hge
      exact hR

end RecordStore.Lib.HashChain
