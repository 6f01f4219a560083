import Mathlib

/-!
# Lib.Merkle — hash trees built level by level

A level of a tree is paired left to right, and an odd node rises unchanged.  The levels of digests are the images
of levels of trees, so what a path folds to can be compared with the tree itself.  Where the hash functions have no
collision among the values that are hashed, a path that folds to the digest of a tree leads from the root to one of
its leaves, its sides say to which, and its hashes are those of the tree (`path_of_climb`).
-/

namespace RecordStore.Lib.Merkle

variable {α β D : Type}

/-! ## Levels -/

section Levels

/-- Reduces one level to its parents. -/
def combine (join : β → β → β) : List β → List β
  | a :: b :: rest => join a b :: combine join rest
  | rest => rest

/-- Reduces level after level, while there is more than one node. -/
def reduce (join : β → β → β) : Nat → List β → List β
  | 0, level => level
  | fuel + 1, level => if 1 < level.length then reduce join fuel (combine join level) else level

variable {join : β → β → β}

theorem length_combine (join : β → β → β) : ∀ level : List β, (combine join level).length = (level.length + 1) / 2
  | [] => by simp [combine]
  | [_] => by simp [combine]
  | a :: b :: rest => by
    rw [combine, List.length_cons, length_combine join rest, List.length_cons, List.length_cons]
    omega

/-- With one turn for each node, a single node is left. -/
theorem length_reduce {fuel : Nat} {level : List β} (hne : level ≠ []) (hfuel : level.length ≤ fuel + 1) :
    (reduce join fuel level).length = 1 := by
  induction fuel generalizing level with
  | zero =>
    have := List.length_pos_of_ne_nil hne
    unfold reduce
    omega
  | succ fuel ih =>
    have hpos := List.length_pos_of_ne_nil hne
    unfold reduce
    split_ifs with hmore
    · have hlength := length_combine join level
      refine ih (List.ne_nil_of_length_pos (by omega)) (by omega)
    · omega

/-- A map that respects the joins respects the levels. -/
theorem map_combine {γ : Type} {join' : γ → γ → γ} {g : β → γ} (hg : ∀ a b, g (join a b) = join' (g a) (g b)) :
    ∀ level : List β, (combine join level).map g = combine join' (level.map g)
  | [] => by simp [combine]
  | [_] => by simp [combine]
  | a :: b :: rest => by
    rw [combine, List.map_cons, hg, map_combine hg rest, List.map_cons, List.map_cons, combine]

theorem map_reduce {γ : Type} {join' : γ → γ → γ} {g : β → γ} (hg : ∀ a b, g (join a b) = join' (g a) (g b))
    (fuel : Nat) (level : List β) : (reduce join fuel level).map g = reduce join' fuel (level.map g) := by
  induction fuel generalizing level with
  | zero => rfl
  | succ fuel ih =>
    unfold reduce
    rw [List.length_map]
    split_ifs
    · rw [ih, map_combine hg]
    · rfl

end Levels

/-! ## Trees -/

/-- A tree with its labels at the leaves. -/
inductive HashTree (α : Type) where
  | leaf (a : α)
  | node (left right : HashTree α)
  deriving DecidableEq

/-- Which side of its parent a sibling sits on. -/
inductive Side where
  | left
  | right
  deriving DecidableEq

namespace HashTree

def map (f : α → β) : HashTree α → HashTree β
  | leaf a => leaf (f a)
  | node l r => node (l.map f) (r.map f)

/-- Goes down from the root; at each node the sibling is on the given side. -/
def follow : HashTree α → List Side → Option α
  | leaf a, [] => some a
  | node _ r, .left :: sides => r.follow sides
  | node l _, .right :: sides => l.follow sides
  | _, _ => none

/-- The digest of a tree. -/
def digest (leafHash : α → D) (nodeHash : D → D → D) : HashTree α → D
  | leaf a => leafHash a
  | node l r => nodeHash (l.digest leafHash nodeHash) (r.digest leafHash nodeHash)

theorem follow_map (f : α → β) (t : HashTree α) (sides : List Side) :
    (t.map f).follow sides = (t.follow sides).map f := by
  induction t generalizing sides with
  | leaf a =>
    cases sides with
    | nil => rfl
    | cons side sides => rfl
  | node l r ihl ihr =>
    cases sides with
    | nil => rfl
    | cons side sides =>
      cases side with
      | left => exact ihr sides
      | right => exact ihl sides

/-- The labels, from left to right. -/
def leaves : HashTree α → List α
  | leaf a => [a]
  | node l r => l.leaves ++ r.leaves

theorem mem_leaves_of_follow {t : HashTree α} {sides : List Side} {a : α} (h : t.follow sides = some a) :
    a ∈ t.leaves := by
  induction t generalizing sides with
  | leaf b =>
    cases sides with
    | nil =>
      obtain rfl := Option.some.inj h
      exact List.mem_singleton_self _
    | cons side sides => cases h
  | node l r ihl ihr =>
    cases sides with
    | nil => cases h
    | cons side sides =>
      cases side with
      | left => exact List.mem_append_right _ (ihr h)
      | right => exact List.mem_append_left _ (ihl h)

/-- Where the labels are distinct, one path leads to each. -/
theorem follow_inj {t : HashTree α} (ht : t.leaves.Nodup) {sides sides' : List Side} {a : α}
    (h : t.follow sides = some a) (h' : t.follow sides' = some a) : sides = sides' := by
  induction t generalizing sides sides' with
  | leaf b =>
    cases sides with
    | cons side sides => cases h
    | nil =>
      cases sides' with
      | cons side' sides' => cases h'
      | nil => rfl
  | node l r ihl ihr =>
    obtain ⟨hl, hr, hapart⟩ := List.nodup_append.mp ht
    have hne : ∀ {s s'}, l.follow s = some a → r.follow s' = some a → False := fun hs hs' =>
      hapart a (mem_leaves_of_follow hs) a (mem_leaves_of_follow hs') rfl
    cases sides with
    | nil => cases h
    | cons side sides =>
      cases sides' with
      | nil => cases h'
      | cons side' sides' =>
        cases side with
        | left =>
          cases side' with
          | left => exact congrArg (Side.left :: ·) (ihr hr h h')
          | right => exact (hne h' h).elim
        | right =>
          cases side' with
          | left => exact (hne h h').elim
          | right => exact congrArg (Side.right :: ·) (ihl hl h h')

end HashTree

/-- The tree over a list of labels. -/
def build (labels : List α) : Option (HashTree α) :=
  (reduce HashTree.node labels.length (labels.map HashTree.leaf)).head?

theorem exists_build {labels : List α} (hne : labels ≠ []) : ∃ t, build labels = some t := by
  have hlength : (reduce HashTree.node labels.length (labels.map HashTree.leaf)).length = 1 :=
    length_reduce (by simpa using hne) (by rw [List.length_map]; omega)
  obtain ⟨t, ht⟩ := List.length_eq_one_iff.mp hlength
  exact ⟨t, by rw [build, ht]; rfl⟩

theorem leaves_combine : ∀ level : List (HashTree α),
    (combine HashTree.node level).flatMap HashTree.leaves = level.flatMap HashTree.leaves
  | [] => rfl
  | [_] => rfl
  | l :: r :: rest => by
    rw [combine, List.flatMap_cons, leaves_combine rest, HashTree.leaves, List.append_assoc, List.flatMap_cons,
      List.flatMap_cons]

theorem leaves_reduce (fuel : Nat) (level : List (HashTree α)) :
    (reduce HashTree.node fuel level).flatMap HashTree.leaves = level.flatMap HashTree.leaves := by
  induction fuel generalizing level with
  | zero => rfl
  | succ fuel ih =>
    unfold reduce
    split_ifs
    · rw [ih, leaves_combine]
    · rfl

/-- The one node that is left over. -/
theorem reduce_build {labels : List α} {t : HashTree α} (ht : build labels = some t) :
    reduce HashTree.node labels.length (labels.map HashTree.leaf) = [t] := by
  have hne : labels ≠ [] := by
    rintro rfl
    cases ht
  have hlength : (reduce HashTree.node labels.length (labels.map HashTree.leaf)).length = 1 :=
    length_reduce (by simpa using hne) (by rw [List.length_map]; omega)
  obtain ⟨t', ht'⟩ := List.length_eq_one_iff.mp hlength
  unfold build at ht
  rw [ht'] at ht ⊢
  exact congrArg (fun x => [x]) (Option.some.inj ht)

/-- A tree has the labels it was built over. -/
theorem leaves_build {labels : List α} {t : HashTree α} (ht : build labels = some t) : t.leaves = labels := by
  have hleaves := leaves_reduce labels.length (labels.map HashTree.leaf)
  rw [reduce_build ht, List.flatMap_singleton, List.flatMap_map] at hleaves
  rw [hleaves]
  exact List.flatMap_singleton' labels

theorem build_map (f : α → β) (labels : List α) : build (labels.map f) = (build labels).map (HashTree.map f) := by
  have hjoin : ∀ l r : HashTree α, (HashTree.node l r).map f = HashTree.node (l.map f) (r.map f) := fun _ _ => rfl
  unfold build
  rw [List.length_map, ← List.head?_map, map_reduce hjoin, List.map_map, List.map_map]
  rfl

/-- The digests of a level are those of its trees. -/
theorem reduce_digests (leafHash : α → D) (nodeHash : D → D → D) (labels : List α) :
    (reduce nodeHash labels.length (labels.map leafHash)).head? = (build labels).map
    (HashTree.digest leafHash nodeHash) := by
  have hjoin : ∀ l r : HashTree α, (HashTree.node l r).digest leafHash nodeHash =
      nodeHash (l.digest leafHash nodeHash) (r.digest leafHash nodeHash) := fun _ _ => rfl
  unfold build
  rw [← List.head?_map, map_reduce hjoin, List.map_map]
  rfl

/-- Which label of the list a path leads to, by its position. -/
def positionOf (count : Nat) (sides : List Side) : Option Nat := (build (List.range count)).bind (·.follow sides)

/-- A path leads to the same position whatever the labels are. -/
theorem follow_build {labels : List α} {t : HashTree α} (ht : build labels = some t) {sides : List Side} {a : α}
    (h : t.follow sides = some a) : ∃ p, positionOf labels.length sides = some p ∧ labels[p]? = some a := by
  have hlabels : labels.map some = (List.range labels.length).map fun i => labels[i]? := by
    refine List.ext_getElem? fun i => ?_
    rw [List.getElem?_map, List.getElem?_map]
    by_cases hi : i < labels.length
    · rw [List.getElem?_range hi, List.getElem?_eq_getElem hi]
      exact congrArg some (List.getElem?_eq_getElem hi).symm
    · rw [List.getElem?_eq_none (Nat.le_of_not_lt hi), List.getElem?_eq_none (by simpa using hi)]
      rfl
  have hbuild : (build (List.range labels.length)).map (HashTree.map fun i => labels[i]?) = some (t.map some) := by
    rw [← build_map, ← hlabels, build_map, ht]
    rfl
  obtain ⟨ti, hti, hmap⟩ := Option.map_eq_some_iff.mp hbuild
  have hfollow : (ti.follow sides).map (fun i => labels[i]?) = some (some a) := by
    rw [← HashTree.follow_map, hmap, HashTree.follow_map, h]
    rfl
  obtain ⟨p, hp, hlabel⟩ := Option.map_eq_some_iff.mp hfollow
  refine ⟨p, ?_, hlabel⟩
  rw [positionOf, hti]
  exact hp

/-! ## Paths -/

/-- One step of a path: the sibling, and the side it is on. -/
structure PathStep (D : Type) where
  side : Side
  hash : D
  deriving DecidableEq

section Paths

variable (nodeHash : D → D → D)

/-- The children that a step joins. -/
def PathStep.children (step : PathStep D) (current : D) : D × D :=
  match step.side with
  | .left => (step.hash, current)
  | .right => (current, step.hash)

def PathStep.map {D' : Type} (g : D → D') (step : PathStep D) : PathStep D' := ⟨step.side, g step.hash⟩

/-- Folds a path from its leaf to the apex. -/
def climb (current : D) (steps : List (PathStep D)) : D :=
  steps.foldl (fun current step => nodeHash (step.children current).1 (step.children current).2) current

/-- No collision among the leaves and nodes that are hashed. -/
structure Separate (leafHash : α → D) (nodeHash : D → D → D) (L : α → Prop) (N : D × D → Prop) : Prop where
  leaf_inj : ∀ {a b}, L a → L b → leafHash a = leafHash b → a = b
  node_inj : ∀ {x y}, N x → N y → nodeHash x.1 x.2 = nodeHash y.1 y.2 → x = y
  leaf_ne_node : ∀ {a x}, L a → N x → leafHash a ≠ nodeHash x.1 x.2

/-- What a tree hashes. -/
def HashTree.Uses (leafHash : α → D) (nodeHash : D → D → D) (L : α → Prop) (N : D × D → Prop) : HashTree α → Prop
  | leaf a => L a
  | node l r => N (l.digest leafHash nodeHash, r.digest leafHash nodeHash) ∧ l.Uses leafHash nodeHash L N ∧
      r.Uses leafHash nodeHash L N

/-- What a path hashes: the children it joins at each step. -/
def ClimbUses (N : D × D → Prop) (current : D) (steps : List (PathStep D)) : Prop :=
  ∀ front step rest, steps = front ++ step :: rest → N (step.children (climb nodeHash current front))

variable {nodeHash} {leafHash : α → D} {L : α → Prop} {N : D × D → Prop}

/-- The subtrees beside a way down, from the root on. -/
def HashTree.siblings : HashTree α → List Side → List (PathStep (HashTree α))
  | node l r, .left :: sides => ⟨.left, l⟩ :: r.siblings sides
  | node l r, .right :: sides => ⟨.right, r⟩ :: l.siblings sides
  | _, _ => []

/-- A path that folds to the digest of a tree leads from its root to the leaf it starts with, beside the digests of the
subtrees on the way. -/
theorem path_of_climb (hsep : Separate leafHash nodeHash L N) {t : HashTree α}
    (ht : t.Uses leafHash nodeHash L N) {a : α}
    (ha : L a) {steps : List (PathStep D)} (hsteps : ClimbUses nodeHash N (leafHash a) steps)
    (hclimb : climb nodeHash (leafHash a) steps = t.digest leafHash nodeHash) :
    t.follow (steps.map (·.side)).reverse = some a ∧
      steps.reverse = (t.siblings (steps.map (·.side)).reverse).map (.map (HashTree.digest leafHash nodeHash)) := by
  -- the last step is the one at the root
  induction steps using List.reverseRecOn generalizing t with
  | nil =>
    cases t with
    | leaf b =>
      obtain rfl := hsep.leaf_inj ha ht hclimb
      exact ⟨rfl, rfl⟩
    | node l r => exact absurd hclimb (hsep.leaf_ne_node ha ht.1)
  | append_singleton steps step ih =>
    have hlast : N (step.children (climb nodeHash (leafHash a) steps)) := hsteps steps step [] rfl
    have hfront : ClimbUses nodeHash N (leafHash a) steps := by
      intro front s rest hsplit
      exact hsteps front s (rest ++ [step]) (by rw [hsplit, List.append_assoc]; rfl)
    have hjoin : climb nodeHash (leafHash a) (steps ++ [step]) =
        nodeHash (step.children (climb nodeHash (leafHash a) steps)).1
          (step.children (climb nodeHash (leafHash a) steps)).2 := by
      unfold climb
      rw [List.foldl_append]
      rfl
    rw [hjoin] at hclimb
    rw [List.map_append, List.map_singleton, List.reverse_append, List.reverse_singleton, List.singleton_append,
      List.reverse_append, List.reverse_singleton, List.singleton_append]
    cases t with
    | leaf b => exact absurd hclimb.symm (hsep.leaf_ne_node ht hlast)
    | node l r =>
      obtain ⟨hroot, hl, hr⟩ := ht
      have hchildren := hsep.node_inj hlast hroot hclimb
      obtain ⟨side, hash⟩ := step
      cases side with
      | left =>
        obtain ⟨rfl, hcurrent⟩ := Prod.mk.inj hchildren
        obtain ⟨hfollow, hbeside⟩ := ih hr hfront hcurrent
        exact ⟨hfollow, congrArg (List.cons _) hbeside⟩
      | right =>
        obtain ⟨hcurrent, rfl⟩ := Prod.mk.inj hchildren
        obtain ⟨hfollow, hbeside⟩ := ih hl hfront hcurrent
        exact ⟨hfollow, congrArg (List.cons _) hbeside⟩

/-- The digest of a tree tells it from others. -/
theorem digest_inj (hsep : Separate leafHash nodeHash L N) {t t' : HashTree α} (ht : t.Uses leafHash nodeHash L N)
    (ht' : t'.Uses leafHash nodeHash L N) (h : t.digest leafHash nodeHash = t'.digest leafHash nodeHash) : t = t' := by
  induction t generalizing t' with
  | leaf a =>
    cases t' with
    | leaf b => exact congrArg _ (hsep.leaf_inj ht ht' h)
    | node l r => exact absurd h (hsep.leaf_ne_node ht ht'.1)
  | node l r ihl ihr =>
    cases t' with
    | leaf b => exact absurd h.symm (hsep.leaf_ne_node ht' ht.1)
    | node l' r' =>
      obtain ⟨hl, hr⟩ := Prod.mk.inj (hsep.node_inj ht.1 ht'.1 h)
      rw [ihl ht.2.1 ht'.2.1 hl, ihr ht.2.2 ht'.2.2 hr]

end Paths

/-! ## The path of a position -/

section PathTo

/-- The sibling of a position, unless it is the odd node that rises. -/
def siblingOf (level : List D) (position : Nat) : Option (PathStep D) :=
  if position % 2 = 0 then level[position + 1]?.map (⟨.right, ·⟩) else level[position - 1]?.map (⟨.left, ·⟩)

/-- The siblings met while level after level is reduced. -/
def pathTo (join : D → D → D) : Nat → List D → Nat → List (PathStep D)
  | 0, _, _ => []
  | fuel + 1, level, position =>
    if 1 < level.length then (siblingOf level position).toList ++
      pathTo join fuel (combine join level) (position / 2) else []

variable {join : D → D → D}

/-- The parent of a position is the node with its sibling, or the node itself. -/
theorem combine_half {level : List D} {position : Nat} {a : D} (ha : level[position]? = some a) :
    (combine join level)[position / 2]? = some (climb join a (siblingOf level position).toList) := by
  induction level using combine.induct generalizing position with
  | case1 x y rest ih =>
    match position with
    | 0 | 1 =>
      obtain rfl := Option.some.inj ha
      rfl
    | n + 2 =>
      have hsibling : siblingOf (x :: y :: rest) (n + 2) = siblingOf rest n := by
        unfold siblingOf
        rw [Nat.add_mod_right]
        split_ifs with hn
        · rfl
        · obtain ⟨m, rfl⟩ : ∃ m, n = m + 1 := ⟨n - 1, by omega⟩
          rfl
      rw [hsibling, combine, Nat.add_div_right n (by omega), List.getElem?_cons_succ]
      exact ih ha
  | case2 rest hrest =>
    have hshort : rest.length ≤ 1 := by
      match rest, hrest with
      | [], _ => simp
      | [_], _ => simp
      | x :: y :: rest, hrest => exact (hrest x y rest rfl).elim
    have hzero : position = 0 := by
      obtain ⟨hlt, -⟩ := List.getElem?_eq_some_iff.mp ha
      omega
    subst hzero
    have hnone : rest[1]? = none := List.getElem?_eq_none hshort
    rw [combine.eq_def]
    split
    · simp at hshort
    · rw [siblingOf, if_pos rfl, hnone]
      exact ha

theorem climb_append (a : D) (steps steps' : List (PathStep D)) :
    climb join a (steps ++ steps') = climb join (climb join a steps) steps' := List.foldl_append

theorem eq_singleton {level : List D} {position : Nat} {a : D} (hone : level.length = 1)
    (ha : level[position]? = some a) : level = [a] := by
  obtain ⟨b, rfl⟩ := List.length_eq_one_iff.mp hone
  obtain ⟨hlt, hb⟩ := List.getElem?_eq_some_iff.mp ha
  obtain rfl : position = 0 := by simpa using hlt
  exact congrArg (fun x => [x]) hb

/-- The path of a position folds to the node that is left over. -/
theorem climb_pathTo {fuel : Nat} {level : List D} {position : Nat} {a : D} (ha : level[position]? = some a)
    (hone : (reduce join fuel level).length = 1) :
    reduce join fuel level = [climb join a (pathTo join fuel level position)] := by
  induction fuel generalizing level position a with
  | zero => exact eq_singleton hone ha
  | succ fuel ih =>
    rw [reduce] at hone ⊢
    rw [pathTo]
    split_ifs at hone ⊢ with hmore
    · rw [climb_append]
      exact ih (combine_half ha) hone
    · exact eq_singleton hone ha

theorem pathTo_map {D' : Type} {join' : D' → D' → D'} {g : D → D'}
    (hg : ∀ a b, g (join a b) = join' (g a) (g b)) (fuel : Nat) (level : List D) (position : Nat) :
    (pathTo join fuel level position).map (.map g) = pathTo join' fuel (level.map g) position := by
  have hsibling : ∀ (level : List D) (position : Nat),
      (siblingOf level position).toList.map (.map g) = (siblingOf (level.map g) position).toList := by
    intro level position
    unfold siblingOf
    split_ifs
    · rw [List.getElem?_map]
      cases level[position + 1]? <;> rfl
    · rw [List.getElem?_map]
      cases level[position - 1]? <;> rfl
  induction fuel generalizing level position with
  | zero => rfl
  | succ fuel ih =>
    rw [pathTo, pathTo, List.length_map]
    split_ifs
    · rw [List.map_append, hsibling, ih, map_combine hg]
    · rfl

/-- The sides of a path depend on the number of nodes alone. -/
theorem sides_pathTo {D' : Type} {join' : D' → D' → D'} (fuel : Nat) {level : List D} {level' : List D'}
    (hlength : level.length = level'.length) (position : Nat) :
    (pathTo join fuel level position).map (·.side) = (pathTo join' fuel level' position).map (·.side) := by
  have hunit : ∀ {E : Type} (j : E → E → E) (l : List E), (pathTo j fuel l position).map (·.side) =
      (pathTo (fun _ _ => ()) fuel (List.replicate l.length ()) position).map (·.side) := by
    intro E j l
    rw [← List.map_const, ← pathTo_map fun _ _ => rfl, List.map_map]
    rfl
  rw [hunit join level, hunit join' level', hlength]

namespace HashTree

theorem digest_self (t : HashTree α) : t.digest leaf node = t := by
  induction t with
  | leaf a => rfl
  | node l r ihl ihr => rw [digest, ihl, ihr]

theorem uses_true (t : HashTree α) : t.Uses leaf node (fun _ => True) fun _ => True := by
  induction t with
  | leaf a => trivial
  | node l r ihl ihr => exact ⟨trivial, ihl, ihr⟩

/-- Trees are digests without collisions. -/
theorem separate : Separate (leaf : α → HashTree α) node (fun _ => True) fun _ => True where
  leaf_inj _ _ h := HashTree.leaf.inj h
  node_inj _ _ h := Prod.ext_iff.mpr (HashTree.node.inj h)
  leaf_ne_node _ _ := nofun

end HashTree

section Build

variable {labels : List α} {t : HashTree α} (ht : build labels = some t) {q : Nat} {a : α} (hq : labels[q]? = some a)

include ht hq

/-- The path of a position over the subtrees themselves. -/
theorem climb_build : climb HashTree.node (.leaf a) (pathTo HashTree.node labels.length (labels.map .leaf) q) = t := by
  have hlevel : (labels.map HashTree.leaf)[q]? = some (HashTree.leaf a) := by rw [List.getElem?_map, hq]; rfl
  have hreduce := climb_pathTo hlevel (by rw [reduce_build ht]; rfl)
  rw [reduce_build ht] at hreduce
  exact (List.singleton_inj.mp hreduce).symm

theorem follow_pathTo :
    t.follow ((pathTo HashTree.node labels.length (labels.map .leaf) q).map (·.side)).reverse = some a ∧
    (pathTo HashTree.node labels.length (labels.map .leaf) q).reverse =
      t.siblings ((pathTo HashTree.node labels.length (labels.map .leaf) q).map (·.side)).reverse := by
  obtain ⟨hfollow, hbeside⟩ := path_of_climb HashTree.separate t.uses_true trivial (fun _ _ _ _ => trivial)
    ((climb_build ht hq).trans t.digest_self.symm)
  have hid : (PathStep.map (HashTree.digest HashTree.leaf HashTree.node) : PathStep (HashTree α) → _) = id :=
    funext fun step => congrArg (PathStep.mk step.side) step.hash.digest_self
  rw [hid, List.map_id] at hbeside
  exact ⟨hfollow, hbeside⟩

end Build

theorem pathTo_digests (leafHash : α → D) (nodeHash : D → D → D) (labels : List α) (q : Nat) :
    pathTo nodeHash labels.length (labels.map leafHash) q =
      (pathTo HashTree.node labels.length (labels.map .leaf) q).map (.map (HashTree.digest leafHash nodeHash)) := by
  have hlevel : labels.map leafHash = (labels.map HashTree.leaf).map (HashTree.digest leafHash nodeHash) := by
    rw [List.map_map]
    rfl
  rw [hlevel]
  exact (pathTo_map (fun _ _ => rfl) _ _ _).symm

/-- The sides of the path of a position lead to it. -/
theorem positionOf_pathTo {level : List D} {q : Nat} (hq : q < level.length) :
    positionOf level.length ((pathTo join level.length level q).map (·.side)).reverse = some q := by
  obtain ⟨t, ht⟩ : ∃ t, build (List.range level.length) = some t := exists_build (by rw [Ne, List.range_eq_nil]; omega)
  have hlength : level.length = ((List.range level.length).map HashTree.leaf).length := by simp
  have hfollow := (follow_pathTo ht (List.getElem?_range hq)).1
  rw [List.length_range] at hfollow
  rw [positionOf, ht, sides_pathTo _ hlength]
  exact hfollow

/-- Only one list of sides leads to a position. -/
theorem positionOf_inj {n p : Nat} {sides sides' : List Side} (h : positionOf n sides = some p)
    (h' : positionOf n sides' = some p) : sides = sides' := by
  obtain ⟨t, ht, hfollow⟩ := Option.bind_eq_some_iff.mp h
  obtain ⟨t', ht', hfollow'⟩ := Option.bind_eq_some_iff.mp h'
  obtain rfl := Option.some.inj (ht.symm.trans ht')
  exact HashTree.follow_inj (leaves_build ht ▸ List.nodup_range) hfollow hfollow'

end PathTo

end RecordStore.Lib.Merkle
