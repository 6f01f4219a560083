import RecordStore.Lib.Merkle
import RecordStore.Audit.Log

/-!
# Audit.Merkle — the tree a checkpoint commits over

Leaves, interior nodes and the root are hashed with different prefixes, an odd node rises unchanged, and a path is
folded only if it has the length its index takes in a tree of the given size.
-/

namespace RecordStore.Audit

open RecordStore.Lib Merkle

/-- Domain separator for every hash in the tree. -/
def merkleDomain : Bytes := asBytes "record-store/audit-merkle/v1"

def leafPreimage (recordHash : Digest32) : Bytes := merkleDomain ++ 0 :: recordHash.bytes
def nodePreimage (left right : Digest32) : Bytes := merkleDomain ++ 1 :: (left.bytes ++ right.bytes)
def rootPreimage (apex : Digest32) : Bytes := merkleDomain ++ 2 :: apex.bytes

/-- A record's path from its leaf up to a checkpoint root, innermost first. -/
structure InclusionPath where
  index : UInt64
  steps : List (PathStep Digest32)
  deriving DecidableEq

/-- The loop of `path_length`: a level costs a step unless the position is the odd node that rises. -/
def pathSteps : Nat → Nat → Nat → Nat
  | 0, _, _ => 0
  | fuel + 1, remaining, position =>
    if 1 < remaining then
      (if position = remaining - 1 ∧ remaining % 2 = 1 then 0 else 1) + pathSteps fuel ((remaining + 1) / 2)
      (position / 2)
    else 0

/-- How many steps the path for `index` must have in a tree of `leafCount` leaves; sixty-four levels are enough for
every count. -/
def pathLength (leafCount index : UInt64) : Option Nat :=
  if leafCount ≤ index then none else some (pathSteps 64 leafCount.toNat index.toNat)

section Hashes

variable (sha256 : Bytes → Digest32)

def leafHash (recordHash : Digest32) : Digest32 := sha256 (leafPreimage recordHash)
def nodeHash (left right : Digest32) : Digest32 := sha256 (nodePreimage left right)
def rootHash (apex : Digest32) : Digest32 := sha256 (rootPreimage apex)

/-- The root committing to every record hash, in order; none for an empty range. -/
def root (recordHashes : List Digest32) : Option Digest32 :=
  ((reduce (nodeHash sha256) recordHashes.length (recordHashes.map (leafHash sha256))).head?).map (rootHash sha256)

/-- Folds a path from its leaf to the apex, without judging its shape. -/
def foldToApex (recordHash : Digest32) (path : InclusionPath) : Digest32 :=
  climb (nodeHash sha256) (leafHash sha256 recordHash) path.steps

/-- Recomputes a root from one record hash and its path, in a tree of `leafCount` leaves. -/
def rootFromPath (recordHash : Digest32) (path : InclusionPath) (leafCount : UInt64) : Option Digest32 :=
  match pathLength leafCount path.index with
  | none => none
  | some length => if length ≠ path.steps.length then none
    else some (rootHash sha256 (foldToApex sha256 recordHash path))

/-! ## What is hashed -/

/-- What the tree over the record hashes hashes, below its root. -/
def treePreimages : HashTree Digest32 → List Bytes
  | .leaf recordHash => [leafPreimage recordHash]
  | .node l r =>
    nodePreimage (l.digest (leafHash sha256) (nodeHash sha256)) (r.digest (leafHash sha256) (nodeHash sha256)) ::
      (treePreimages l ++ treePreimages r)

/-- What the computation of a root hashes. -/
def rootPreimages (recordHashes : List Digest32) : List Bytes :=
  match build recordHashes with
  | none => []
  | some t => rootPreimage (t.digest (leafHash sha256) (nodeHash sha256)) :: treePreimages sha256 t

/-- The steps of a path, as they are hashed. -/
def climbPreimages (current : Digest32) : List (PathStep Digest32) → List Bytes
  | [] => []
  | step :: steps =>
    let children := step.children current
    nodePreimage children.1 children.2 :: climbPreimages (nodeHash sha256 children.1 children.2) steps

/-- What the check of a path hashes. -/
def pathPreimages (recordHash : Digest32) (path : InclusionPath) : List Bytes :=
  rootPreimage (foldToApex sha256 recordHash path) :: leafPreimage recordHash ::
    climbPreimages sha256 (leafHash sha256 recordHash) path.steps

/-- No two of the values have the same hash. -/
def CollisionFree (values : List Bytes) : Prop := ∀ x ∈ values, ∀ y ∈ values, sha256 x = sha256 y → x = y

end Hashes

/-! ## The prefixes keep the three kinds apart -/

section Preimages

theorem leafPreimage_inj {a b : Digest32} (h : leafPreimage a = leafPreimage b) : a = b :=
  Digest32.ext (List.cons.inj (List.append_cancel_left h)).2

theorem rootPreimage_inj {a b : Digest32} (h : rootPreimage a = rootPreimage b) : a = b :=
  Digest32.ext (List.cons.inj (List.append_cancel_left h)).2

theorem nodePreimage_inj {a b c d : Digest32} (h : nodePreimage a b = nodePreimage c d) : a = c ∧ b = d := by
  have hbytes := (List.cons.inj (List.append_cancel_left h)).2
  obtain ⟨h1, h2⟩ := List.append_inj hbytes (a.length_bytes.trans c.length_bytes.symm)
  exact ⟨Digest32.ext h1, Digest32.ext h2⟩

theorem leafPreimage_ne_nodePreimage (a b c : Digest32) : leafPreimage a ≠ nodePreimage b c := by
  intro h
  have hhead := (List.cons.inj (List.append_cancel_left h)).1
  exact absurd hhead (by decide)

end Preimages

section Inclusion

variable {sha256 : Bytes → Digest32} {values : List Bytes}

theorem CollisionFree.separate (h : CollisionFree sha256 values) :
    Separate (leafHash sha256) (nodeHash sha256) (fun r => leafPreimage r ∈ values)
      fun children => nodePreimage children.1 children.2 ∈ values where
  leaf_inj ha hb heq := leafPreimage_inj (h _ ha _ hb heq)
  node_inj hx hy heq := Prod.ext_iff.mpr (nodePreimage_inj (h _ hx _ hy heq))
  leaf_ne_node ha hx heq := leafPreimage_ne_nodePreimage _ _ _ (h _ ha _ hx heq)

theorem uses_of_treePreimages {t : HashTree Digest32} (h : ∀ x ∈ treePreimages sha256 t, x ∈ values) :
    t.Uses (leafHash sha256) (nodeHash sha256) (fun r => leafPreimage r ∈ values)
      fun children => nodePreimage children.1 children.2 ∈ values := by
  induction t with
  | leaf r => exact h _ (List.mem_singleton_self _)
  | node l r ihl ihr =>
    refine ⟨h _ List.mem_cons_self, ihl fun x hx => ?_, ihr fun x hx => ?_⟩
    · exact h x (List.mem_cons_of_mem _ (List.mem_append_left _ hx))
    · exact h x (List.mem_cons_of_mem _ (List.mem_append_right _ hx))

theorem uses_of_climbPreimages {current : Digest32} {steps : List (PathStep Digest32)}
    (h : ∀ x ∈ climbPreimages sha256 current steps, x ∈ values) :
    ClimbUses (nodeHash sha256) (fun children => nodePreimage children.1 children.2 ∈ values) current steps := by
  induction steps generalizing current with
  | nil =>
    intro front step rest hsplit
    cases front <;> cases hsplit
  | cons first steps ih =>
    intro front step rest hsplit
    cases front with
    | nil =>
      obtain ⟨rfl, rfl⟩ := List.cons.inj hsplit
      exact h _ List.mem_cons_self
    | cons first' front =>
      obtain ⟨rfl, hrest⟩ := List.cons.inj hsplit
      exact ih (fun x hx => h x (List.mem_cons_of_mem _ hx)) front step rest hrest

/-- A path that folds to the root of a range leads to its record hash in the tree, beside the subtrees on the way. -/
theorem path_of_root {recordHashes : List Digest32} {recordHash digest : Digest32} {path : InclusionPath}
    (hroot : root sha256 recordHashes = some digest)
    (hfold : rootHash sha256 (foldToApex sha256 recordHash path) = digest)
    (hfree : CollisionFree sha256 (rootPreimages sha256 recordHashes ++ pathPreimages sha256 recordHash path)) :
    ∃ t, build recordHashes = some t ∧ t.follow (path.steps.map (·.side)).reverse = some recordHash ∧
      path.steps.reverse = (t.siblings (path.steps.map (·.side)).reverse).map
        (.map (HashTree.digest (leafHash sha256) (nodeHash sha256))) := by
  unfold root at hroot
  rw [reduce_digests, Option.map_map] at hroot
  obtain ⟨t, ht, happex⟩ := Option.map_eq_some_iff.mp hroot
  have hvalues : rootPreimages sha256 recordHashes =
      rootPreimage (t.digest (leafHash sha256) (nodeHash sha256)) :: treePreimages sha256 t := by
    unfold rootPreimages
    rw [ht]
  rw [hvalues] at hfree
  set values := rootPreimage (t.digest (leafHash sha256) (nodeHash sha256)) :: treePreimages sha256 t ++
    pathPreimages sha256 recordHash path with hdef
  have hpathIn : ∀ x ∈ pathPreimages sha256 recordHash path, x ∈ values := fun x hx => List.mem_append_right _ hx
  -- the roots agree, so the apexes do
  have hapex : climb (nodeHash sha256) (leafHash sha256 recordHash) path.steps =
      t.digest (leafHash sha256) (nodeHash sha256) := by
    refine rootPreimage_inj (hfree _ (hpathIn _ List.mem_cons_self) _ ?_ (hfold.trans happex.symm))
    exact List.mem_append_left _ List.mem_cons_self
  refine ⟨t, ht, path_of_climb hfree.separate ?_ ?_ ?_ hapex⟩
  · exact uses_of_treePreimages fun x hx => List.mem_append_left _ (List.mem_cons_of_mem _ hx)
  · exact hpathIn _ (List.mem_cons_of_mem _ List.mem_cons_self)
  · exact uses_of_climbPreimages fun x hx => hpathIn x (List.mem_cons_of_mem _ (List.mem_cons_of_mem _ hx))

/-- A path to the root is accepted if its length is the one its index takes. -/
theorem rootFromPath_eq_some {recordHash digest : Digest32} {path : InclusionPath} {leafCount : UInt64} :
    rootFromPath sha256 recordHash path leafCount = some digest ↔
      pathLength leafCount path.index = some path.steps.length ∧
        rootHash sha256 (foldToApex sha256 recordHash path) = digest := by
  unfold rootFromPath
  cases hlength : pathLength leafCount path.index with
  | none => simp
  | some length =>
    by_cases heq : length = path.steps.length
    · simp [heq]
    · simp [heq]

/-- A path that leads to the root of a range, of whatever length, has a record hash of the range at its end: the one at
the position its sides lead to. -/
theorem position_of_rootFromPath {recordHashes : List Digest32} {recordHash digest : Digest32} {path : InclusionPath}
    {leafCount : UInt64} (hroot : root sha256 recordHashes = some digest)
    (hpath : rootFromPath sha256 recordHash path leafCount = some digest)
    (hfree : CollisionFree sha256 (rootPreimages sha256 recordHashes ++ pathPreimages sha256 recordHash path)) :
    ∃ p, positionOf recordHashes.length (path.steps.map (·.side)).reverse = some p ∧
      recordHashes[p]? = some recordHash := by
  obtain ⟨t, ht, hfollow, -⟩ := path_of_root hroot (rootFromPath_eq_some.mp hpath).2 hfree
  exact follow_build ht hfollow

end Inclusion

namespace Sample

/-- A digest that starts with the given bytes. -/
def startingWith (start : Bytes) : Digest32 := ⟨(start ++ List.replicate 32 0).take 32, by simp⟩

/-- A hash that keeps what kind of value it hashes, and the byte after. -/
def kindHash (value : Bytes) : Digest32 := startingWith ((value.drop 28).take 2)

end Sample

end RecordStore.Audit
