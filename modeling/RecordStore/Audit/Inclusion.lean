import RecordStore.Audit.Merkle

/-!
# Audit.Inclusion — what an inclusion proof is accepted for

The verifier takes the length of a path from its index and the way up from its sides, and never compares the two.  So a
path is accepted if its steps are those of a record with the given hash, at whatever position, and its index is one
that takes as many steps (`verifyInclusion_iff_steps`).  It binds the record, and the list, but not the index.
-/

namespace RecordStore.Audit

open RecordStore.Lib Merkle

section Definitions

variable (sha256 : Bytes → Digest32)

/-- The siblings on the way from the record at `index` to the apex, innermost first. -/
def stepsTo (recordHashes : List Digest32) (index : Nat) : List (PathStep Digest32) :=
  pathTo (nodeHash sha256) recordHashes.length (recordHashes.map (leafHash sha256)) index

/-- The path proving that the record at `index` is under the root. -/
def inclusionPath (recordHashes : List Digest32) (index : Nat) : Option InclusionPath :=
  if recordHashes.length ≤ index then none else some ⟨UInt64.ofNat index, stepsTo sha256 recordHashes index⟩

/-- Whether a record hash is proved to sit under `expectedRoot` in a tree of `leafCount` leaves. -/
def verifyInclusion (recordHash : Digest32) (path : InclusionPath) (expectedRoot : Digest32)
    (leafCount : UInt64) : Bool :=
  (rootFromPath sha256 recordHash path leafCount).any (· == expectedRoot)

end Definitions

/-! ## The length of a path -/

theorem pathSteps_fuel {fuel fuel' remaining position : Nat} (h : remaining ≤ 2 ^ fuel) (h' : remaining ≤ 2 ^ fuel') :
    pathSteps fuel remaining position = pathSteps fuel' remaining position := by
  induction fuel generalizing fuel' remaining position with
  | zero =>
    have hone : ¬ 1 < remaining := by simpa using h
    cases fuel' with
    | zero => rfl
    | succ fuel' => rw [pathSteps, pathSteps, if_neg hone]
  | succ fuel ih =>
    cases fuel' with
    | zero =>
      have hone : ¬ 1 < remaining := by simpa using h'
      rw [pathSteps, pathSteps, if_neg hone]
    | succ fuel' =>
      have hnext : pathSteps fuel ((remaining + 1) / 2) (position / 2) =
        pathSteps fuel' ((remaining + 1) / 2) (position / 2) :=
        ih (by omega) (by omega)
      rw [pathSteps, pathSteps, hnext]

theorem length_siblingOf {D : Type} {level : List D} {position : Nat} (h : position < level.length) :
    (siblingOf level position).toList.length = if position = level.length - 1 ∧ level.length % 2 = 1 then 0 else 1 := by
  unfold siblingOf
  by_cases heven : position % 2 = 0
  · rw [if_pos heven]
    by_cases hlast : position + 1 < level.length
    · rw [List.getElem?_eq_getElem hlast, if_neg (by omega)]
      rfl
    · rw [List.getElem?_eq_none (by omega), if_pos (by omega)]
      rfl
  · rw [if_neg heven, List.getElem?_eq_getElem (by omega), if_neg (by omega)]
    rfl

theorem length_pathTo {D : Type} {join : D → D → D} (fuel : Nat) {level : List D} {position : Nat}
    (h : position < level.length) :
    (pathTo join fuel level position).length = pathSteps fuel level.length position := by
  induction fuel generalizing level position with
  | zero => rfl
  | succ fuel ih =>
    have hlength := length_combine join level
    rw [pathTo, pathSteps]
    by_cases hmore : 1 < level.length
    · rw [if_pos hmore, if_pos hmore, List.length_append, length_siblingOf h, ih (by omega), hlength]
    · rw [if_neg hmore, if_neg hmore]
      rfl

section Inclusion

variable {sha256 : Bytes → Digest32} {recordHashes : List Digest32}

/-- A path has the length that its index takes. -/
theorem pathLength_stepsTo (sha256 : Bytes → Digest32) (hn : recordHashes.length < 2 ^ 64) {q : Nat}
    (hq : q < recordHashes.length) :
    pathLength (UInt64.ofNat recordHashes.length) (UInt64.ofNat q) = some (stepsTo sha256 recordHashes q).length := by
  have hcount : (UInt64.ofNat recordHashes.length).toNat = recordHashes.length := UInt64.toNat_ofNat_of_lt' hn
  have hindex : (UInt64.ofNat q).toNat = q := UInt64.toNat_ofNat_of_lt' (hq.trans hn)
  have hle : ¬ UInt64.ofNat recordHashes.length ≤ UInt64.ofNat q := by
    rw [UInt64.le_iff_toNat_le, hcount, hindex]
    omega
  unfold pathLength stepsTo
  rw [if_neg hle, hcount, hindex, length_pathTo _ (by simpa using hq), List.length_map,
    pathSteps_fuel (le_of_lt hn) Nat.lt_two_pow_self.le]

/-- The path of a record folds to the root. -/
theorem root_of_stepsTo {q : Nat} {recordHash : Digest32} (hq : recordHashes[q]? = some recordHash) :
    root sha256 recordHashes =
      some (rootHash sha256 (climb (nodeHash sha256) (leafHash sha256 recordHash)
        (stepsTo sha256 recordHashes q))) := by
  have hne : recordHashes ≠ [] := by
    rintro rfl
    cases hq
  have hone : (reduce (nodeHash sha256) recordHashes.length (recordHashes.map (leafHash sha256))).length = 1 :=
    length_reduce (by simpa using hne) (by rw [List.length_map]; omega)
  have hleaf : (recordHashes.map (leafHash sha256))[q]? = some (leafHash sha256 recordHash) := by
    rw [List.getElem?_map, hq]; rfl
  unfold root
  rw [climb_pathTo hleaf hone]
  rfl

/-- The sides of a path over the records lead to its position. -/
theorem positionOf_records {D : Type} {join : D → D → D} (leaf : Digest32 → D) {q : Nat}
    (hq : q < recordHashes.length) :
    positionOf recordHashes.length ((pathTo join recordHashes.length (recordHashes.map leaf) q).map (·.side)).reverse =
      some q := by
  have hlt : q < (recordHashes.map leaf).length := by rwa [List.length_map]
  have hposition : positionOf (recordHashes.map leaf).length
      ((pathTo join (recordHashes.map leaf).length (recordHashes.map leaf) q).map (·.side)).reverse = some q :=
    positionOf_pathTo hlt
  rwa [List.length_map] at hposition

/-- The steps of two positions differ. -/
theorem stepsTo_inj {q q' : Nat} (hq : q < recordHashes.length) (hq' : q' < recordHashes.length)
    (h : stepsTo sha256 recordHashes q = stepsTo sha256 recordHashes q') : q = q' := by
  have hside : positionOf recordHashes.length ((stepsTo sha256 recordHashes q).map (·.side)).reverse = some q :=
    positionOf_records _ hq
  rw [h] at hside
  exact Option.some.inj (hside.symm.trans (positionOf_records _ hq'))

/-- A path is accepted for the steps of some record with the given hash, under an index that takes as many steps. -/
theorem verifyInclusion_iff_steps {expected : Digest32} (hroot : root sha256 recordHashes = some expected)
    {recordHash : Digest32} {path : InclusionPath} {leafCount : UInt64}
    (hfree : CollisionFree sha256 (rootPreimages sha256 recordHashes ++ pathPreimages sha256 recordHash path)) :
    verifyInclusion sha256 recordHash path expected leafCount = true ↔
      (∃ q, recordHashes[q]? = some recordHash ∧ path.steps = stepsTo sha256 recordHashes q) ∧
        pathLength leafCount path.index = some path.steps.length := by
  have hopen : verifyInclusion sha256 recordHash path expected leafCount = true ↔
      rootHash sha256 (foldToApex sha256 recordHash path) = expected ∧
        pathLength leafCount path.index = some path.steps.length := by
    rw [and_comm, ← rootFromPath_eq_some]
    unfold verifyInclusion
    cases rootFromPath sha256 recordHash path leafCount <;> simp
  rw [hopen, and_congr_left_iff]
  intro _
  constructor
  · intro hsame
    obtain ⟨t, ht, hfollow, hbeside⟩ := path_of_root hroot hsame hfree
    obtain ⟨q, hposition, hq⟩ := follow_build ht hfollow
    refine ⟨q, hq, ?_⟩
    -- the sides lead to `q`, so they are those of its path, and the tree has the hashes
    have hsides : (path.steps.map (·.side)).reverse =
        ((pathTo HashTree.node recordHashes.length (recordHashes.map .leaf) q).map (·.side)).reverse :=
      positionOf_inj hposition (positionOf_records _ (List.getElem?_eq_some_iff.mp hq).1)
    rw [hsides, ← (follow_pathTo ht hq).2, List.map_reverse] at hbeside
    exact (List.reverse_injective hbeside).trans (pathTo_digests _ _ _ _).symm
  · rintro ⟨q, hq, hsteps⟩
    unfold foldToApex
    rw [hsteps]
    exact Option.some.inj ((root_of_stepsTo hq).symm.trans hroot)

end Inclusion

/-! ## What a root and a path bind -/

/-- Where no two of the values hashed collide: a root determines the list of record hashes; and if a path is accepted
under a root, with whatever leaf count, its record hash is in the list. -/
theorem root_commits (sha256 : Bytes → Digest32) (recordHashes : List Digest32) (hne : recordHashes ≠ []) :
    (∀ recordHashes', recordHashes' ≠ [] →
      CollisionFree sha256 (rootPreimages sha256 recordHashes ++ rootPreimages sha256 recordHashes') →
      root sha256 recordHashes = root sha256 recordHashes' → recordHashes = recordHashes') ∧
    ∀ expected recordHash path leafCount, root sha256 recordHashes = some expected →
      CollisionFree sha256 (rootPreimages sha256 recordHashes ++ pathPreimages sha256 recordHash path) →
      verifyInclusion sha256 recordHash path expected leafCount = true → recordHash ∈ recordHashes := by
  constructor
  · intro recordHashes' hne' hfree hroot
    obtain ⟨t, ht⟩ := exists_build hne
    obtain ⟨t', ht'⟩ := exists_build hne'
    unfold root at hroot
    rw [reduce_digests, reduce_digests, ht, ht'] at hroot
    unfold rootPreimages at hfree
    rw [ht, ht'] at hfree
    have hdigest := rootPreimage_inj (hfree _ (List.mem_append_left _ List.mem_cons_self) _
      (List.mem_append_right _ List.mem_cons_self) (Option.some.inj hroot))
    have htree : t = t' := by
      refine digest_inj hfree.separate (uses_of_treePreimages fun x hx => ?_)
        (uses_of_treePreimages fun x hx => ?_) hdigest
      · exact List.mem_append_left _ (List.mem_cons_of_mem _ hx)
      · exact List.mem_append_right _ (List.mem_cons_of_mem _ hx)
    rw [← leaves_build ht, ← leaves_build ht', htree]
  · intro expected recordHash path leafCount hroot hfree hverify
    obtain ⟨⟨q, hq, -⟩, -⟩ := (verifyInclusion_iff_steps hroot hfree).mp hverify
    exact List.mem_of_getElem? hq

/-- The index, the record hash and the steps are those of one position of the list. -/
def Genuine (sha256 : Bytes → Digest32) (recordHashes : List Digest32) (recordHash : Digest32)
    (path : InclusionPath) : Prop :=
  path.index.toNat < recordHashes.length ∧ recordHashes[path.index.toNat]? = some recordHash ∧
    some path = inclusionPath sha256 recordHashes path.index.toNat

/-- The steps are those of another position than the index, which holds the record hash and takes as many steps. -/
def Displaced (sha256 : Bytes → Digest32) (recordHashes : List Digest32) (recordHash : Digest32)
    (path : InclusionPath) : Prop :=
  ∃ q, q ≠ path.index.toNat ∧ recordHashes[q]? = some recordHash ∧ path.steps = stepsTo sha256 recordHashes q ∧
    pathLength (UInt64.ofNat recordHashes.length) path.index =
      pathLength (UInt64.ofNat recordHashes.length) (UInt64.ofNat q)

/-- A path is accepted exactly if it is the path of the record hash at its index, unless it is the path of the record
hash at another position that takes as many steps. -/
theorem verifyInclusion_iff_genuine (sha256 : Bytes → Digest32) (recordHashes : List Digest32)
    (hn : recordHashes.length < 2 ^ 64) (expected : Digest32) (hroot : root sha256 recordHashes = some expected)
    (recordHash : Digest32) (path : InclusionPath)
    (hfree : CollisionFree sha256 (rootPreimages sha256 recordHashes ++ pathPreimages sha256 recordHash path)) :
    (verifyInclusion sha256 recordHash path expected (UInt64.ofNat recordHashes.length) = true ↔
      Genuine sha256 recordHashes recordHash path) ↔ ¬ Displaced sha256 recordHashes recordHash path := by
  have hgenuine : Genuine sha256 recordHashes recordHash path ↔ recordHashes[path.index.toNat]? = some recordHash ∧
      path.steps = stepsTo sha256 recordHashes path.index.toNat := by
    constructor
    · rintro ⟨hlt, hrecord, hpath⟩
      rw [inclusionPath, if_neg (by omega)] at hpath
      exact ⟨hrecord, congrArg InclusionPath.steps (Option.some.inj hpath)⟩
    · rintro ⟨hrecord, hsteps⟩
      have hlt := (List.getElem?_eq_some_iff.mp hrecord).1
      refine ⟨hlt, hrecord, ?_⟩
      rw [inclusionPath, if_neg (by omega), ← hsteps, UInt64.ofNat_toNat]
  rw [verifyInclusion_iff_steps hroot hfree, hgenuine]
  constructor
  · rintro hiff ⟨q, hne, hrecord, hsteps, hlength⟩
    have hq := (List.getElem?_eq_some_iff.mp hrecord).1
    rw [pathLength_stepsTo sha256 hn hq, ← hsteps] at hlength
    obtain ⟨hown, hsame⟩ := hiff.mp ⟨⟨q, hrecord, hsteps⟩, hlength⟩
    exact hne (stepsTo_inj hq (List.getElem?_eq_some_iff.mp hown).1 (hsteps.symm.trans hsame))
  · intro hdisplaced
    constructor
    · rintro ⟨⟨q, hrecord, hsteps⟩, hlength⟩
      have hq := (List.getElem?_eq_some_iff.mp hrecord).1
      by_cases heq : q = path.index.toNat
      · rw [← heq]
        exact ⟨hrecord, hsteps⟩
      · refine (hdisplaced ⟨q, heq, hrecord, hsteps, ?_⟩).elim
        rw [hlength, pathLength_stepsTo sha256 hn hq, hsteps]
    · rintro ⟨hrecord, hsteps⟩
      refine ⟨⟨_, hrecord, hsteps⟩, ?_⟩
      have hown := pathLength_stepsTo sha256 hn (List.getElem?_eq_some_iff.mp hrecord).1
      rw [UInt64.ofNat_toNat, ← hsteps] at hown
      exact hown

/-! ## Two records -/

namespace Sample

/-- The hashes of two records. -/
def pair : List Digest32 := [startingWith [1], startingWith [2]]

/-- The path of the first record, under the given index. -/
def firstAt (index : UInt64) : InclusionPath := ⟨index, stepsTo kindHash pair 0⟩

theorem firstAt_free (index : UInt64) :
    CollisionFree kindHash (rootPreimages kindHash pair ++
      pathPreimages kindHash (startingWith [1]) (firstAt index)) := by
  show CollisionFree kindHash (rootPreimages kindHash pair ++ pathPreimages kindHash (startingWith [1]) (firstAt 0))
  unfold CollisionFree
  decide +kernel

theorem root_pair : root kindHash pair = some (startingWith [2, 1]) := by decide +kernel

end Sample

open Sample in
/-- The path of the first of two records is accepted for the second position, where another record is. -/
theorem verifyInclusion_displaced :
    verifyInclusion kindHash (startingWith [1]) (firstAt 1) (startingWith [2, 1]) 2 = true ∧
      root kindHash pair = some (startingWith [2, 1]) ∧
      ¬ Genuine kindHash pair (startingWith [1]) (firstAt 1) := by
  refine ⟨by decide +kernel, root_pair, fun h => ?_⟩
  have hsecond : pair[1]? = some (startingWith [1]) := h.2.1
  exact absurd hsecond (by decide)

open Sample in
/-- Under its own index the path is not displaced, and is accepted. -/
theorem verifyInclusion_iff_genuine_first : ¬ Displaced kindHash pair (startingWith [1]) (firstAt 0) ∧
    verifyInclusion kindHash (startingWith [1]) (firstAt 0) (startingWith [2, 1]) 2 = true := by
  have hgenuine : Genuine kindHash pair (startingWith [1]) (firstAt 0) := ⟨by decide, by decide, by decide +kernel⟩
  have hverify : verifyInclusion kindHash (startingWith [1]) (firstAt 0) (startingWith [2, 1]) 2 = true := by
    decide +kernel
  exact ⟨(verifyInclusion_iff_genuine kindHash pair (by decide) _ root_pair _ _ (firstAt_free 0)).mp
    (iff_of_true hverify hgenuine), hverify⟩

open Sample in
/-- The root of the two records is theirs alone among the lists with the same hashes, and the path proves membership
under any leaf count that takes one step. -/
theorem root_commits_pair : startingWith [1] ∈ pair ∧ root kindHash pair ≠ root kindHash [startingWith [1]] := by
  obtain ⟨hlist, hmember⟩ := root_commits kindHash pair (by decide)
  refine ⟨hmember _ _ (firstAt 2) 3 root_pair (firstAt_free 2) (by decide +kernel), fun h => ?_⟩
  have hfree : CollisionFree kindHash (rootPreimages kindHash pair ++ rootPreimages kindHash [startingWith [1]]) := by
    unfold CollisionFree
    decide +kernel
  exact absurd (hlist _ (by decide) hfree h) (by decide)

end RecordStore.Audit
