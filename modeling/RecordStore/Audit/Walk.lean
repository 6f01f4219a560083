import RecordStore.Audit.Log

/-!
# Audit.Walk — what a walk over the chain establishes

A position is intact if the record found there verifies against the hash before it.  A span of intact
positions is counted as such whatever the page limits (`walk_intact`); conversely a walk without a
problem and without an unchained record has seen only intact positions (`walk_clean`).
-/

namespace RecordStore.Audit

open RecordStore.Lib RecordStore.Core

variable {sha256 : Bytes → Digest32} {codec : Codec} {log : AuditLog}

/-! ## Positions -/

section Positions

variable (sha256 codec log)

/-- The hash that a walk has before position `i`. -/
def hashAt (i : Nat) : Digest32 :=
  match startHash sha256 codec log (UInt64.ofNat i) with
  | .ok hash => hash
  | .error _ => genesisHash sha256

/-- The record found at position `i` verifies. -/
def IntactAt (i : Nat) : Prop :=
  ∃ record, load codec log (UInt64.ofNat i) = .ok (some record) ∧
    record.verifyAgainst sha256 (hashAt sha256 codec log i) = .intact

end Positions

theorem toNat_position {i : Nat} (h : i < 2 ^ 64) : (UInt64.ofNat i).toNat = i := by
  rw [UInt64.toNat_ofNat', Nat.mod_eq_of_lt h]

theorem next_position {i : Nat} (h : i + 1 < 2 ^ 64) : saturatingAdd (UInt64.ofNat i) 1 = UInt64.ofNat (i + 1) := by
  apply UInt64.toNat.inj
  rw [saturatingAdd_toNat, toNat_position h, toNat_position (Nat.lt_of_succ_lt h)]
  show min (i + 1) (2 ^ 64 - 1) = i + 1
  omega

theorem position_pred {i : Nat} (h : i + 1 < 2 ^ 64) : UInt64.ofNat (i + 1) - 1 = UInt64.ofNat i := by
  have hone : (1 : UInt64) ≤ UInt64.ofNat (i + 1) := by
    rw [UInt64.le_iff_toNat_le, toNat_position h]
    show 1 ≤ i + 1
    omega
  apply UInt64.toNat.inj
  rw [UInt64.toNat_sub_of_le _ _ hone, toNat_position h, toNat_position (Nat.lt_of_succ_lt h)]
  rfl

theorem position_ne_zero {i : Nat} (h : i + 1 < 2 ^ 64) : UInt64.ofNat (i + 1) ≠ 0 := by
  intro h0
  have := congrArg UInt64.toNat h0
  rw [toNat_position h] at this
  exact absurd this (Nat.succ_ne_zero i)

theorem verifyAgainst_intact {record : AuditRecord} {previous : Digest32} :
    record.verifyAgainst sha256 previous = .intact ↔
      ∃ hash, record.chain = some ⟨previous, hash⟩ ∧ hashEvent sha256 record.sequence previous record.event = hash := by
  unfold AuditRecord.verifyAgainst
  cases hc : record.chain with
  | none => simp
  | some links =>
    obtain ⟨before, hash⟩ := links
    simp only [ne_eq, ite_not, Option.some.injEq, ChainLinks.mk.injEq]
    by_cases hp : before = previous
    · by_cases hh : hashEvent sha256 record.sequence previous record.event = hash
      · simp [hp, hh]
      · simp [hp, hh]
    · simp [hp]

/-- A walk reaches a position behind a record with the hash that the record carries. -/
theorem startHash_succ {i : Nat} {record : AuditRecord} (h : i + 1 < 2 ^ 64)
    (hload : load codec log (UInt64.ofNat i) = .ok (some record)) :
    startHash sha256 codec log (UInt64.ofNat (i + 1)) =
      .ok ((record.chain.map (·.recordHash)).getD (genesisHash sha256)) := by
  unfold startHash
  rw [if_neg (position_ne_zero h), position_pred h, hload]
  rfl

theorem hashAt_succ {i : Nat} {record : AuditRecord} {links : ChainLinks} (h : i + 1 < 2 ^ 64)
    (hload : load codec log (UInt64.ofNat i) = .ok (some record)) (hc : record.chain = some links) :
    hashAt sha256 codec log (i + 1) = links.recordHash := by
  unfold hashAt
  rw [startHash_succ h hload, hc]
  rfl

/-- An intact record leads from the hash before it to the hash after it. -/
theorem IntactAt.links {i : Nat} (h : IntactAt sha256 codec log i) (hi : i + 1 < 2 ^ 64) :
    ∃ record, load codec log (UInt64.ofNat i) = .ok (some record) ∧
      record.verifyAgainst sha256 (hashAt sha256 codec log i) = .intact ∧
      record.chain = some ⟨hashAt sha256 codec log i, hashAt sha256 codec log (i + 1)⟩ ∧
      hashEvent sha256 record.sequence (hashAt sha256 codec log i) record.event = hashAt sha256 codec log (i + 1) := by
  obtain ⟨record, hload, hv⟩ := h
  obtain ⟨hash, hc, hh⟩ := verifyAgainst_intact.mp hv
  have hnext : hashAt sha256 codec log (i + 1) = hash := hashAt_succ hi hload hc
  refine ⟨record, hload, hv, ?_, hh.trans hnext.symm⟩
  rw [hc, hnext]

theorem IntactAt.startHash {i : Nat} (h : IntactAt sha256 codec log i) (hi : i + 1 < 2 ^ 64) :
    startHash sha256 codec log (UInt64.ofNat (i + 1)) = .ok (hashAt sha256 codec log (i + 1)) := by
  obtain ⟨record, hload, -, hc, -⟩ := h.links hi
  rw [startHash_succ hi hload, hc]
  rfl

/-! ## The loop -/

section Loop

variable {head : Nat} {v v' : ChainVerification}

/-- How far the loop gets from position `i`. -/
def reach (head left i : Nat) : Nat := min left (head + 1 - i)

theorem reach_zero {left i : Nat} (h : head < i) : reach head left i = 0 := by
  unfold reach
  omega

theorem reach_succ {left i : Nat} (h : i ≤ head) : reach head (left + 1) i = reach head left (i + 1) + 1 := by
  unfold reach
  omega

/-- One round of the loop, at a position that is not behind the head. -/
theorem verifyLoop_round {left i : Nat} {previous : Digest32} (hhead : head + 1 < 2 ^ 64) (hi : i ≤ head) :
    verifyLoop sha256 codec log (UInt64.ofNat head) (left + 1) (UInt64.ofNat i) previous v =
      (load codec log (UInt64.ofNat i)).bind fun found =>
        verifyLoop sha256 codec log (UInt64.ofNat head) left (UInt64.ofNat (i + 1))
          (examine sha256 previous found).2 (v.count (UInt64.ofNat i) (examine sha256 previous found).1) := by
  have hbehind : ¬ UInt64.ofNat head < UInt64.ofNat i := by
    rw [UInt64.lt_iff_toNat_lt, toNat_position (by omega), toNat_position (by omega)]
    omega
  rw [verifyLoop, if_neg hbehind, next_position (by omega)]
  rfl

/-- A loop that returns has loaded what is at its position and gone on. -/
theorem verifyLoop_found {left i : Nat} {previous : Digest32} {stop : UInt64} (hhead : head + 1 < 2 ^ 64)
    (hi : i ≤ head)
    (h : verifyLoop sha256 codec log (UInt64.ofNat head) (left + 1) (UInt64.ofNat i) previous v = .ok (stop, v')) :
    ∃ found, load codec log (UInt64.ofNat i) = .ok found ∧
      verifyLoop sha256 codec log (UInt64.ofNat head) left (UInt64.ofNat (i + 1)) (examine sha256 previous found).2
        (v.count (UInt64.ofNat i) (examine sha256 previous found).1) = .ok (stop, v') := by
  rw [verifyLoop_round hhead hi] at h
  cases hload : load codec log (UInt64.ofNat i) with
  | error e =>
    rw [hload] at h
    simp [Except.bind] at h
  | ok found =>
    rw [hload] at h
    exact ⟨found, rfl, h⟩

theorem verifyLoop_behind {left i : Nat} {previous : Digest32} (hhead : head + 1 < 2 ^ 64) (hi : i = head + 1) :
    verifyLoop sha256 codec log (UInt64.ofNat head) left (UInt64.ofNat i) previous v = .ok (UInt64.ofNat i, v) := by
  have hbehind : UInt64.ofNat head < UInt64.ofNat i := by
    rw [UInt64.lt_iff_toNat_lt, toNat_position (by omega), toNat_position (by omega)]
    omega
  cases left with
  | zero => rfl
  | succ left => rw [verifyLoop, if_pos hbehind]

@[simp] theorem count_checked (v : ChainVerification) (i : UInt64) (verdict : RecordVerdict) :
    (v.count i verdict).checked = v.checked + 1 := by
  cases verdict <;> rfl

@[simp] theorem count_nextSequence (v : ChainVerification) (i : UInt64) (verdict : RecordVerdict) :
    (v.count i verdict).nextSequence = v.nextSequence := by
  cases verdict <;> rfl

/-- The loop checks every position up to its limit or the head, whatever it finds. -/
theorem verifyLoop_count {left i : Nat} {previous : Digest32} {stop : UInt64} (hhead : head + 1 < 2 ^ 64)
    (hi : i ≤ head + 1)
    (h : verifyLoop sha256 codec log (UInt64.ofNat head) left (UInt64.ofNat i) previous v = .ok (stop, v')) :
    stop = UInt64.ofNat (i + reach head left i) ∧ v'.checked = v.checked + reach head left i ∧
      v'.nextSequence = v.nextSequence := by
  induction left generalizing i previous v with
  | zero =>
    obtain ⟨rfl, rfl⟩ := Prod.mk.inj (Except.ok.inj h)
    simp [reach]
  | succ left ih =>
    rcases Nat.lt_or_ge head i with hbehind | hle
    · rw [verifyLoop_behind hhead (by omega)] at h
      obtain ⟨rfl, rfl⟩ := Prod.mk.inj (Except.ok.inj h)
      simp [reach_zero hbehind]
    · obtain ⟨found, -, h⟩ := verifyLoop_found hhead hle h
      obtain ⟨h1, h2, h3⟩ := ih (by omega) h
      rw [count_checked] at h2
      rw [count_nextSequence] at h3
      rw [reach_succ hle]
      refine ⟨?_, by omega, h3⟩
      rw [h1]
      congr 1
      omega

/-- Intact positions are counted as such. -/
theorem verifyLoop_intact {left i : Nat} (hhead : head + 1 < 2 ^ 64) (hi : i ≤ head + 1)
    (h : ∀ j, i ≤ j → j ≤ head → IntactAt sha256 codec log j) :
    verifyLoop sha256 codec log (UInt64.ofNat head) left (UInt64.ofNat i) (hashAt sha256 codec log i) v =
      .ok (UInt64.ofNat (i + reach head left i),
        { v with checked := v.checked + reach head left i, intact := v.intact + reach head left i }) := by
  induction left generalizing i v with
  | zero => simp [reach, verifyLoop]
  | succ left ih =>
    rcases Nat.lt_or_ge head i with hbehind | hle
    · rw [verifyLoop_behind hhead (by omega), reach_zero hbehind]
      rfl
    · obtain ⟨record, hload, hv, hc, -⟩ := (h i (Nat.le_refl i) hle).links (by omega)
      rw [verifyLoop_round hhead hle, hload]
      simp only [Except.bind, examine, hc, hv, Option.map_some, Option.getD_some]
      rw [ih (by omega) fun j hj => h j (by omega), reach_succ hle]
      have h1 : i + 1 + reach head left (i + 1) = i + (reach head left (i + 1) + 1) := by omega
      have h2 : v.checked + 1 + reach head left (i + 1) = v.checked + (reach head left (i + 1) + 1) := by omega
      have h3 : v.intact + 1 + reach head left (i + 1) = v.intact + (reach head left (i + 1) + 1) := by omega
      simp only [ChainVerification.count, h1, h2, h3]

/-- What one verdict adds is never taken back. -/
theorem count_clean {i : UInt64} {verdict : RecordVerdict} (hu : (v.count i verdict).unchained = 0)
    (hp : (v.count i verdict).problems = []) : v.unchained = 0 ∧ v.problems = [] ∧ verdict = .intact := by
  have hpush : ∀ problem : ChainProblem,
      (if v.problems.length < maximumChainProblems then v.problems ++ [problem] else v.problems) ≠ [] := by
    intro problem
    split_ifs with hlt
    · simp
    · intro hnil
      rw [hnil] at hlt
      exact hlt (by decide)
  cases verdict with
  | intact => exact ⟨hu, hp, rfl⟩
  | unchained => exact absurd hu (Nat.succ_ne_zero _)
  | contentChanged => exact absurd hp (hpush _)
  | brokenLink => exact absurd hp (hpush _)
  | missing => exact absurd hp (hpush _)

/-- A loop that ends without an unchained record and without a problem started without one. -/
theorem verifyLoop_started_clean {left i : Nat} {previous : Digest32} {stop : UInt64} (hhead : head + 1 < 2 ^ 64)
    (hi : i ≤ head + 1)
    (h : verifyLoop sha256 codec log (UInt64.ofNat head) left (UInt64.ofNat i) previous v = .ok (stop, v'))
    (hu : v'.unchained = 0) (hp : v'.problems = []) : v.unchained = 0 ∧ v.problems = [] := by
  induction left generalizing i previous v with
  | zero =>
    obtain ⟨-, rfl⟩ := Prod.mk.inj (Except.ok.inj h)
    exact ⟨hu, hp⟩
  | succ left ih =>
    rcases Nat.lt_or_ge head i with hbehind | hle
    · rw [verifyLoop_behind hhead (by omega)] at h
      obtain ⟨-, rfl⟩ := Prod.mk.inj (Except.ok.inj h)
      exact ⟨hu, hp⟩
    · obtain ⟨found, -, h⟩ := verifyLoop_found hhead hle h
      obtain ⟨h1, h2⟩ := ih (by omega) h
      obtain ⟨h3, h4, -⟩ := count_clean h1 h2
      exact ⟨h3, h4⟩

/-- A clean loop has seen only intact positions. -/
theorem verifyLoop_clean {left i : Nat} {stop : UInt64} (hhead : head + 1 < 2 ^ 64) (hi : i ≤ head + 1)
    (h : verifyLoop sha256 codec log (UInt64.ofNat head) left (UInt64.ofNat i) (hashAt sha256 codec log i) v =
      .ok (stop, v')) (hu : v'.unchained = 0) (hp : v'.problems = []) :
    ∀ j, i ≤ j → j < i + reach head left i → IntactAt sha256 codec log j := by
  induction left generalizing i v with
  | zero =>
    intro j hj hlt
    simp only [reach] at hlt
    omega
  | succ left ih =>
    rcases Nat.lt_or_ge head i with hbehind | hle
    · rw [reach_zero hbehind]
      intro j hj hlt
      omega
    · obtain ⟨found, hload, h⟩ := verifyLoop_found hhead hle h
      obtain ⟨h1, h2⟩ := verifyLoop_started_clean hhead (by omega) h hu hp
      have hverdict := (count_clean h1 h2).2.2
      rw [reach_succ hle]
      cases found with
      | none => exact absurd hverdict (by simp [examine])
      | some record =>
        have hintact : IntactAt sha256 codec log i := ⟨record, hload, hverdict⟩
        obtain ⟨record', hload', -, hc, -⟩ := hintact.links (by omega)
        obtain rfl : record = record' := Option.some.inj (Except.ok.inj (hload.symm.trans hload'))
        simp only [examine, hc, Option.map_some, Option.getD_some] at h
        intro j hj hlt
        rcases Nat.eq_or_lt_of_le hj with rfl | hgt
        · exact hintact
        · exact ih (by omega) h j hgt (by omega)

end Loop

/-! ## Pages -/

section Pages

/-- A page that reports neither a problem nor an unchained record. -/
structure ChainVerification.Clean (page : ChainVerification) : Prop where
  unchained : page.unchained = 0
  problems : page.problems = []

/-- The last page reached the head. -/
def complete (pages : List ChainVerification) : Bool := pages.getLast?.any fun page => page.nextSequence.isNone

/-- The records that the pages report as checked. -/
def totalChecked (pages : List ChainVerification) : Nat := (pages.map (·.checked)).sum

variable {n i limit : Nat} {d : Digest32} {page : ChainVerification}

/-- The page a walk starts with. -/
def emptyPage (n i : Nat) : ChainVerification := ⟨UInt64.ofNat i, 0, 0, 0, none, some (UInt64.ofNat (n - 1)), []⟩

/-- Where the page ends, as it is reported. -/
def closePage (n : Nat) (result : UInt64 × ChainVerification) : ChainVerification :=
  if result.1 ≤ UInt64.ofNat (n - 1) then { result.2 with nextSequence := some result.1 } else result.2

theorem verifyChain_eq (hn : 0 < n) (hn' : n < 2 ^ 64) (hhead : readChainHead sha256 log = .ok (UInt64.ofNat n, d))
    (hl : 1 ≤ limit ∧ limit ≤ 10000)
    (hs : startHash sha256 codec log (UInt64.ofNat i) = .ok (hashAt sha256 codec log i)) :
    verifyChain sha256 codec log (UInt64.ofNat i) limit =
      (verifyLoop sha256 codec log (UInt64.ofNat (n - 1)) limit (UInt64.ofNat i) (hashAt sha256 codec log i)
        (emptyPage n i)).map (closePage n) := by
  obtain ⟨m, rfl⟩ := Nat.exists_eq_succ_of_ne_zero (Nat.pos_iff_ne_zero.mp hn)
  unfold verifyChain
  simp only [hhead, hs, not_true_eq_false, hl, and_self, if_false, bind, Except.bind, pure, Except.pure,
    if_neg (position_ne_zero hn'), position_pred hn', Nat.succ_eq_add_one]
  simp only [Nat.add_sub_cancel, emptyPage]
  cases verifyLoop sha256 codec log (UInt64.ofNat m) limit (UInt64.ofNat i) (hashAt sha256 codec log i) _ with
  | error e => rfl
  | ok result => rfl

theorem verifyChain_limit {fromSequence : UInt64} (h : verifyChain sha256 codec log fromSequence limit = .ok page) :
    1 ≤ limit ∧ limit ≤ 10000 := by
  by_contra hl
  unfold verifyChain at h
  simp [hl, bind, Except.bind, throw, throwThe, MonadExceptOf.throw] at h

/-- A page that returns has found the hash before its first position. -/
theorem verifyChain_start (hhead : readChainHead sha256 log = .ok (UInt64.ofNat n, d))
    (h : verifyChain sha256 codec log (UInt64.ofNat i) limit = .ok page) :
    startHash sha256 codec log (UInt64.ofNat i) = .ok (hashAt sha256 codec log i) := by
  have hl := verifyChain_limit h
  unfold hashAt
  cases hs : startHash sha256 codec log (UInt64.ofNat i) with
  | ok hash => rfl
  | error e =>
    unfold verifyChain at h
    simp [hl, hhead, hs, bind, Except.bind] at h

/-- A page that returns is what the loop leaves. -/
theorem verifyChain_loop (hn' : n < 2 ^ 64) (hhead : readChainHead sha256 log = .ok (UInt64.ofNat n, d)) (hi : i < n)
    (h : verifyChain sha256 codec log (UInt64.ofNat i) limit = .ok page) :
    ∃ result, verifyLoop sha256 codec log (UInt64.ofNat (n - 1)) limit (UInt64.ofNat i) (hashAt sha256 codec log i)
      (emptyPage n i) = .ok result ∧ closePage n result = page := by
  rw [verifyChain_eq (by omega) hn' hhead (verifyChain_limit h) (verifyChain_start hhead h)] at h
  cases hloop : verifyLoop sha256 codec log (UInt64.ofNat (n - 1)) limit (UInt64.ofNat i) (hashAt sha256 codec log i)
      (emptyPage n i) with
  | error e =>
    rw [hloop] at h
    cases h
  | ok result =>
    rw [hloop] at h
    exact ⟨result, rfl, Except.ok.inj h⟩

/-- Where a page ends that starts at `i` and reaches `k` records. -/
theorem closePage_next {v : ChainVerification} {k : Nat} (hn : 0 < n) (hn' : n < 2 ^ 64) (hk : i + k ≤ n)
    (hv : v.nextSequence = none) :
    (closePage n (UInt64.ofNat (i + k), v)).nextSequence = if i + k < n then some (UInt64.ofNat (i + k)) else none := by
  unfold closePage
  have hle : UInt64.ofNat (i + k) ≤ UInt64.ofNat (n - 1) ↔ i + k < n := by
    rw [UInt64.le_iff_toNat_le, toNat_position (by omega), toNat_position (by omega)]
    omega
  by_cases h : i + k < n
  · simp only [if_pos (hle.mpr h), if_pos h]
  · simp only [if_neg (fun hc => h (hle.mp hc)), if_neg h, hv]

@[simp] theorem closePage_checked (r : UInt64 × ChainVerification) : (closePage n r).checked = r.2.checked := by
  unfold closePage
  split_ifs <;> rfl

@[simp] theorem closePage_intact (r : UInt64 × ChainVerification) : (closePage n r).intact = r.2.intact := by
  unfold closePage
  split_ifs <;> rfl

@[simp] theorem closePage_unchained (r : UInt64 × ChainVerification) : (closePage n r).unchained = r.2.unchained := by
  unfold closePage
  split_ifs <;> rfl

@[simp] theorem closePage_problems (r : UInt64 × ChainVerification) : (closePage n r).problems = r.2.problems := by
  unfold closePage
  split_ifs <;> rfl

/-- A page reaches as far as its limit and the head allow, whatever it finds. -/
theorem verifyChain_count (hn' : n < 2 ^ 64) (hhead : readChainHead sha256 log = .ok (UInt64.ofNat n, d)) (hi : i < n)
    (h : verifyChain sha256 codec log (UInt64.ofNat i) limit = .ok page) :
    page.checked = min limit (n - i) ∧
      page.nextSequence = if i + min limit (n - i) < n then some (UInt64.ofNat (i + min limit (n - i))) else none := by
  obtain ⟨⟨stop, v⟩, hloop, rfl⟩ := verifyChain_loop hn' hhead hi h
  obtain ⟨rfl, hc, hnext⟩ := verifyLoop_count (by omega) (by omega) hloop
  have hreach : reach (n - 1) limit i = min limit (n - i) := by
    unfold reach
    omega
  rw [hreach] at hc ⊢
  refine ⟨?_, ?_⟩
  · rw [closePage_checked, hc]
    show 0 + min limit (n - i) = _
    omega
  · exact closePage_next (by omega) hn' (by omega) hnext

/-- A page over intact positions counts them all as intact. -/
theorem verifyChain_intact (hn' : n < 2 ^ 64) (hhead : readChainHead sha256 log = .ok (UInt64.ofNat n, d))
    (hs : startHash sha256 codec log (UInt64.ofNat i) = .ok (hashAt sha256 codec log i)) (hi : i < n)
    (hl : 1 ≤ limit ∧ limit ≤ 10000) (h : ∀ j, i ≤ j → j < n → IntactAt sha256 codec log j) :
    ∃ page, verifyChain sha256 codec log (UInt64.ofNat i) limit = .ok page ∧ page.intact = page.checked ∧
      page.Clean := by
  have hn : 0 < n := by omega
  rw [verifyChain_eq hn hn' hhead hl hs,
    verifyLoop_intact (by omega) (by omega) fun j hj hle => h j hj (by omega)]
  refine ⟨_, rfl, ?_, ?_, ?_⟩
  · rw [closePage_intact, closePage_checked]
    rfl
  · rw [closePage_unchained]
    rfl
  · rw [closePage_problems]
    rfl

/-- A clean page has seen only intact positions. -/
theorem verifyChain_clean (hn' : n < 2 ^ 64) (hhead : readChainHead sha256 log = .ok (UInt64.ofNat n, d)) (hi : i < n)
    (h : verifyChain sha256 codec log (UInt64.ofNat i) limit = .ok page) (hclean : page.Clean) :
    ∀ j, i ≤ j → j < i + min limit (n - i) → IntactAt sha256 codec log j := by
  obtain ⟨⟨stop, v⟩, hloop, rfl⟩ := verifyChain_loop hn' hhead hi h
  have hu := hclean.unchained
  have hp := hclean.problems
  rw [closePage_unchained] at hu
  rw [closePage_problems] at hp
  intro j hj hlt
  apply verifyLoop_clean (by omega) (by omega) hloop hu hp j hj
  unfold reach
  omega

end Pages

/-! ## Walks -/

section Walks

variable {n : Nat} {d : Digest32}

theorem walk_cons {limit : Nat} {limits : List Nat} {fromSequence : UInt64} {page : ChainVerification}
    (h : verifyChain sha256 codec log fromSequence limit = .ok page) :
    walk sha256 codec log (limit :: limits) fromSequence =
      match page.nextSequence with
      | none => .ok [page]
      | some next => (walk sha256 codec log limits next).map (page :: ·) := by
  rw [walk, h]
  cases hnext : page.nextSequence with
  | none =>
    show (match page.nextSequence with | none => _ | some next => _) = _
    rw [hnext]
    rfl
  | some next =>
    show (match page.nextSequence with | none => _ | some next => _) = _
    rw [hnext]
    cases walk sha256 codec log limits next <;> rfl

/-- A walk that returns has its first page, and the others from where that one stopped. -/
theorem walk_first {limit : Nat} {limits : List Nat} {fromSequence : UInt64} {pages : List ChainVerification}
    (h : walk sha256 codec log (limit :: limits) fromSequence = .ok pages) :
    ∃ page rest, verifyChain sha256 codec log fromSequence limit = .ok page ∧ pages = page :: rest ∧
      match page.nextSequence with
      | none => rest = []
      | some next => walk sha256 codec log limits next = .ok rest := by
  cases hpage : verifyChain sha256 codec log fromSequence limit with
  | error e =>
    rw [walk, hpage] at h
    simp [bind, Except.bind] at h
  | ok page =>
    rw [walk_cons hpage] at h
    cases hnext : page.nextSequence with
    | none =>
      simp only [hnext] at h
      exact ⟨page, [], rfl, (Except.ok.inj h).symm, by rw [hnext]⟩
    | some next =>
      simp only [hnext] at h
      cases hwalk : walk sha256 codec log limits next with
      | error e =>
        rw [hwalk] at h
        simp [Except.map] at h
      | ok rest =>
        rw [hwalk] at h
        refine ⟨page, rest, rfl, (Except.ok.inj h).symm, ?_⟩
        simp only [hnext, hwalk]

/-- The walk over an intact chain, for any page limits. -/
theorem walk_intact (hn' : n < 2 ^ 64) (hhead : readChainHead sha256 log = .ok (UInt64.ofNat n, d))
    (h : ∀ j, j < n → IntactAt sha256 codec log j) (limits : List Nat) {i : Nat} (hi : i < n)
    (hs : startHash sha256 codec log (UInt64.ofNat i) = .ok (hashAt sha256 codec log i))
    (hl : ∀ limit ∈ limits, 1 ≤ limit ∧ limit ≤ 10000) :
    ∃ pages, walk sha256 codec log limits (UInt64.ofNat i) = .ok pages ∧
      totalChecked pages = min limits.sum (n - i) ∧ (∀ page ∈ pages, page.intact = page.checked ∧ page.Clean) ∧
      (complete pages = true ↔ n - i ≤ limits.sum) := by
  induction limits generalizing i with
  | nil =>
    refine ⟨[], rfl, ?_, ?_, ?_⟩
    · simp [totalChecked]
    · simp
    · simp [complete]
      omega
  | cons limit limits ih =>
    obtain ⟨hlimit, hrest⟩ := List.forall_mem_cons.mp hl
    obtain ⟨page, hpage, hintact, hclean⟩ := verifyChain_intact hn' hhead hs hi hlimit fun j _ => h j
    obtain ⟨hchecked, hnext⟩ := verifyChain_count hn' hhead hi hpage
    rw [walk_cons hpage]
    by_cases hmore : i + min limit (n - i) < n
    · rw [if_pos hmore] at hnext
      have hstart : startHash sha256 codec log (UInt64.ofNat (i + min limit (n - i))) =
          .ok (hashAt sha256 codec log (i + min limit (n - i))) := by
        have hpred : i + min limit (n - i) = i + min limit (n - i) - 1 + 1 := by omega
        rw [hpred]
        exact (h _ (by omega)).startHash (by omega)
      obtain ⟨pages, hwalk, htotal, hall, hdone⟩ := ih hmore hstart hrest
      refine ⟨page :: pages, ?_, ?_, ?_, ?_⟩
      · simp only [hnext, hwalk, Except.map]
      · simp only [totalChecked, List.map_cons, List.sum_cons] at htotal ⊢
        omega
      · exact List.forall_mem_cons.mpr ⟨⟨hintact, hclean⟩, hall⟩
      · -- the pages end where the rest of them ends, unless there is no rest
        cases pages with
        | nil =>
          have hnil : ¬ complete [page] = true := by simp [complete, hnext]
          have : totalChecked [] = 0 := rfl
          simp only [List.sum_cons]
          constructor
          · intro hc
            exact absurd hc hnil
          · intro hc
            omega
        | cons p ps =>
          have hlast : complete (page :: p :: ps) = complete (p :: ps) := by simp [complete]
          rw [hlast, hdone]
          simp only [List.sum_cons]
          omega
    · rw [if_neg hmore] at hnext
      refine ⟨[page], ?_, ?_, ?_, ?_⟩
      · simp only [hnext]
      · simp only [totalChecked, List.map_cons, List.map_nil, List.sum_cons, List.sum_nil]
        omega
      · exact List.forall_mem_cons.mpr ⟨⟨hintact, hclean⟩, by simp⟩
      · simp only [complete, List.getLast?_singleton, Option.any_some, hnext, Option.isNone_none, true_iff,
          List.sum_cons]
        omega

/-- No walk checks more positions than there are up to the head. -/
theorem walk_checked_le (hn' : n < 2 ^ 64) (hhead : readChainHead sha256 log = .ok (UInt64.ofNat n, d))
    {limits : List Nat} {i : Nat} (hi : i < n) {pages : List ChainVerification}
    (h : walk sha256 codec log limits (UInt64.ofNat i) = .ok pages) : totalChecked pages ≤ n - i := by
  induction limits generalizing i pages with
  | nil =>
    obtain rfl := Except.ok.inj h
    exact Nat.zero_le _
  | cons limit limits ih =>
    obtain ⟨page, rest, hpage, rfl, hrest⟩ := walk_first h
    obtain ⟨hchecked, hnext⟩ := verifyChain_count hn' hhead hi hpage
    have htotal : totalChecked (page :: rest) = page.checked + totalChecked rest := by simp [totalChecked]
    by_cases hmore : i + min limit (n - i) < n
    · rw [if_pos hmore] at hnext
      simp only [hnext] at hrest
      have hle := ih hmore hrest
      omega
    · rw [if_neg hmore] at hnext
      simp only [hnext] at hrest
      have hzero : totalChecked rest = 0 := by rw [hrest]; rfl
      omega

/-- A complete walk without a problem and without an unchained record has seen only intact positions. -/
theorem walk_clean (hn' : n < 2 ^ 64) (hhead : readChainHead sha256 log = .ok (UInt64.ofNat n, d))
    {limits : List Nat} {i : Nat} (hi : i < n) {pages : List ChainVerification}
    (h : walk sha256 codec log limits (UInt64.ofNat i) = .ok pages)
    (hclean : ∀ page ∈ pages, page.Clean) (hdone : complete pages = true) :
    ∀ j, i ≤ j → j < n → IntactAt sha256 codec log j := by
  induction limits generalizing i pages with
  | nil =>
    obtain rfl := Except.ok.inj h
    simp [complete] at hdone
  | cons limit limits ih =>
    obtain ⟨page, rest, hpage, rfl, hrest⟩ := walk_first h
    obtain ⟨-, hnext⟩ := verifyChain_count hn' hhead hi hpage
    obtain ⟨hc, hcs⟩ := List.forall_mem_cons.mp hclean
    have hfirst := verifyChain_clean hn' hhead hi hpage hc
    by_cases hmore : i + min limit (n - i) < n
    · rw [if_pos hmore] at hnext
      simp only [hnext] at hrest
      have hdone' : complete rest = true := by
        cases rest with
        | nil => simp [complete, hnext] at hdone
        | cons p ps => simpa [complete] using hdone
      intro j hj hjn
      rcases Nat.lt_or_ge j (i + min limit (n - i)) with hlt | hge
      · exact hfirst j hj hlt
      · exact ih hmore hrest hcs hdone' j hge hjn
    · intro j hj hjn
      exact hfirst j hj (by omega)

end Walks

end RecordStore.Audit
