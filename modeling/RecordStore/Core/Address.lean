import Mathlib

/-!
# Core.Address — Internet addresses and prefixes of them

Addresses as machine words of 32 and 128 bits, their octets, and the comparison of prefixes octet by octet.
-/

namespace RecordStore.Core

/-- `IpAddr`. -/
inductive IpAddr where
  | v4 (address : BitVec 32)
  | v6 (address : BitVec 128)
  deriving DecidableEq

/-- `to_ipv4_mapped`: the IPv4 address of `::ffff:a.b.c.d`. -/
def toIpv4Mapped (address : BitVec 128) : Option (BitVec 32) :=
  if address.toNat / 2 ^ 32 = 0xFFFF then some (.ofNat 32 address.toNat) else none

/-- `octets`, the most significant first. -/
def octets {w : Nat} (address : BitVec w) : List (BitVec 8) :=
  (List.range (w / 8)).map fun i => address.extractLsb' (w - 8 - 8 * i) 8

/-- `matches_prefix`. -/
def matchesPrefix (network candidate : List (BitVec 8)) (prefix_ : Nat) : Bool :=
  if network.take (prefix_ / 8) ≠ candidate.take (prefix_ / 8) then false
  else if prefix_ % 8 = 0 then true
  else
    network.getD (prefix_ / 8) 0 &&& 0xFF#8 <<< (8 - prefix_ % 8) =
      candidate.getD (prefix_ / 8) 0 &&& 0xFF#8 <<< (8 - prefix_ % 8)

/-- Two addresses agree on their first bits. -/
def Agree {w : Nat} (n : Nat) (a b : BitVec w) : Prop := ∀ i < n, a.getMsbD i = b.getMsbD i

section Prefix

variable {w n : Nat} {a b : BitVec w}

theorem getMsbD_octet {i k : Nat} (hi : 8 * i + 8 ≤ w) (hk : k < 8) :
    (a.extractLsb' (w - 8 - 8 * i) 8).getMsbD k = a.getMsbD (8 * i + k) := by
  have hindex : w - 8 - 8 * i + (8 - 1 - k) = w - 1 - (8 * i + k) := by omega
  rw [BitVec.getMsbD, BitVec.getMsbD, BitVec.getLsbD_extractLsb', hindex, decide_eq_true hk,
    decide_eq_true (by omega : 8 - 1 - k < 8), decide_eq_true (by omega : 8 * i + k < w), Bool.true_and, Bool.true_and]

theorem octet_eq_iff {i : Nat} (hi : 8 * i + 8 ≤ w) :
    a.extractLsb' (w - 8 - 8 * i) 8 = b.extractLsb' (w - 8 - 8 * i) 8 ↔ ∀ k < 8,
      a.getMsbD (8 * i + k) = b.getMsbD (8 * i + k) := by
  constructor
  · intro h k hk
    rw [← getMsbD_octet hi hk, h, getMsbD_octet hi hk]
  · intro h
    refine BitVec.eq_of_getMsbD_eq fun k hk => ?_
    rw [getMsbD_octet hi hk, getMsbD_octet hi hk, h k hk]

/-- The mask keeps the first bits of an octet. -/
theorem masked_eq_iff {x y : BitVec 8} {r : Nat} (hr : r < 8) :
    x &&& 0xFF#8 <<< (8 - r) = y &&& 0xFF#8 <<< (8 - r) ↔ ∀ k < r, x.getMsbD k = y.getMsbD k := by
  have hmask : ∀ k < 8, (0xFF#8 <<< (8 - r)).getMsbD k = decide (k < r) := by
    intro k hk
    rw [show 0xFF#8 = BitVec.allOnes 8 from rfl, BitVec.getMsbD_shiftLeft, BitVec.getMsbD_allOnes]
    exact decide_eq_decide.mpr (by omega)
  constructor
  · intro h k hk
    have hbit := congrArg (BitVec.getMsbD · k) h
    simpa only [BitVec.getMsbD_and, hmask k (by omega), decide_eq_true hk, Bool.and_true] using hbit
  · intro h
    refine BitVec.eq_of_getMsbD_eq fun k hk => ?_
    rw [BitVec.getMsbD_and, BitVec.getMsbD_and, hmask k hk]
    by_cases hkr : k < r
    · rw [h k hkr]
    · rw [decide_eq_false hkr, Bool.and_false, Bool.and_false]

/-- Comparing octets and then the bits of one more is comparing the first bits. -/
theorem matchesPrefix_iff (hw : w % 8 = 0) (hn : n ≤ w) : matchesPrefix (octets a) (octets b) n = true ↔
    Agree n a b := by
  have htake : (octets a).take (n / 8) = (octets b).take (n / 8) ↔ ∀ j < n / 8, ∀ k < 8,
    a.getMsbD (8 * j + k) = b.getMsbD (8 * j + k) := by
    unfold octets
    rw [← List.map_take, ← List.map_take, List.take_range, Nat.min_eq_left (by omega), List.map_inj_left]
    constructor
    · exact fun h j hj => (octet_eq_iff (by omega)).mp (h j (List.mem_range.mpr hj))
    · exact fun h j hj => (octet_eq_iff (by have := List.mem_range.mp hj; omega)).mpr (h j (List.mem_range.mp hj))
  have hget : ∀ x : BitVec w, n / 8 < w / 8 → (octets x).getD (n / 8) 0 = x.extractLsb' (w - 8 - 8 * (n / 8)) 8 := by
    intro x hlt
    rw [octets, List.getD_eq_getElem?_getD, List.getElem?_map, List.getElem?_range hlt]
    rfl
  have hsplit : Agree n a b ↔ (∀ j < n / 8, ∀ k < 8, a.getMsbD (8 * j + k) = b.getMsbD (8 * j + k)) ∧
      ∀ k < n % 8, a.getMsbD (8 * (n / 8) + k) = b.getMsbD (8 * (n / 8) + k) := by
    constructor
    · exact fun h => ⟨fun j hj k hk => h _ (by omega), fun k hk => h _ (by omega)⟩
    · rintro ⟨hfull, hrest⟩ i hi
      rcases Nat.lt_or_ge (i / 8) (n / 8) with hlt | hge
      · have := hfull (i / 8) hlt (i % 8) (by omega)
        rwa [Nat.div_add_mod] at this
      · have := hrest (i % 8) (by omega)
        rwa [show 8 * (n / 8) + i % 8 = i by omega] at this
  rw [hsplit, ← htake]
  unfold matchesPrefix
  split_ifs with hne hzero
  · exact iff_of_false not_false fun h => hne h.1
  · exact iff_of_true rfl ⟨not_not.mp hne, fun k hk => by omega⟩
  · have hlt : n / 8 < w / 8 := by omega
    rw [decide_eq_true_iff, hget a hlt, hget b hlt, masked_eq_iff (Nat.mod_lt _ (by decide))]
    constructor
    · exact fun h => ⟨not_not.mp hne, fun k hk => by
        rw [← getMsbD_octet (by omega) (by omega), ← getMsbD_octet (by omega) (by omega), h k hk]⟩
    · exact fun h k hk => by rw [getMsbD_octet (by omega) (by omega), getMsbD_octet (by omega) (by omega), h.2 k hk]

end Prefix

end RecordStore.Core
