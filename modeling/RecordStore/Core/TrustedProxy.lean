import RecordStore.Core.Address
import RecordStore.Lib.Bytes
import RecordStore.Lib.Text

/-!
# Core.TrustedProxy — the address a request is attributed to

A forwarding header is read only from a trusted peer, from the right, past the hops the deployment runs.  What
decides is the rightmost entry that is no trusted hop; everything to its left was written by the client.
-/

namespace RecordStore.Core

open RecordStore.Lib

/-! ## Networks -/

/-- The number of bits of an address. -/
def IpAddr.width : IpAddr → Nat
  | .v4 _ => 32
  | .v6 _ => 128

/-- The address as 128 bits; an IPv4 address as its mapped form. -/
def IpAddr.wide : IpAddr → BitVec 128
  | .v4 address => 0xFFFF#96 ++ address
  | .v6 address => address

structure Network where
  address : IpAddr
  prefixLength : Nat
  fits : prefixLength ≤ address.width

def Network.contains (n : Network) (candidate : IpAddr) : Bool :=
  match n.address, candidate with
  | .v4 network, .v4 candidate => matchesPrefix (octets network) (octets candidate) n.prefixLength
  | .v6 network, .v6 candidate => matchesPrefix (octets network) (octets candidate) n.prefixLength
  | .v4 network, .v6 candidate =>
    (toIpv4Mapped candidate).any fun mapped => matchesPrefix (octets network) (octets mapped) n.prefixLength
  | .v6 network, .v4 candidate =>
    (toIpv4Mapped network).any fun mapped =>
      96 ≤ n.prefixLength && matchesPrefix (octets mapped) (octets candidate) (n.prefixLength - 96)

def trusts (networks : List Network) (address : IpAddr) : Bool := networks.any (·.contains address)

/-- The candidate, as 128 bits, starts as the network does.  A network shorter than the mapped range has no IPv4
members. -/
def Network.Covers (n : Network) (candidate : IpAddr) : Prop :=
  Agree (128 - n.address.width + n.prefixLength) n.address.wide candidate.wide ∧
    (candidate.width = 32 → 96 ≤ 128 - n.address.width + n.prefixLength)

section Networks

theorem getMsbD_wide_lt {address : BitVec 32} {i : Nat} (hi : i < 96) :
    (IpAddr.v4 address).wide.getMsbD i = (0xFFFF#96).getMsbD i := by
  rw [IpAddr.wide, BitVec.getMsbD_append, if_neg (by omega)]

theorem getMsbD_wide_add {address : BitVec 32} (i : Nat) :
    (IpAddr.v4 address).wide.getMsbD (96 + i) = address.getMsbD i := by
  rw [IpAddr.wide, BitVec.getMsbD_append, if_pos (by omega), Nat.add_sub_cancel_left]

/-- Two IPv4 addresses agree as they do in their mapped form. -/
theorem agree_wide_iff {a b : BitVec 32} {n : Nat} : Agree (96 + n) (IpAddr.v4 a).wide (IpAddr.v4 b).wide ↔
    Agree n a b := by
  constructor
  · intro h i hi
    rw [← getMsbD_wide_add, h (96 + i) (by omega), getMsbD_wide_add]
  · intro h i hi
    rcases Nat.lt_or_ge i 96 with hlt | hge
    · rw [getMsbD_wide_lt hlt, getMsbD_wide_lt hlt]
    · obtain ⟨k, rfl⟩ := Nat.exists_eq_add_of_le hge
      rw [getMsbD_wide_add, getMsbD_wide_add, h k (by omega)]

theorem wide_toNat (a : BitVec 32) : (IpAddr.v4 a).wide.toNat = 0xFFFF * 2 ^ 32 + a.toNat := by
  rw [IpAddr.wide, BitVec.toNat_append, ← Nat.shiftLeft_add_eq_or_of_lt a.isLt, Nat.shiftLeft_eq]
  rfl

theorem toIpv4Mapped_wide (a : BitVec 32) : toIpv4Mapped (IpAddr.v4 a).wide = some a := by
  have hlt := a.isLt
  have hnat := wide_toNat a
  rw [toIpv4Mapped, if_pos (by omega), Option.some.injEq]
  apply BitVec.eq_of_toNat_eq
  rw [BitVec.toNat_ofNat, hnat]
  omega

theorem eq_wide_of_toIpv4Mapped {c : BitVec 128} {m : BitVec 32} (h : toIpv4Mapped c = some m) :
    c = (IpAddr.v4 m).wide := by
  unfold toIpv4Mapped at h
  split_ifs at h with hmapped
  obtain rfl := Option.some.inj h
  apply BitVec.eq_of_toNat_eq
  rw [wide_toNat, BitVec.toNat_ofNat]
  omega

/-- A word that agrees with a mapped address on the first 96 bits is mapped. -/
theorem mapped_of_agree {a : BitVec 32} {c : BitVec 128} (h : Agree 96 (IpAddr.v4 a).wide c) :
    ∃ m, c = (IpAddr.v4 m).wide := by
  refine ⟨c.extractLsb' 0 32, BitVec.eq_of_getMsbD_eq fun i hi => ?_⟩
  rcases Nat.lt_or_ge i 96 with hlt | hge
  · rw [getMsbD_wide_lt hlt, ← h i hlt, getMsbD_wide_lt hlt]
  · obtain ⟨k, rfl⟩ := Nat.exists_eq_add_of_le hge
    rw [getMsbD_wide_add, BitVec.getMsbD, BitVec.getMsbD, BitVec.getLsbD_extractLsb', decide_eq_true hi,
      decide_eq_true (by omega : k < 32), decide_eq_true (by omega : 32 - 1 - k < 32), Bool.true_and, Bool.true_and,
        Bool.true_and]
    congr 1
    omega

theorem any_mapped_iff {c : BitVec 128} {p : BitVec 32 → Bool} :
    (toIpv4Mapped c).any p = true ↔ ∃ m, c = (IpAddr.v4 m).wide ∧ p m = true := by
  rw [Option.any_eq_true]
  constructor
  · rintro ⟨m, hm, hp⟩
    exact ⟨m, eq_wide_of_toIpv4Mapped hm, hp⟩
  · rintro ⟨m, rfl, hp⟩
    exact ⟨m, toIpv4Mapped_wide m, hp⟩

theorem contains_iff (n : Network) (candidate : IpAddr) : n.contains candidate = true ↔ n.Covers candidate := by
  obtain ⟨address, prefixLength, fits⟩ := n
  cases address with
  | v4 network =>
    have hfits : prefixLength ≤ 32 := fits
    cases candidate with
    | v4 candidate =>
      refine (matchesPrefix_iff rfl hfits).trans (agree_wide_iff.symm.trans ⟨fun h => ⟨h, fun _ => ?_⟩, And.left⟩)
      exact Nat.le_add_right 96 prefixLength
    | v6 candidate =>
      refine any_mapped_iff.trans ⟨?_, ?_⟩
      · rintro ⟨m, rfl, hm⟩
        exact ⟨agree_wide_iff.mpr ((matchesPrefix_iff rfl hfits).mp hm), nofun⟩
      · rintro ⟨hagree, -⟩
        obtain ⟨m, rfl⟩ := mapped_of_agree fun i hi =>
          hagree i (Nat.lt_of_lt_of_le hi (Nat.le_add_right 96 prefixLength))
        exact ⟨m, rfl, (matchesPrefix_iff rfl hfits).mpr (agree_wide_iff.mp hagree)⟩
  | v6 network =>
    have hfits : prefixLength ≤ 128 := fits
    have hrest : prefixLength - 96 ≤ 32 := by omega
    have hwidth : 128 - (IpAddr.v6 network).width + prefixLength = prefixLength := Nat.zero_add _
    cases candidate with
    | v4 candidate =>
      refine any_mapped_iff.trans ⟨?_, ?_⟩
      · rintro ⟨m, rfl, hm⟩
        rw [Bool.and_eq_true, decide_eq_true_iff, matchesPrefix_iff rfl hrest, ← agree_wide_iff,
          Nat.add_sub_of_le hm.1] at hm
        exact ⟨by rw [hwidth]; exact hm.2, fun _ => by rw [hwidth]; exact hm.1⟩
      · rintro ⟨hagree, hlong⟩
        rw [hwidth] at hagree hlong
        have hle : 96 ≤ prefixLength := hlong rfl
        obtain ⟨m, rfl⟩ := mapped_of_agree (a := candidate) fun i hi => (hagree i (by omega)).symm
        refine ⟨m, rfl, ?_⟩
        rw [Bool.and_eq_true, decide_eq_true_iff, matchesPrefix_iff rfl hrest, ← agree_wide_iff, Nat.add_sub_of_le hle]
        exact ⟨hle, hagree⟩
    | v6 candidate =>
      refine (matchesPrefix_iff rfl hfits).trans ⟨fun h => ⟨by rw [hwidth]; exact h, nofun⟩, fun h => ?_⟩
      have hagree := h.1
      rwa [hwidth] at hagree

theorem trusts_iff (networks : List Network) (address : IpAddr) :
    trusts networks address = true ↔ ∃ n ∈ networks, n.Covers address := by
  simp only [trusts, List.any_eq_true, contains_iff]

end Networks

/-! ## The forwarding header -/

/-- `Ipv4Addr::from_str` and `Ipv6Addr::from_str`. -/
structure AddressSyntax where
  v4 : Bytes → Option (BitVec 32)
  v6 : Bytes → Option (BitVec 128)

/-- `IpAddr::from_str`. -/
def AddressSyntax.ip (S : AddressSyntax) (value : Bytes) : Option IpAddr :=
  ((S.v4 value).map .v4).or ((S.v6 value).map .v6)

/-- `parse_hop`: an address, `[v6]` with anything after it, or an IPv4 address before the last colon. -/
def parseHop (S : AddressSyntax) (value : Bytes) : Option IpAddr :=
  (S.ip value).or
    (if value.head? = some 0x5B then
      if 0x5D ∈ value.tail then (S.v6 (value.tail.takeWhile (· ≠ 0x5D))).map .v6 else none
    else if 0x3A ∈ value then (S.v4 (value.reverse.dropWhile (· ≠ 0x3A)).tail.reverse).map .v4 else none)

/-- `trim`, on the texts that `headerText` admits. -/
def trimHop (value : Bytes) : Bytes := trimWhile (fun b => b = 0x20 || b = 0x09) value

/-- `MAXIMUM_FORWARDED_BYTES`. -/
def maximumForwardedBytes : Nat := 1024

/-- `MAXIMUM_FORWARDED_HOPS`. -/
def maximumForwardedHops : Nat := 32

/-- The entries of a header line, the last first, as far as they can be read. -/
def hops (S : AddressSyntax) (line : Bytes) : List (Option IpAddr) :=
  (line.splitOn 0x2C).reverse.map fun hop => parseHop S (trimHop hop)

def clientAddress (S : AddressSyntax) (networks : List Network) (peer : Option IpAddr) (forwarded : Option Bytes) :
    Option IpAddr :=
  peer.bind fun peer =>
    if networks.isEmpty || !trusts networks peer then some peer
    else (forwarded.filter fun value => value.length ≤ maximumForwardedBytes).elim (some peer) fun forwarded =>
      ((((hops S forwarded).take maximumForwardedHops).filterMap id).find? fun hop =>
        !trusts networks hop).or (some peer)

/-- `HeaderValue::to_str`. -/
def headerText (value : Bytes) : Option Bytes := if isVisible value then some value else none

/-- The source address of `authenticate_request`: `headers().get` answers the first line of the name. -/
def sourceIp (S : AddressSyntax) (networks : List Network) (peer : Option IpAddr)
    (lines : List Bytes) : Option IpAddr :=
  clientAddress S networks peer (lines.head?.bind headerText)

/-! ## The entry that decides -/

/-- The chain that header lines form when joined in order, its last entry first. -/
def chain (S : AddressSyntax) (lines : List Bytes) : List (Option IpAddr) := lines.reverse.flatMap (hops S)

def trustedHop (networks : List Network) (entry : Option IpAddr) : Bool := entry.any (trusts networks)

/-- The rightmost entry that is no trusted hop. -/
def deciding (networks : List Network) (chain : List (Option IpAddr)) : Option (Option IpAddr) :=
  chain.find? fun entry => !trustedHop networks entry

/-- The deciding entry's address; the peer if there is no such entry or it cannot be read. -/
def rightful (networks : List Network) (peer : IpAddr) (chain : List (Option IpAddr)) : IpAddr :=
  (deciding networks chain).join.getD peer

/-- A line the walk looks into. -/
def Usable (line : Bytes) : Prop := (headerText line).isSome ∧ line.length ≤ maximumForwardedBytes

instance : DecidablePred Usable := fun _ => inferInstanceAs (Decidable (_ ∧ _))

/-- The entries of a line that the walk looks at. -/
def seen (S : AddressSyntax) (line : Bytes) : List (Option IpAddr) :=
  if Usable line then (hops S line).take maximumForwardedHops else []

/-- The walk skips what it cannot read. -/
def walk (networks : List Network) (entries : List (Option IpAddr)) : Option IpAddr :=
  (entries.filterMap id).find? fun hop => !trusts networks hop

section Walk

variable {S : AddressSyntax} {networks : List Network} {peer : IpAddr} {line : Bytes} {entries : List (Option IpAddr)}

theorem sourceIp_of_untrusted (h : trusts networks peer = false) (lines : List Bytes) :
    sourceIp S networks (some peer) lines = some peer := by
  simp only [sourceIp, clientAddress, Option.bind_some, h, Bool.not_false, Bool.or_true, if_true]

theorem headerText_eq {text : Bytes} (h : headerText line = some text) : text = line := by
  unfold headerText at h
  split_ifs at h
  exact (Option.some.inj h).symm

/-- Behind a trusted peer the walk over the first line decides. -/
theorem sourceIp_of_trusted (htrusted : trusts networks peer = true) (first : Bytes) (rest : List Bytes) :
    sourceIp S networks (some peer) (first :: rest) = some ((walk networks (seen S first)).getD peer) := by
  have hnetworks : networks.isEmpty = false := by
    cases networks with
    | nil => cases htrusted
    | cons => rfl
  simp only [sourceIp, clientAddress, List.head?_cons, Option.bind_some, hnetworks, htrusted, Bool.not_true,
    Bool.or_false, Bool.false_eq_true, if_false]
  cases htext : headerText first with
  | none =>
    rw [seen, if_neg fun h => by simpa [htext] using h.1]
    rfl
  | some text =>
    obtain rfl := headerText_eq htext
    by_cases hlong : text.length ≤ maximumForwardedBytes
    · rw [seen, if_pos ⟨by rw [htext]; rfl, hlong⟩, Option.filter_some, if_pos (decide_eq_true hlong), Option.elim_some]
      exact Option.or_some
    · rw [seen, if_neg fun h => hlong h.2, Option.filter_some, if_neg (by simpa using hlong)]
      rfl

/-- The walk finds an address exactly if it reads one that is no trusted hop. -/
theorem walk_eq_none_iff : walk networks entries = none ↔ ∀ hop, some hop ∈ entries → trusts networks hop = true := by
  simp only [walk, List.find?_eq_none, List.mem_filterMap, id_eq, exists_eq_right, Bool.not_eq_true', Bool.not_eq_false]

theorem walk_seen_eq_none_iff : walk networks (seen S line) = none ↔
    (Usable line → ∀ hop, some hop ∈ (hops S line).take maximumForwardedHops → trusts networks hop = true) := by
  rw [seen]
  split_ifs with husable
  · rw [walk_eq_none_iff, imp_iff_right husable]
  · exact iff_of_true rfl fun h => absurd h husable

theorem walk_seen_eq_some_iff {hop : IpAddr} : walk networks (seen S line) = some hop ↔
    Usable line ∧ walk networks ((hops S line).take maximumForwardedHops) = some hop := by
  rw [seen]
  split_ifs with husable
  · rw [and_iff_right husable]
  · exact iff_of_false nofun fun h => husable h.1

theorem walk_cons (hop : IpAddr) (rest : List (Option IpAddr)) :
    walk networks (some hop :: rest) = if trusts networks hop then walk networks rest else some hop := by
  simp only [walk, List.filterMap_cons, id_eq, List.find?_cons]
  cases trusts networks hop <;> rfl

/-- Past trusted hops, an entry that can be read and is none is what the walk finds, if it gets that far. -/
theorem walk_of_deciding {hop : IpAddr} {n : Nat} (h : deciding networks entries = some (some hop)) :
    walk networks (entries.take n) = some hop ↔ (entries.takeWhile (trustedHop networks)).length < n := by
  induction entries generalizing n with
  | nil => cases h
  | cons entry rest ih =>
    cases n with
    | zero => exact iff_of_false nofun (Nat.not_lt_zero _)
    | succ n =>
      cases htrusted : trustedHop networks entry with
      | true =>
        rw [deciding, List.find?_cons_of_neg (by rw [htrusted]; decide)] at h
        rw [List.takeWhile_cons_of_pos htrusted, List.length_cons, Nat.succ_lt_succ_iff, ← ih h, List.take_succ_cons]
        obtain ⟨hop', rfl, hhop'⟩ := (Option.any_eq_true _ _).mp htrusted
        rw [walk_cons, if_pos hhop']
      | false =>
        rw [deciding, List.find?_cons_of_pos (by rw [htrusted]; rfl)] at h
        obtain rfl := Option.some.inj h
        have hhop : ¬ trusts networks hop = true := Bool.not_eq_true _ ▸ htrusted
        rw [List.takeWhile_cons_of_neg (by rw [htrusted]; decide), List.take_succ_cons, walk_cons, if_neg hhop]
        exact iff_of_true rfl (Nat.succ_pos n)

/-- No entry decides if all are trusted hops. -/
theorem walk_of_no_deciding {n : Nat} (h : deciding networks entries = none) :
    walk networks (entries.take n) = none := by
  refine walk_eq_none_iff.mpr fun hop hmem => ?_
  have hhop := List.find?_eq_none.mp h (some hop) (List.mem_of_mem_take hmem)
  rwa [Bool.not_eq_true', Bool.not_eq_false] at hhop

/-- The later lines decide before the first. -/
theorem deciding_chain (first : Bytes) (rest : List Bytes) : deciding networks (chain S (first :: rest)) =
    (deciding networks (chain S rest)).or (deciding networks (hops S first)) := by
  simp only [chain, deciding, List.reverse_cons, List.flatMap_append, List.flatMap_singleton, List.find?_append]

/-- A trusted peer is told from what the walk finds and from what decides: neither is trusted. -/
theorem sourceIp_eq_rightful_iff (htrusted : trusts networks peer = true) (first : Bytes) (rest : List Bytes) :
    sourceIp S networks (some peer) (first :: rest) = some (rightful networks peer (chain S (first :: rest))) ↔
      walk networks (seen S first) = (deciding networks (chain S (first :: rest))).join := by
  rw [sourceIp_of_trusted htrusted, Option.some.injEq, rightful]
  have hwalk : ∀ hop, walk networks (seen S first) = some hop → trusts networks hop = false := fun hop h => by
    simpa only [Bool.not_eq_true'] using List.find?_some h
  have hjoin : ∀ hop, (deciding networks (chain S (first :: rest))).join = some hop → trusts networks hop = false :=
    fun hop h => by simpa [trustedHop] using List.find?_some (Option.join_eq_some_iff.mp h)
  generalize walk networks (seen S first) = a at hwalk ⊢
  generalize (deciding networks (chain S (first :: rest))).join = b at hjoin ⊢
  refine ⟨fun hsame => ?_, fun hsame => by rw [hsame]⟩
  cases a <;> cases b <;> simp_all

/-- The address a request is attributed to.  An untrusted peer is attributed to itself.  Of a trusted peer's header the
first line alone counts.  If the later lines are trusted hops throughout, the attribution is rightful exactly if a
deciding address stands in a first line that is looked into, within the limit of hops, and a deciding entry that
cannot be read has no untrusted address to its left within that limit.  If the later lines decide, the walk over the
first must come to the same address by itself.  What is rightful depends on nothing to the left of the deciding
entry. -/
theorem sourceIp_rightful_iff (S : AddressSyntax) (networks : List Network) (peer : IpAddr) :
    ((¬ ∃ n ∈ networks, n.Covers peer) → ∀ lines, sourceIp S networks (some peer) lines = some peer) ∧
    sourceIp S networks (some peer) [] = some (rightful networks peer (chain S [])) ∧
    (∀ first rest, sourceIp S networks (some peer) (first :: rest) = sourceIp S networks (some peer) [first]) ∧
    ((∃ n ∈ networks, n.Covers peer) → ∀ first rest,
      (sourceIp S networks (some peer) (first :: rest) = some (rightful networks peer (chain S (first :: rest))) ↔
        (deciding networks (chain S rest) = none →
          (∀ hop, deciding networks (hops S first) = some (some hop) →
            Usable first ∧ ((hops S first).takeWhile (trustedHop networks)).length < maximumForwardedHops) ∧
          (deciding networks (hops S first) = some none → Usable first →
            ∀ hop, some hop ∈ (hops S first).take maximumForwardedHops → ∃ n ∈ networks, n.Covers hop)) ∧
        (∀ hop, deciding networks (chain S rest) = some (some hop) →
          Usable first ∧ walk networks ((hops S first).take maximumForwardedHops) = some hop) ∧
        (deciding networks (chain S rest) = some none → Usable first →
          ∀ hop, some hop ∈ (hops S first).take maximumForwardedHops → ∃ n ∈ networks, n.Covers hop))) ∧
    ∀ right left left', (deciding networks right).isSome →
      rightful networks peer (right ++ left) = rightful networks peer (right ++ left') := by
  refine ⟨fun hpeer lines => ?_, ite_self _, fun first rest => rfl, fun hpeer first rest => ?_,
    fun right left left' hright => ?_⟩
  · rw [← trusts_iff, Bool.not_eq_true] at hpeer
    exact sourceIp_of_untrusted hpeer lines
  · rw [← trusts_iff] at hpeer
    simp only [← trusts_iff]
    rw [sourceIp_eq_rightful_iff hpeer, deciding_chain]
    -- the later lines decide, or the first does
    cases hrest : deciding networks (chain S rest) with
    | some entry =>
      rw [Option.some_or, Option.join_some]
      cases entry with
      | none => simp [walk_seen_eq_none_iff]
      | some hop => simp [walk_seen_eq_some_iff]
    | none =>
      rw [Option.none_or]
      cases hfirst : deciding networks (hops S first) with
      | none => simpa [walk_seen_eq_none_iff] using fun _ => walk_eq_none_iff.mp (walk_of_no_deciding hfirst)
      | some entry =>
        cases entry with
        | none => simp [walk_seen_eq_none_iff]
        | some hop => simp [walk_seen_eq_some_iff, walk_of_deciding hfirst]
  · obtain ⟨entry, hentry⟩ := Option.isSome_iff_exists.mp hright
    rw [rightful, rightful, deciding, deciding, List.find?_append, List.find?_append,
      show right.find? _ = some entry from hentry]
    rfl

end Walk

namespace Sample

def decimal (digits : Bytes) : Option Nat :=
  if digits = [] ∨ 3 < digits.length ∨ digits.any (fun b => b < 0x30 || 0x39 < b) ∨ 1 < digits.length ∧
    digits.head? = some 0x30 then none
  else some (digits.foldl (fun n b => 10 * n + (b.toNat - 0x30)) 0)

/-- IPv4 addresses as dotted decimal numbers. -/
def dotted : AddressSyntax where
  v4 text :=
    let parts := (text.splitOn 0x2E).filterMap decimal
    if (text.splitOn 0x2E).length = 4 ∧ parts.length = 4 ∧ parts.all (· < 256) then
      some (.ofNat 32 (parts.foldl (fun n d => 256 * n + d) 0))
    else none
  v6 _ := none

/-- The deployment runs the hops of 10.0.0.0/8. -/
def hopsOfTen : List Network := [⟨.v4 0x0A000000, 8, by decide⟩]

end Sample

/-- The second proxy adds a line of its own. -/
theorem sourceIp_rightful_appended :
    sourceIp Sample.dotted Sample.hopsOfTen (some (.v4 0x0A000001))
        [asBytes "198.51.100.66, 203.0.113.9", asBytes "10.0.0.2"] =
      some (rightful Sample.hopsOfTen (.v4 0x0A000001)
        (chain Sample.dotted [asBytes "198.51.100.66, 203.0.113.9", asBytes "10.0.0.2"])) := by
  have hpeer := (trusts_iff Sample.hopsOfTen (.v4 0x0A000001)).mp (by decide +kernel)
  have hrest : deciding Sample.hopsOfTen (chain Sample.dotted [asBytes "10.0.0.2"]) = none := by decide +kernel
  refine ((sourceIp_rightful_iff Sample.dotted Sample.hopsOfTen (.v4 0x0A000001)).2.2.2.1 hpeer _ _).mpr
    ⟨fun _ => ⟨fun _ _ => by decide +kernel, fun h => absurd h (by decide +kernel)⟩, ?_, ?_⟩
  · exact fun hop h => nomatch hrest.symm.trans h
  · exact fun h => nomatch hrest.symm.trans h

/-- A client at 203.0.113.9 that sends a line of its own, a line that is too long, and entries beside one that cannot be
read. -/
theorem sourceIp_chosen :
    sourceIp Sample.dotted Sample.hopsOfTen (some (.v4 0x0A000001)) [asBytes "198.51.100.66", asBytes "203.0.113.9"] =
      some (.v4 0xC6336442) ∧
    rightful Sample.hopsOfTen (.v4 0x0A000001) (chain Sample.dotted [asBytes "198.51.100.66", asBytes "203.0.113.9"]) =
      .v4 0xCB007109 ∧
    sourceIp Sample.dotted Sample.hopsOfTen (some (.v4 0x0A000001)) [List.replicate 1024 0x61 ++
      asBytes ", 203.0.113.9"] = some (.v4 0x0A000001) ∧
    rightful Sample.hopsOfTen (.v4 0x0A000001)
      (chain Sample.dotted [List.replicate 1024 0x61 ++ asBytes ", 203.0.113.9"]) = .v4 0xCB007109 ∧
    sourceIp Sample.dotted Sample.hopsOfTen (some (.v4 0x0A000001))
      [asBytes "198.51.100.66, unknown"] = some (.v4 0xC6336442) ∧
    rightful Sample.hopsOfTen (.v4 0x0A000001) (chain Sample.dotted [asBytes "198.51.100.66, unknown"]) =
      .v4 0x0A000001 := by
  decide +kernel

end RecordStore.Core
