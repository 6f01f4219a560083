import RecordStore.Core.Address

/-!
# Events.Target — where a webhook is delivered to

A delivery resolves its host, refuses if one of the addresses is not public, and connects to the addresses it checked.
`isPublicIp` knows fewer blocks than the special-purpose registries; `Missed` are the addresses it lets pass.
-/

namespace RecordStore.Events

open RecordStore.Core

/-! ## Blocks of addresses -/

/-- The address lies in the block of the base and prefix length. -/
def within {w : Nat} (block : Nat × Nat) (address : BitVec w) : Bool :=
  address.toNat / 2 ^ (w - block.2) = block.1 / 2 ^ (w - block.2)

/-- `is_private`. -/
def isPrivate (ip : BitVec 32) : Bool :=
  within (0x0A000000, 8) ip || within (0xAC100000, 12) ip || within (0xC0A80000, 16) ip

/-- `is_documentation`. -/
def isDocumentation (ip : BitVec 32) : Bool :=
  within (0xC0000200, 24) ip || within (0xC6336400, 24) ip || within (0xCB007100, 24) ip

def isPublicV4 (ip : BitVec 32) : Bool :=
  !(isPrivate ip || within (0x7F000000, 8) ip || within (0xA9FE0000, 16) ip || ip.toNat = 0xFFFFFFFF ||
    isDocumentation ip || ip.toNat = 0 || ip.toNat / 2 ^ 24 = 0 || 224 ≤ ip.toNat / 2 ^ 24)

def isPublicV6 (ip : BitVec 128) : Bool :=
  !(ip.toNat = 1 || ip.toNat = 0 || within (0xFC00 * 2 ^ 112, 7) ip || within (0xFE80 * 2 ^ 112, 10) ip ||
    (toIpv4Mapped ip).any fun mapped => !isPublicV4 mapped)

/-- `is_public_ip`. -/
def isPublicIp : IpAddr → Bool
  | .v4 ip => isPublicV4 ip
  | .v6 ip => isPublicV6 ip

/-! ## The special-purpose registries -/

/-- The IPv4 blocks that are not globally reachable, with multicast. -/
def specialV4 : List (Nat × Nat) :=
  [(0x00000000, 8), (0x0A000000, 8), (0x64400000, 10), (0x7F000000, 8), (0xA9FE0000, 16), (0xAC100000, 12),
    (0xC0000000, 24), (0xC0000200, 24), (0xC0586302, 32), (0xC0A80000, 16), (0xC6120000, 15), (0xC6336400, 24),
    (0xCB007100, 24), (0xE0000000, 4), (0xF0000000, 4)]

/-- The two anycast addresses of 192.0.0.0/24 that are. -/
def exemptV4 : List (Nat × Nat) := [(0xC0000009, 32), (0xC000000A, 32)]

/-- The IPv6 blocks that are not globally reachable, with multicast.  An IPv4-mapped address counts as what it
embeds. -/
def specialV6 : List (Nat × Nat) :=
  [(0, 128), (1, 128), (0x0064FF9B0001 * 2 ^ 80, 48), (0x0100 * 2 ^ 112, 64), (0x0100000000000001 * 2 ^ 64, 64),
    (0x2001 * 2 ^ 112, 23), (0x20010DB8 * 2 ^ 96, 32), (0x3FFF * 2 ^ 112, 20), (0x5F00 * 2 ^ 112, 16),
    (0xFC00 * 2 ^ 112, 7), (0xFE80 * 2 ^ 112, 10), (0xFF00 * 2 ^ 112, 8)]

/-- The assignments of 2001::/23 that are, or for which the registry does not say. -/
def exemptV6 : List (Nat × Nat) :=
  [(0x20010000 * 2 ^ 96, 32), (0x20010001 * 2 ^ 96 + 1, 128), (0x20010001 * 2 ^ 96 + 2, 128),
    (0x20010001 * 2 ^ 96 + 3, 128),
    (0x20010003 * 2 ^ 96, 32), (0x200100040112 * 2 ^ 80, 48), (0x20010010 * 2 ^ 96, 28), (0x20010020 * 2 ^ 96, 28),
    (0x20010030 * 2 ^ 96, 28)]

def listed {w : Nat} (special exempt : List (Nat × Nat)) (address : BitVec w) : Bool :=
  special.any (within · address) && !exempt.any (within · address)

/-- The IPv4 address in an IPv4-compatible one, one of the NAT64 prefix, and a 6to4 one. -/
def compatible (ip : BitVec 128) : Option (BitVec 32) := if ip.toNat < 2 ^ 32 then some (.ofNat 32 ip.toNat) else none

def nat64 (ip : BitVec 128) : Option (BitVec 32) :=
  if within (0x0064FF9B * 2 ^ 96, 96) ip then some (.ofNat 32 ip.toNat) else none

def sixToFour (ip : BitVec 128) : Option (BitVec 32) :=
  if within (0x2002 * 2 ^ 112, 16) ip then some (.ofNat 32 (ip.toNat / 2 ^ 80)) else none

/-- The address is, or embeds, one that is not globally reachable. -/
def Internal : IpAddr → Prop
  | .v4 ip => listed specialV4 exemptV4 ip
  | .v6 ip => listed specialV6 exemptV6 ip ∨
    ∃ embedded, (toIpv4Mapped ip = some embedded ∨ compatible ip = some embedded ∨ nat64 ip = some embedded ∨
      sixToFour ip = some embedded) ∧
      listed specialV4 exemptV4 embedded

/-- The IPv4 blocks that `is_public_ip` does not know: shared, protocol assignments, the relay, benchmarking. -/
def missedV4 : List (Nat × Nat) := [(0x64400000, 10), (0xC0000000, 24), (0xC0586302, 32), (0xC6120000, 15)]

/-- The IPv6 blocks that it does not know: local NAT64, discard, dummy, protocol assignments, documentation twice,
segment routing, multicast. -/
def missedV6 : List (Nat × Nat) :=
  [(0x0064FF9B0001 * 2 ^ 80, 48), (0x0100 * 2 ^ 112, 64), (0x0100000000000001 * 2 ^ 64, 64), (0x2001 * 2 ^ 112, 23),
    (0x20010DB8 * 2 ^ 96, 32), (0x3FFF * 2 ^ 112, 20), (0x5F00 * 2 ^ 112, 16), (0xFF00 * 2 ^ 112, 8)]

/-- The addresses that are let pass: those of the blocks above, and every embedding but the mapped one of any listed
IPv4 address. -/
def Missed : IpAddr → Prop
  | .v4 ip => listed missedV4 exemptV4 ip
  | .v6 ip => listed missedV6 exemptV6 ip ∨
    (∃ embedded, toIpv4Mapped ip = some embedded ∧ listed missedV4 exemptV4 embedded) ∨
    (1 < ip.toNat ∧ ∃ embedded, compatible ip = some embedded ∧ listed specialV4 exemptV4 embedded) ∨
    ∃ embedded, (nat64 ip = some embedded ∨ sixToFour ip = some embedded) ∧ listed specialV4 exemptV4 embedded

section Blocks

variable {w : Nat}

theorem within_iff {base length : Nat} {address : BitVec w} : within (base, length) address = true ↔
    base / 2 ^ (w - length) * 2 ^ (w - length) ≤ address.toNat ∧
      address.toNat < base / 2 ^ (w - length) * 2 ^ (w - length) + 2 ^ (w - length) := by
  have hpos := Nat.two_pow_pos (w - length)
  unfold within
  dsimp only
  rw [decide_eq_true_iff, Nat.div_eq_iff hpos]
  omega

theorem missedV4_iff (ip : BitVec 32) :
    isPublicV4 ip = true ∧ listed specialV4 exemptV4 ip = true ↔ listed missedV4 exemptV4 ip = true := by
  simp only [isPublicV4, isPrivate, isDocumentation, listed, specialV4, exemptV4, missedV4, List.any_cons, List.any_nil,
    Bool.or_false,
    Bool.not_eq_true', Bool.and_eq_true, Bool.or_eq_true, ← Bool.not_eq_true, within_iff, decide_eq_true_iff,
    Nat.reduceSub, Nat.reducePow, Nat.reduceDiv, Nat.reduceMul, Nat.reduceAdd]
  omega

/-- What `is_public_ip` asks of an IPv6 address itself. -/
def Plain (ip : BitVec 128) : Prop :=
  1 < ip.toNat ∧ ¬ within (0xFC00 * 2 ^ 112, 7) ip = true ∧ ¬ within (0xFE80 * 2 ^ 112, 10) ip = true

theorem isPublicV6_iff (ip : BitVec 128) :
    isPublicV6 ip = true ↔ Plain ip ∧ ∀ mapped, toIpv4Mapped ip = some mapped → isPublicV4 mapped = true := by
  have hmapped : ¬ ((toIpv4Mapped ip).any fun mapped => !isPublicV4 mapped) = true ↔
      ∀ mapped, toIpv4Mapped ip = some mapped → isPublicV4 mapped = true := by
    rw [Option.any_eq_true]
    constructor
    · intro h mapped hm
      by_contra hpublic
      exact h ⟨mapped, hm, by rw [Bool.not_eq_true _ |>.mp hpublic]; rfl⟩
    · rintro h ⟨mapped, hm, hnot⟩
      rw [h mapped hm] at hnot
      cases hnot
  rw [← hmapped, isPublicV6, Plain, Bool.not_eq_true', ← Bool.not_eq_true]
  simp only [Bool.or_eq_true, decide_eq_true_iff, not_or]
  constructor
  · rintro ⟨⟨⟨⟨hone, hzero⟩, hlocal⟩, hlink⟩, hm⟩
    exact ⟨⟨by omega, hlocal, hlink⟩, hm⟩
  · rintro ⟨⟨hlt, hlocal, hlink⟩, hm⟩
    exact ⟨⟨⟨⟨by omega, by omega⟩, hlocal⟩, hlink⟩, hm⟩

theorem missedV6_iff (ip : BitVec 128) :
    Plain ip ∧ listed specialV6 exemptV6 ip = true ↔ listed missedV6 exemptV6 ip = true := by
  simp only [Plain, listed, specialV6, exemptV6, missedV6, List.any_cons, List.any_nil, Bool.or_false,
    Bool.not_eq_true', Bool.and_eq_true,
    Bool.or_eq_true, ← Bool.not_eq_true, within_iff, Nat.reduceSub, Nat.reducePow, Nat.reduceDiv, Nat.reduceMul,
      Nat.reduceAdd]
  omega

theorem toIpv4Mapped_eq_none {ip : BitVec 128} (h : ip.toNat / 2 ^ 32 ≠ 0xFFFF) : toIpv4Mapped ip = none := if_neg h

theorem unmapped_of_missedV6 {ip : BitVec 128} (h : listed missedV6 exemptV6 ip = true) : toIpv4Mapped ip = none := by
  refine toIpv4Mapped_eq_none ?_
  simp only [listed, missedV6, List.any_cons, List.any_nil, Bool.or_false, Bool.and_eq_true, Bool.or_eq_true,
    within_iff, Nat.reduceSub,
    Nat.reducePow, Nat.reduceDiv, Nat.reduceMul, Nat.reduceAdd] at h
  omega

/-- Addresses of the low half are no local ones. -/
theorem plain_of_lt {ip : BitVec 128} (hlow : 1 < ip.toNat) (hhigh : ip.toNat < 0xFC00 * 2 ^ 112) : Plain ip := by
  refine ⟨hlow, ?_, ?_⟩ <;>
    simp only [within_iff, Nat.reduceSub, Nat.reducePow, Nat.reduceDiv, Nat.reduceMul,
      Nat.reduceAdd] at hhigh ⊢ <;> omega

theorem isPublicV6_of_lt {ip : BitVec 128} (hlow : 1 < ip.toNat) (hhigh : ip.toNat < 0xFC00 * 2 ^ 112)
    (hunmapped : ip.toNat / 2 ^ 32 ≠ 0xFFFF) : isPublicV6 ip = true := by
  refine (isPublicV6_iff ip).mpr ⟨plain_of_lt hlow hhigh, fun mapped hm => ?_⟩
  rw [toIpv4Mapped_eq_none hunmapped] at hm
  cases hm

/-- Exactly the missed addresses are internal and pass for public. -/
theorem missed_iff (ip : IpAddr) : isPublicIp ip = true ∧ Internal ip ↔ Missed ip := by
  cases ip with
  | v4 ip => exact missedV4_iff ip
  | v6 ip =>
    change isPublicV6 ip = true ∧ Internal (.v6 ip) ↔ Missed (.v6 ip)
    constructor
    · rintro ⟨hpublic, hinternal⟩
      obtain ⟨hplain, hmapped⟩ := (isPublicV6_iff ip).mp hpublic
      rcases hinternal with hlisted | ⟨embedded, hm | hc | hn | hs, hlisted⟩
      · exact .inl ((missedV6_iff ip).mp ⟨hplain, hlisted⟩)
      · exact .inr (.inl ⟨embedded, hm, (missedV4_iff embedded).mp ⟨hmapped embedded hm, hlisted⟩⟩)
      · exact .inr (.inr (.inl ⟨hplain.1, embedded, hc, hlisted⟩))
      · exact .inr (.inr (.inr ⟨embedded, .inl hn, hlisted⟩))
      · exact .inr (.inr (.inr ⟨embedded, .inr hs, hlisted⟩))
    · rintro (hlisted | ⟨embedded, hm, hlisted⟩ | ⟨hlow, embedded, hc, hlisted⟩ | ⟨embedded, hn | hs, hlisted⟩)
      · obtain ⟨hplain, hspecial⟩ := (missedV6_iff ip).mpr hlisted
        refine ⟨(isPublicV6_iff ip).mpr ⟨hplain, fun mapped hm => ?_⟩, .inl hspecial⟩
        rw [unmapped_of_missedV6 hlisted] at hm
        cases hm
      · obtain ⟨hpublic, hspecial⟩ := (missedV4_iff embedded).mpr hlisted
        refine ⟨(isPublicV6_iff ip).mpr ⟨?_, fun mapped hm' => ?_⟩, .inr ⟨embedded, .inl hm, hspecial⟩⟩
        · unfold toIpv4Mapped at hm
          split_ifs at hm with hrange
          exact plain_of_lt (by omega) (by omega)
        · rwa [← Option.some.inj (hm.symm.trans hm')]
      · refine ⟨?_, .inr ⟨embedded, .inr (.inl hc), hlisted⟩⟩
        unfold compatible at hc
        split_ifs at hc with hrange
        exact isPublicV6_of_lt hlow (by omega) (by omega)
      · refine ⟨?_, .inr ⟨embedded, .inr (.inr (.inl hn)), hlisted⟩⟩
        unfold nat64 at hn
        split_ifs at hn with hrange
        simp only [within_iff, Nat.reduceSub, Nat.reducePow, Nat.reduceDiv, Nat.reduceMul, Nat.reduceAdd] at hrange
        exact isPublicV6_of_lt (by omega) (by omega) (by omega)
      · refine ⟨?_, .inr ⟨embedded, .inr (.inr (.inr hs)), hlisted⟩⟩
        unfold sixToFour at hs
        split_ifs at hs with hrange
        simp only [within_iff, Nat.reduceSub, Nat.reducePow, Nat.reduceDiv, Nat.reduceMul, Nat.reduceAdd] at hrange
        exact isPublicV6_of_lt (by omega) (by omega) (by omega)

end Blocks

/-! ## Deliveries -/

/-- `WebhookConfig`, as far as deliveries read it, validated. -/
structure WebhookConfig where
  allowHttp : Bool
  allowPrivateNetworks : Bool
  maximumAttempts : Nat
  attempts_pos : 1 ≤ maximumAttempts
  attempts_le : maximumAttempts ≤ 32

/-- A parsed URL; the port is `port_or_known_default`. -/
structure Url where
  scheme : String
  username : String
  password : Option String
  fragment : Option String
  host : Option String
  port : Option Nat

inductive EventError where
  | invalidTarget
  | resolveTarget
  | privateTarget
  | httpClient
  | crypto
  | inconsistentState
  deriving DecidableEq

structure ValidatedTarget where
  host : String
  addresses : List IpAddr

/-- What a delivery finds outside the database: the URL's parts, the answer of name resolution, and whether the HTTP
client can be built and the secret decrypted. -/
structure Surroundings where
  parse : String → Option Url
  lookupHost : String → Nat → Option (List IpAddr)
  clientBuilds : Bool
  secretDecrypts : Bool

def validateTarget (config : WebhookConfig) (env : Surroundings) (target : String) :
    Except EventError ValidatedTarget :=
  match env.parse target with
  | none => .error .invalidTarget
  | some url =>
    if ¬ (url.scheme = "https" ∨ config.allowHttp ∧ url.scheme = "http") ∨ url.username ≠ "" ∨ url.password.isSome ∨
      url.fragment.isSome then
      .error .invalidTarget
    else match url.host, url.port with
      | some host, some port =>
        match env.lookupHost host port with
        | none => .error .resolveTarget
        | some addresses =>
          if addresses = [] then .error .invalidTarget
          else if !config.allowPrivateNetworks && addresses.any (!isPublicIp ·) then .error .privateTarget
          else .ok ⟨host, addresses⟩
      | _, _ => .error .invalidTarget

/-- What becomes of a delivery: its row is removed, it fails before a connection, or the client connects. -/
inductive Dispatch where
  | removed
  | failed (error : EventError)
  | connected (host : String) (addresses : List IpAddr)
  deriving DecidableEq

/-- `deliver_one` up to the request; `subscription` is the target and whether it is enabled. -/
def deliverOne (config : WebhookConfig) (env : Surroundings) (eventFound : Bool)
    (subscription : Option (String × Bool)) : Dispatch :=
  match subscription with
  | none => .removed
  | some (target, enabled) =>
    if !enabled then .removed
    else if !eventFound then .failed .inconsistentState
    else match validateTarget config env target with
      | .error e => .failed e
      | .ok target =>
        if !env.clientBuilds then .failed .httpClient
        else if !env.secretDecrypts then .failed .crypto
        else .connected target.host target.addresses

/-- A delivery that is due asks for its target's host, and the client and the secret are there: the lookup answers with
the addresses. -/
structure Resolves (config : WebhookConfig) (env : Surroundings) (eventFound : Bool)
    (subscription : Option (String × Bool)) (host : String) (addresses : List IpAddr) : Prop where
  ready : eventFound = true ∧ env.clientBuilds = true ∧ env.secretDecrypts = true
  nonempty : addresses ≠ []
  answered : ∃ target url port, subscription = some (target, true) ∧ env.parse target = some url ∧
    (url.scheme = "https" ∨ config.allowHttp = true ∧ url.scheme = "http") ∧ url.username = "" ∧ url.password = none ∧
    url.fragment = none ∧ url.host = some host ∧ url.port = some port ∧ env.lookupHost host port = some addresses

section Deliveries

variable {config : WebhookConfig} {env : Surroundings} {target : String}

/-- The addresses of a validated target are those of one lookup, and all of them pass for public. -/
theorem validateTarget_ok_iff (hprivate : config.allowPrivateNetworks = false) {host : String}
    {addresses : List IpAddr} :
    validateTarget config env target = .ok ⟨host, addresses⟩ ↔ (∃ url port, env.parse target = some url ∧
      (url.scheme = "https" ∨ config.allowHttp = true ∧ url.scheme = "http") ∧ url.username = "" ∧ url.password = none ∧
      url.fragment = none ∧ url.host = some host ∧ url.port = some port ∧ env.lookupHost host port = some addresses) ∧
      addresses ≠ [] ∧ ∀ ip ∈ addresses, isPublicIp ip = true := by
  have hany : ∀ l : List IpAddr, l.any (!isPublicIp ·) = true ↔ ¬ ∀ ip ∈ l, isPublicIp ip = true := by simp
  constructor
  · intro h
    unfold validateTarget at h
    split at h
    · cases h
    · next url hparse =>
      split_ifs at h with hrefused
      rw [not_or, not_not, not_or, not_not, not_or, Option.not_isSome_iff_eq_none,
        Option.not_isSome_iff_eq_none] at hrefused
      split at h
      · next host' port hhost hport =>
        split at h
        · cases h
        · next hlookup =>
          rw [hprivate, Bool.not_false, Bool.true_and] at h
          split_ifs at h with hempty hpublic
          obtain ⟨rfl, rfl⟩ := ValidatedTarget.mk.inj (Except.ok.inj h)
          rw [hany, not_not] at hpublic
          obtain ⟨hscheme, husername, hpassword, hfragment⟩ := hrefused
          exact ⟨⟨url, port, hparse, hscheme, husername, hpassword, hfragment, hhost, hport, hlookup⟩, hempty, hpublic⟩
      · cases h
  · rintro ⟨⟨url, port, hparse, hscheme, husername, hpassword, hfragment, hhost, hport, hlookup⟩, hempty, hpublic⟩
    simp only [validateTarget, hparse, hhost, hport, hlookup]
    rw [if_neg (by simp [hscheme, husername, hpassword, hfragment]), if_neg hempty,
      if_neg (by rw [hprivate, Bool.not_false, Bool.true_and, hany]; exact not_not_intro hpublic)]

/-- The client connects to what the lookup answered, if all of it passes for public. -/
theorem deliverOne_connected_iff (hprivate : config.allowPrivateNetworks = false) {eventFound : Bool}
    {subscription : Option (String × Bool)} {host : String} {addresses : List IpAddr} :
    deliverOne config env eventFound subscription = .connected host addresses ↔
      Resolves config env eventFound subscription host addresses ∧ ∀ ip ∈ addresses, isPublicIp ip = true := by
  constructor
  · intro h
    cases subscription with
    | none => cases h
    | some subscription =>
      obtain ⟨target, enabled⟩ := subscription
      cases hvalid : validateTarget config env target with
      | error e =>
        simp only [deliverOne, hvalid] at h
        split_ifs at h
      | ok v =>
        simp only [deliverOne, hvalid] at h
        split_ifs at h with hdisabled hmissing hclient hsecret
        obtain ⟨rfl, rfl⟩ := Dispatch.connected.inj h
        obtain ⟨⟨url, port, hanswer⟩, hempty, hpublic⟩ := (validateTarget_ok_iff hprivate).mp hvalid
        simp only [Bool.not_eq_true', Bool.not_eq_false] at hdisabled hmissing hclient hsecret
        exact ⟨⟨⟨hmissing, hclient, hsecret⟩, hempty, ⟨target, url, port, by rw [hdisabled], hanswer⟩⟩, hpublic⟩
  · rintro ⟨⟨⟨hfound, hclient, hsecret⟩, hempty, target, url, port, rfl, hanswer⟩, hpublic⟩
    have hvalid := (validateTarget_ok_iff hprivate).mpr ⟨⟨url, port, hanswer⟩, hempty, hpublic⟩
    simp [deliverOne, hvalid, hfound, hclient, hsecret]

/-- With private networks not allowed, a delivery keeps to addresses that neither are nor embed internal ones exactly if
the lookup's answer, where all of it passes for public, has no missed address; and it connects to what it resolved and
checked. -/
theorem deliverOne_external_iff (config : WebhookConfig) (hprivate : config.allowPrivateNetworks = false)
    (env : Surroundings) (eventFound : Bool) (subscription : Option (String × Bool)) :
    ((∀ host addresses, deliverOne config env eventFound subscription = .connected host addresses → ∀ ip ∈ addresses,
      ¬ Internal ip) ↔
      ∀ host addresses, Resolves config env eventFound subscription host addresses →
        (∀ ip ∈ addresses, isPublicIp ip = true) → ∀ ip ∈ addresses, ¬ Missed ip) ∧
    ∀ host addresses, deliverOne config env eventFound subscription = .connected host addresses →
      (∃ port, env.lookupHost host port = some addresses) ∧ ∀ ip ∈ addresses, isPublicIp ip = true := by
  refine ⟨⟨fun h host addresses hres hpublic ip hip hmissed => ?_, fun h host addresses hc ip hip hinternal => ?_⟩,
    fun host addresses hc => ?_⟩
  · have hc := (deliverOne_connected_iff hprivate).mpr ⟨hres, hpublic⟩
    exact h host addresses hc ip hip ((missed_iff ip).mpr hmissed).2
  · obtain ⟨hres, hpublic⟩ := (deliverOne_connected_iff hprivate).mp hc
    exact h host addresses hres hpublic ip hip ((missed_iff ip).mp ⟨hpublic ip hip, hinternal⟩)
  · obtain ⟨⟨-, -, target, url, port, hanswer⟩, hpublic⟩ := (deliverOne_connected_iff hprivate).mp hc
    obtain ⟨-, -, -, -, -, -, -, -, hlookup⟩ := hanswer
    exact ⟨⟨port, hlookup⟩, hpublic⟩

end Deliveries

namespace Sample

def strict : WebhookConfig := ⟨false, false, 6, by decide, by decide⟩

/-- A host that resolves to the addresses. -/
def resolving (addresses : List IpAddr) : Surroundings :=
  ⟨fun _ => some ⟨"https", "", none, none, some "hooks.example", some 443⟩, fun _ _ => some addresses, true, true⟩

/-- A shared address, one for benchmarking, IPv6 multicast, and loopback embedded for NAT64, as 6to4 and as
IPv4-compatible. -/
def internalTargets : List IpAddr :=
  [.v4 0x64400001, .v4 0xC6120001, .v6 (.ofNat 128 (0xFF02 * 2 ^ 112 + 1)),
    .v6 (.ofNat 128 (0x0064FF9B * 2 ^ 96 + 0x7F000001)),
    .v6 (.ofNat 128 (0x2002 * 2 ^ 112 + 0x7F000001 * 2 ^ 80)), .v6 (.ofNat 128 0x7F000001)]

end Sample

/-- 192.0.0.9 is reached and may be; 10.0.0.1 is refused. -/
theorem deliverOne_external_sample :
    (deliverOne Sample.strict (Sample.resolving [.v4 0xC0000009]) true (some ("https://hooks.example", true)) =
      .connected "hooks.example" [.v4 0xC0000009]) ∧
    (∀ host addresses, deliverOne Sample.strict (Sample.resolving [.v4 0xC0000009]) true
      (some ("https://hooks.example", true)) = .connected host addresses → ∀ ip ∈ addresses, ¬ Internal ip) ∧
    deliverOne Sample.strict (Sample.resolving [.v4 0xC0000009, .v4 0x0A000001]) true
      (some ("https://hooks.example", true)) = .failed .privateTarget := by
  have hc : deliverOne Sample.strict (Sample.resolving [.v4 0xC0000009]) true (some ("https://hooks.example", true)) =
      .connected "hooks.example" [.v4 0xC0000009] := by decide +kernel
  refine ⟨hc, (deliverOne_external_iff Sample.strict rfl (Sample.resolving [.v4 0xC0000009]) true _).1.mpr ?_,
    by decide +kernel⟩
  intro host addresses hres _ ip hip
  obtain ⟨-, -, target, url, port, -, -, -, -, -, -, -, -, hlookup⟩ := hres
  obtain rfl := Option.some.inj hlookup
  obtain rfl := List.mem_singleton.mp hip
  exact (by decide +kernel : ¬ listed missedV4 exemptV4 (0xC0000009 : BitVec 32) = true)

theorem deliverOne_internal :
    (∀ ip ∈ Sample.internalTargets, Internal ip) ∧
    deliverOne Sample.strict (Sample.resolving Sample.internalTargets) true (some ("https://hooks.example", true)) =
      .connected "hooks.example" Sample.internalTargets := by
  refine ⟨fun ip hip => ?_, by decide +kernel⟩
  refine ((missed_iff ip).mpr ?_).2
  simp only [Sample.internalTargets, List.mem_cons, List.not_mem_nil, or_false] at hip
  rcases hip with rfl | rfl | rfl | rfl | rfl | rfl
  · exact (by decide +kernel : listed missedV4 exemptV4 (0x64400001 : BitVec 32) = true)
  · exact (by decide +kernel : listed missedV4 exemptV4 (0xC6120001 : BitVec 32) = true)
  · exact .inl (by decide +kernel)
  · exact .inr (.inr (.inr ⟨0x7F000001, .inl (by decide +kernel), by decide +kernel⟩))
  · exact .inr (.inr (.inr ⟨0x7F000001, .inr (by decide +kernel), by decide +kernel⟩))
  · exact .inr (.inr (.inl ⟨by decide +kernel, 0x7F000001, by decide +kernel, by decide +kernel⟩))

end RecordStore.Events
