import RecordStore.Lib.Pool
import RecordStore.Core.Values

/-!
# Sharing.Share — share links under concurrent use

A share link is judged in one transaction and its budget consumed in another, which judges it again.  Visitors, unlock
calls, revocations and deletions interleave at their transactions; `granted` and `issued` record what was handed out.
-/

namespace RecordStore.Sharing

open RecordStore.Lib RecordStore.Core

abbrev ShareLinkId := Uuid

/-! ## Links -/

inductive CapabilityStatus where
  | active
  | revoked
  | expired
  | exhausted
  deriving DecidableEq

def CapabilityStatus.usable (status : CapabilityStatus) : Bool := status = .active

inductive SharePermission where
  | view
  | download
  | viewAndDownload
  deriving DecidableEq

def SharePermission.allowsView (p : SharePermission) : Bool := p = .view || p = .viewAndDownload

def SharePermission.allowsDownload (p : SharePermission) : Bool := p = .download || p = .viewAndDownload

/-- What decides about access to a share. -/
structure ShareLink where
  id : ShareLinkId
  expiresAt : Option DateTime
  permission : SharePermission
  -- the verifier of the password
  password : Option String
  maximumAccessCount : Option UInt32
  accessCount : UInt32
  revokedAt : Option DateTime
  lastAccessedAt : Option DateTime
  deriving DecidableEq

def ShareLink.status (link : ShareLink) (now : DateTime) : CapabilityStatus :=
  if link.revokedAt.isSome then .revoked
  else if link.expiresAt.any (· ≤ now) then .expired
  else if link.maximumAccessCount.any (· ≤ link.accessCount) then .exhausted
  else .active

/-! ## Tickets -/

/-- The keyed and configured parts of the service. -/
structure Env where
  -- HMAC-SHA256 under the key of the issuer
  sign : Bytes → Bytes
  encodeTag : Bytes → String
  decodeTag : String → Option Bytes
  verifyPassword : String → String → Bool
  -- the second in which a ticket that is issued now expires
  ticketExpiry : DateTime → Int
  -- whether the telemetry interval lies between two instants
  elapsed : DateTime → DateTime → Bool

/-- What is signed: the share, a dot and the expiry in decimal. -/
def ticketMessage (share : ShareLinkId) (expiry : Int) : Bytes := share.bytes ++ 46 :: asBytes (toString expiry)

/-- `TicketIssuer::issue`. -/
def issue (env : Env) (share : ShareLinkId) (expiry : Int) : String :=
  toString expiry ++ "." ++ env.encodeTag (env.sign (ticketMessage share expiry))

/-- `parse::<i64>`. -/
def parseI64 (text : List Char) : Option Int :=
  let digits := if text.head? = some '-' ∨ text.head? = some '+' then text.drop 1 else text
  let magnitude : Int := digits.foldl (fun n c => 10 * n + (c.toNat - 48 : Nat)) 0
  let value := if text.head? = some '-' then -magnitude else magnitude
  if digits ≠ [] ∧ digits.all Char.isDigit ∧ -2 ^ 63 ≤ value ∧ value < 2 ^ 63 then some value else none

/-- The expiry and the tag of a presented ticket. -/
def ticketParts (env : Env) (ticket : String) : Option (Int × Bytes) :=
  if 128 < ticket.utf8ByteSize ∨ '.' ∉ ticket.toList then none
  else
    (parseI64 (ticket.toList.takeWhile (· ≠ '.'))).bind fun expiry =>
      (env.decodeTag (String.ofList ((ticket.toList.dropWhile (· ≠ '.')).drop 1))).map fun tag => (expiry, tag)

/-- `TicketIssuer::verify`. -/
def verify (env : Env) (ticket : String) (share : ShareLinkId) (now : DateTime) : Bool :=
  (ticketParts env ticket).any fun p => decide (now.seconds < p.1) && decide (p.2 = env.sign (ticketMessage share p.1))

/-! ## Calls -/

inductive AccessRefusal where
  | unknown
  | notUsable (status : CapabilityStatus)
  deriving DecidableEq

inductive AccessDenial where
  | unavailable (refusal : AccessRefusal)
  | passwordRequired
  | notPermitted
  | throttled (retryAfterSeconds : UInt64)
  deriving DecidableEq

inductive UnlockFailure where
  | unavailable (refusal : AccessRefusal)
  | notPasswordProtected
  | throttled (retryAfterSeconds : UInt64)
  | incorrectPassword
  deriving DecidableEq

/-- The arguments of `authorize_share_access`; the token by its digest. -/
structure Request where
  digest : Bytes
  ticket : Option String
  wantsDownload : Bool
  now : DateTime

/-- The arguments of `unlock_share`. -/
structure Unlock where
  digest : Bytes
  password : String
  now : DateTime

/-- A ticket that was handed out, with the password it was handed out for. -/
structure Issue where
  share : ShareLinkId
  expiry : Int
  password : String

structure Grant where
  share : ShareLinkId
  request : Request

/-- `SHARE_TOKENS` and `SHARES`, and what was handed out. -/
structure Store where
  tokens : Table Bytes ShareLinkId
  shares : Table Bytes ShareLink
  issued : List Issue
  granted : List Grant

/-- What `authorize_share_access` checks of the link it read. -/
def judge (env : Env) (r : Request) (link : ShareLink) : Option AccessDenial :=
  if (link.status r.now).usable = false then some (.unavailable (.notUsable (link.status r.now)))
  else if link.password.isSome ∧ (r.ticket.any fun ticket => verify env ticket link.id r.now) =
    false then some .passwordRequired
  else if (if r.wantsDownload then link.permission.allowsDownload else link.permission.allowsView) =
    false then some .notPermitted
  else none

/-- The link after one more access; the count saturates. -/
def ShareLink.accessed (link : ShareLink) (now : DateTime) : ShareLink :=
  { link with
    accessCount := if link.accessCount.toNat + 1 < 2 ^ 32 then link.accessCount + 1 else link.accessCount
    lastAccessedAt := some now }

/-- `consume_share_access`: only a share with a budget, or one not seen for a while, is written. -/
def consumeShareAccess (env : Env) (id : ShareLinkId) (now : DateTime) (shares : Table Bytes ShareLink) :
    Except AccessRefusal ShareLink × Table Bytes ShareLink :=
  match shares[id.bytes]? with
  | none => (.error .unknown, shares)
  | some link =>
    if (link.status now).usable = false then (.error (.notUsable (link.status now)), shares)
    else (.ok (link.accessed now),
      if link.maximumAccessCount.isSome ∨
        link.lastAccessedAt.all (env.elapsed now) then shares.insert id.bytes (link.accessed now)
      else shares)

/-- `revoke_share`. -/
def Store.revokeShare (s : Store) (id : ShareLinkId) (at_ : DateTime) : Store :=
  match s.shares[id.bytes]? with
  | none => s
  | some link => { s with shares := s.shares.insert id.bytes { link with revokedAt := link.revokedAt.or (some at_) } }

/-- `delete_share`: the first token entry that names the share goes with it. -/
def Store.deleteShare (s : Store) (id : ShareLinkId) : Store :=
  match s.shares[id.bytes]? with
  | none => s
  | some link =>
    { s with
      shares := s.shares.erase id.bytes
      tokens := ((s.tokens.toList.find? (·.2 = link.id)).map fun entry => s.tokens.erase entry.1).getD s.tokens }

/-- A call in progress, by the transaction that comes next. -/
inductive Call where
  | lookUp (r : Request)
  | read (r : Request) (id : ShareLinkId)
  | consume (r : Request) (link : ShareLink)
  | answered (result : Except AccessDenial ShareLink)
  | unlockLookUp (u : Unlock)
  | unlockRead (u : Unlock) (id : ShareLinkId)
  | unlockVerify (u : Unlock) (link : ShareLink)
  | unlocked (result : Except UnlockFailure String)

/-- An unknown token is answered as the probe limiter decides. -/
def unknownToken (throttled : Option UInt64) : AccessDenial := throttled.elim (.unavailable .unknown) .throttled

/-- The next transaction of a call; `throttled` is the decision of the limiter it asks, if it asks one. -/
def Call.step (env : Env) (s : Store) : Call → Option UInt64 → Option (Store × Call)
  | .lookUp r, throttled => some (s, match s.tokens[r.digest]? with
    | none => .answered (.error (unknownToken throttled))
    | some id => .read r id)
  | .read r id, throttled => some (s, match s.shares[id.bytes]? with
    | none => .answered (.error (unknownToken throttled))
    | some link => (judge env r link).elim (.consume r link) fun denial => .answered (.error denial))
  | .consume r link, _ =>
    match consumeShareAccess env link.id r.now s.shares with
    | (.ok updated, shares) => some ({ s with shares := shares, granted := ⟨link.id, r⟩ :: s.granted },
      .answered (.ok updated))
    | (.error refusal, _) => some (s, .answered (.error (.unavailable refusal)))
  | .unlockLookUp u, _ => some (s, match s.tokens[u.digest]? with
    | none => .unlocked (.error (.unavailable .unknown))
    | some id => .unlockRead u id)
  | .unlockRead u id, _ => some (s, match s.shares[id.bytes]? with
    | none => .unlocked (.error (.unavailable .unknown))
    | some link => .unlockVerify u link)
  | .unlockVerify u link, throttled =>
    if (link.status u.now).usable = false then
      some (s, .unlocked (.error (.unavailable (.notUsable (link.status u.now)))))
    else match link.password, throttled with
      | none, _ => some (s, .unlocked (.error .notPasswordProtected))
      | some _, some seconds => some (s, .unlocked (.error (.throttled seconds)))
      | some hash, none =>
        if env.verifyPassword hash u.password then
          some ({ s with issued := ⟨link.id, env.ticketExpiry u.now, u.password⟩ :: s.issued },
            .unlocked (.ok (issue env link.id (env.ticketExpiry u.now))))
        else some (s, .unlocked (.error .incorrectPassword))
  | .answered _, _ | .unlocked _, _ => none

inductive Event where
  | visit (r : Request)
  | enter (u : Unlock)
  | move (i : Nat) (throttled : Option UInt64)
  | revoke (id : ShareLinkId) (at_ : DateTime)
  | delete (id : ShareLinkId)

abbrev Pool := Lib.Pool Store Call

def step (env : Env) (s : Pool) : Event → Option Pool
  | .visit r => some (s.spawn (.lookUp r))
  | .enter u => some (s.spawn (.unlockLookUp u))
  | .move i throttled => s.work (Call.step env) i throttled
  | .revoke id at_ => some { s with shared := s.shared.revokeShare id at_ }
  | .delete id => some { s with shared := s.shared.deleteShare id }

/-! ## What holds in every run -/

/-- HMAC is unforgeable: a presented tag of some message is one that was signed. -/
def Unforgeable (env : Env) (s : Pool) : Event → Prop
  | .visit r => ∀ ticket expiry tag, r.ticket = some ticket → ticketParts env ticket = some (expiry, tag) →
    ∀ share e, tag = env.sign (ticketMessage share e) → ∃ i ∈ s.shared.issued,
      ticketMessage i.share i.expiry = ticketMessage share e
  | _ => True

/-- The request carries the tag of a ticket for the share that was issued and has not expired. -/
def Proven (env : Env) (issued : List Issue) (r : Request) (share : ShareLinkId) : Prop :=
  ∃ ticket expiry tag, r.ticket = some ticket ∧ ticketParts env ticket = some (expiry, tag) ∧ r.now.seconds < expiry ∧
    tag = env.sign (ticketMessage share expiry) ∧ ∃ i ∈ issued, i.share = share ∧ i.expiry = expiry

/-- Two states of one link: what an access or a revocation does not change. -/
structure SameTerms (link link₀ : ShareLink) : Prop where
  expiresAt : link.expiresAt = link₀.expiresAt
  password : link.password = link₀.password
  maximum : link.maximumAccessCount = link₀.maximumAccessCount

/-- A grant by the terms of its link: before the expiry, and with a ticket if there is a password. -/
structure Earned (env : Env) (issued : List Issue) (g : Grant) (link₀ : ShareLink) : Prop where
  unexpired : ∀ expiry, link₀.expiresAt = some expiry → ¬ expiry ≤ g.request.now
  proven : link₀.password.isSome = true → Proven env issued g.request g.share

def Store.grantsOf (s : Store) (id : ShareLinkId) : Nat := s.granted.countP (·.share = id)

/-- What the store keeps, relative to the links at the start. -/
structure Strict (env : Env) (links : Table Bytes ShareLink) (s : Store) : Prop where
  terms : ∀ (k : Bytes) (link : ShareLink), s.shares[k]? = some link →
    k = link.id.bytes ∧ ∃ link₀, links[k]? = some link₀ ∧ SameTerms link link₀
  counted : ∀ (id : ShareLinkId) (link₀ : ShareLink) (most : UInt32), links[id.bytes]? = some link₀ →
    link₀.maximumAccessCount = some most → s.grantsOf id ≤ most.toNat ∧
      ∀ link, s.shares[id.bytes]? = some link → link.accessCount.toNat = s.grantsOf id
  granted : ∀ g ∈ s.granted, ∃ link₀, links[g.share.bytes]? = some link₀ ∧ Earned env s.issued g link₀
  issued : ∀ i ∈ s.issued, ∃ link₀ hash, links[i.share.bytes]? = some link₀ ∧ link₀.password = some hash ∧
    env.verifyPassword hash i.password = true

/-- A request that can prove only what was issued. -/
def Backed (env : Env) (issued : List Issue) (r : Request) : Prop :=
  ∀ share, (r.ticket.any fun ticket => verify env ticket share r.now) = true → Proven env issued r share

/-- A link that was read. -/
def Known (links : Table Bytes ShareLink) (link : ShareLink) : Prop :=
  ∃ link₀, links[link.id.bytes]? = some link₀ ∧ SameTerms link link₀

/-- What a call relies on. -/
def Asserts (env : Env) (links : Table Bytes ShareLink) (s : Store) : Call → Prop
  | .lookUp r | .read r _ => Backed env s.issued r
  | .consume r link => Known links link ∧ (link.password.isSome = true → Proven env s.issued r link.id)
  | .unlockVerify _ link => Known links link
  | _ => True

abbrev Sound (env : Env) (links : Table Bytes ShareLink) (s : Pool) : Prop :=
  s.Holds (Strict env links) (Asserts env links) fun _ _ => True

section Steps

variable {env : Env} {links : Table Bytes ShareLink} {s s' : Store} {r : Request}

theorem Proven.mono {issued issued' : List Issue} {share : ShareLinkId} (h : Proven env issued r share)
    (hsub : ∀ i ∈ issued, i ∈ issued') : Proven env issued' r share := by
  obtain ⟨ticket, expiry, tag, hticket, hparts, hnow, htag, i, hi, hissue⟩ := h
  exact ⟨ticket, expiry, tag, hticket, hparts, hnow, htag, i, hsub i hi, hissue⟩

theorem ticketMessage_inj {share share' : ShareLinkId} {e e' : Int}
    (h : ticketMessage share e = ticketMessage share' e') : share = share' ∧ e = e' := by
  obtain ⟨hshare, hrest⟩ := List.append_inj h (share.length_bytes.trans share'.length_bytes.symm)
  exact ⟨Uuid.ext hshare, Int.repr_injective (asBytes_inj (List.cons.inj hrest).2)⟩

/-- An unforgeable tag backs its request. -/
theorem Unforgeable.backed {s : Pool} (h : Unforgeable env s (.visit r)) : Backed env s.shared.issued r := by
  intro share hverify
  obtain ⟨ticket, hticket, hverify⟩ := (Option.any_eq_true _ _).mp hverify
  obtain ⟨⟨expiry, tag⟩, hparts, hcheck⟩ := (Option.any_eq_true _ _).mp hverify
  simp only [Bool.and_eq_true, decide_eq_true_eq] at hcheck
  obtain ⟨i, hi, hmessage⟩ := h ticket expiry tag hticket hparts share expiry hcheck.2
  exact ⟨ticket, expiry, tag, hticket, hparts, hcheck.1, hcheck.2, i, hi, ticketMessage_inj hmessage⟩

/-- An assertion survives what is issued, whatever happens to the links. -/
theorem Asserts.mono {call : Call} (h : Asserts env links s call) (hsub : ∀ i ∈ s.issued, i ∈ s'.issued) :
    Asserts env links s' call := by
  cases call with
  | lookUp r | read r id => exact fun share hv => (h share hv).mono hsub
  | consume r link => exact ⟨h.1, fun hp => (h.2 hp).mono hsub⟩
  | unlockVerify u link => exact h
  | _ => trivial

/-- A change of one link that keeps its terms and, if it has a budget, its count. -/
theorem Strict.write (h : Strict env links s) {id : ShareLinkId} {link link' : ShareLink}
    (hlink : s.shares[id.bytes]? = some link)
    (hid : link'.id = link.id) (hterms : SameTerms link' link) (hcount : link'.accessCount = link.accessCount) :
    Strict env links { s with shares := s.shares.insert id.bytes link' } := by
  refine ⟨fun k l hk => ?_, fun id' link₀ most hlink₀ hmost => ⟨(h.counted id' link₀ most hlink₀ hmost).1,
    fun l hl => ?_⟩, h.granted, h.issued⟩
  · rcases Table.of_lookup_insert hk with ⟨rfl, rfl⟩ | ⟨-, hk⟩
    · obtain ⟨hkey, link₀, hlink₀, hsame⟩ := h.terms _ _ hlink
      exact ⟨hkey.trans (by rw [hid]), link₀, hlink₀, hterms.expiresAt.trans hsame.expiresAt,
        hterms.password.trans hsame.password,
        hterms.maximum.trans hsame.maximum⟩
    · exact h.terms k l hk
  · rcases Table.of_lookup_insert hl with ⟨hk, rfl⟩ | ⟨-, hl⟩
    · rw [hcount]
      exact (h.counted id' link₀ most hlink₀ hmost).2 link (hk ▸ hlink)
    · exact (h.counted id' link₀ most hlink₀ hmost).2 l hl

theorem Strict.revoke (h : Strict env links s) (id : ShareLinkId) (at_ : DateTime) :
    Strict env links (s.revokeShare id at_) := by
  unfold Store.revokeShare
  split
  · exact h
  · next link hlink => exact h.write hlink rfl ⟨rfl, rfl, rfl⟩ rfl

theorem Strict.delete (h : Strict env links s) (id : ShareLinkId) : Strict env links (s.deleteShare id) := by
  unfold Store.deleteShare
  split
  · exact h
  · refine ⟨fun k l hk => h.terms k l (Table.of_lookup_erase hk).2, fun id' link₀ most hlink₀ hmost => ?_,
      h.granted, h.issued⟩
    exact (h.counted id' link₀ most hlink₀ hmost).imp_right fun hall l hl => hall l (Table.of_lookup_erase hl).2

/-- A link that is usable has no revocation, has not expired and has budget left. -/
theorem usable_iff {link : ShareLink} {now : DateTime} : (link.status now).usable = true ↔ link.revokedAt = none ∧
    (∀ expiry, link.expiresAt = some expiry → ¬ expiry ≤ now) ∧ ∀ most, link.maximumAccessCount = some most →
      link.accessCount < most := by
  unfold ShareLink.status
  split_ifs with hrevoked hexpired hexhausted
  · simp [CapabilityStatus.usable, Option.isSome_iff_ne_none.mp hrevoked]
  · obtain ⟨expiry, he, hle⟩ := (Option.any_eq_true _ _).mp hexpired
    simp only [CapabilityStatus.usable, reduceCtorEq, decide_false, Bool.false_eq_true, false_iff]
    exact fun h => h.2.1 expiry he (of_decide_eq_true hle)
  · obtain ⟨most, hm, hle⟩ := (Option.any_eq_true _ _).mp hexhausted
    simp only [CapabilityStatus.usable, reduceCtorEq, decide_false, Bool.false_eq_true, false_iff]
    exact fun h => absurd (h.2.2 most hm) (UInt32.not_lt.mpr (of_decide_eq_true hle))
  · simp only [CapabilityStatus.usable, decide_true, true_iff]
    refine ⟨by simpa using hrevoked, fun expiry he hle => hexpired ?_,
      fun most hm => UInt32.not_le.mp fun hle => hexhausted ?_⟩
    · rw [he]
      exact decide_eq_true hle
    · rw [hm]
      exact decide_eq_true hle

/-- What a grant found and what it wrote: a share without a budget may stay as it is. -/
theorem consume_eq_ok {id : ShareLinkId} {now : DateTime} {table shares : Table Bytes ShareLink} {updated : ShareLink}
    (h : consumeShareAccess env id now table = (.ok updated, shares)) :
    ∃ stored, table[id.bytes]? = some stored ∧ (stored.status now).usable = true ∧
      (shares = table.insert id.bytes (stored.accessed now) ∨ stored.maximumAccessCount = none ∧ shares = table) := by
  unfold consumeShareAccess at h
  cases hstored : table[id.bytes]? with
  | none =>
    rw [hstored] at h
    exact absurd (congrArg Prod.fst h) nofun
  | some stored =>
    simp only [hstored] at h
    split_ifs at h with hstatus hwritten
    · exact absurd (congrArg Prod.fst h) nofun
    · exact ⟨stored, rfl, Bool.not_eq_false _ ▸ hstatus, .inl (congrArg Prod.snd h).symm⟩
    · refine ⟨stored, rfl, Bool.not_eq_false _ ▸ hstatus, .inr ⟨?_, (congrArg Prod.snd h).symm⟩⟩
      rw [not_or] at hwritten
      exact Option.not_isSome_iff_eq_none.mp hwritten.1

/-- A grant consumes budget that was there. -/
theorem Strict.consume (h : Strict env links s) {link updated : ShareLink} {shares : Table Bytes ShareLink}
    (hknown : Known links link)
    (hproven : link.password.isSome = true → Proven env s.issued r link.id)
    (hc : consumeShareAccess env link.id r.now s.shares = (.ok updated, shares)) :
    Strict env links { s with shares := shares, granted := ⟨link.id, r⟩ :: s.granted } := by
  obtain ⟨stored, hstored, husable, hshares⟩ := consume_eq_ok hc
  obtain ⟨-, hunexpired, hbudget⟩ := usable_iff.mp husable
  obtain ⟨hkey, link₁, hlink₁, hsame₁⟩ := h.terms _ _ hstored
  obtain ⟨link₀, hlink₀, hsame⟩ := hknown
  obtain rfl : link₁ = link₀ := Option.some.inj (hlink₁.symm.trans hlink₀)
  have hcount : ∀ id : ShareLinkId,
      Store.grantsOf { s with shares := shares, granted := ⟨link.id, r⟩ :: s.granted } id =
        s.grantsOf id + if link.id = id then 1 else 0 := fun id => by simp [Store.grantsOf, List.countP_cons]
  have hcases : ∀ {k : Bytes} {l : ShareLink}, shares[k]? = some l → (k = link.id.bytes ∧ l = stored.accessed r.now) ∨
      s.shares[k]? = some l := by
    intro k l hk
    rcases hshares with rfl | ⟨-, rfl⟩
    · exact (Table.of_lookup_insert hk).imp (And.imp_right Eq.symm) And.right
    · exact .inr hk
  refine ⟨fun k l hk => ?_, fun id link₀ most hlink₀ hmost => ?_, fun g hg => ?_, h.issued⟩
  · rcases hcases hk with ⟨rfl, rfl⟩ | hk
    · exact ⟨hkey, link₁, hlink₁, hsame₁.expiresAt, hsame₁.password, hsame₁.maximum⟩
    · exact h.terms k l hk
  · obtain ⟨hle, haccess⟩ := h.counted id link₀ most hlink₀ hmost
    rw [hcount]
    by_cases hid : link.id = id
    · subst hid
      obtain rfl : link₁ = link₀ := Option.some.inj (hlink₁.symm.trans hlink₀)
      have hmax : stored.maximumAccessCount = some most := hsame₁.maximum.trans hmost
      have hlt := UInt32.lt_iff_toNat_lt.mp (hbudget most hmax)
      have heq := haccess stored hstored
      have hword := most.toNat_lt
      rw [if_pos rfl]
      refine ⟨by omega, fun l hl => ?_⟩
      -- with a budget the count is always written
      rcases hshares with rfl | ⟨hnone, -⟩
      · rw [Table.lookup_insert_self] at hl
        rw [← Option.some.inj hl, ShareLink.accessed]
        dsimp only
        rw [if_pos (by omega), UInt32.toNat_add, UInt32.toNat_one, Nat.mod_eq_of_lt (by omega), heq]
      · exact absurd (hmax.symm.trans hnone) nofun
    · rw [if_neg hid]
      refine ⟨hle, fun l hl => ?_⟩
      rcases hcases hl with ⟨hk, -⟩ | hl
      · exact absurd (Uuid.ext hk).symm hid
      · exact haccess l hl
  · rcases List.mem_cons.mp hg with rfl | hg
    · exact ⟨link₁, hlink₁, fun expiry he => hunexpired expiry (hsame₁.expiresAt.trans he),
        fun hp => hproven (hsame.password ▸ hp)⟩
    · exact h.granted g hg

/-- A ticket is issued for a password of the link. -/
theorem Strict.issue (h : Strict env links s) {link : ShareLink} {hash password : String} (hknown : Known links link)
    (hhash : link.password = some hash) (hverify : env.verifyPassword hash password = true) (expiry : Int) :
    Strict env links { s with issued := ⟨link.id, expiry, password⟩ :: s.issued } := by
  obtain ⟨link₀, hlink₀, hsame⟩ := hknown
  refine ⟨h.terms, h.counted, fun g hg => ?_, fun i hi => ?_⟩
  · obtain ⟨link₁, hlink₁, hearned⟩ := h.granted g hg
    exact ⟨link₁, hlink₁, hearned.unexpired, fun hp => (hearned.proven hp).mono fun i hi => List.mem_cons_of_mem _ hi⟩
  · rcases List.mem_cons.mp hi with rfl | hi
    · exact ⟨link₀, hash, hlink₀, hsame.password.symm.trans hhash, hverify⟩
    · exact h.issued i hi

/-- The only transaction that writes is a grant. -/
theorem Call.step_writes {call call' : Call} {throttled : Option UInt64}
    (hs : call.step env s throttled = some (s', call')) :
    s'.shares = s.shares ∧ s'.granted = s.granted ∨ ∃ link updated, ∃ r : Request,
      consumeShareAccess env link r.now s.shares = (.ok updated, s'.shares) ∧ s'.granted = ⟨link, r⟩ :: s.granted := by
  cases call with
  | lookUp r | read r id | unlockLookUp u | unlockRead u id =>
    cases hs
    exact .inl ⟨rfl, rfl⟩
  | consume r link =>
    simp only [Call.step] at hs
    split at hs
    · next updated shares hc =>
      cases hs
      exact .inr ⟨link.id, updated, r, hc, rfl⟩
    · cases hs
      exact .inl ⟨rfl, rfl⟩
  | unlockVerify u link =>
    simp only [Call.step] at hs
    repeat' split at hs
    all_goals
      cases hs
      exact .inl ⟨rfl, rfl⟩
  | answered result | unlocked result => cases hs

/-- One transaction of a call. -/
theorem Strict.step (h : Strict env links s) {call call' : Call} {throttled : Option UInt64}
    (ha : Asserts env links s call) (hs : call.step env s throttled = some (s', call')) :
    Strict env links s' ∧ Asserts env links s' call' ∧ ∀ i ∈ s.issued, i ∈ s'.issued := by
  have hknown : ∀ {id : ShareLinkId} {link : ShareLink}, s.shares[id.bytes]? = some link → Known links link := by
    intro id link hlink
    obtain ⟨hkey, link₀, hlink₀, hsame⟩ := h.terms _ _ hlink
    exact ⟨link₀, hkey ▸ hlink₀, hsame⟩
  cases call with
  | lookUp r =>
    cases hs
    refine ⟨h, ?_, fun i hi => hi⟩
    split
    · trivial
    · exact ha
  | read r id =>
    cases hs
    refine ⟨h, ?_, fun i hi => hi⟩
    split
    · trivial
    · next link hlink =>
      cases hjudge : judge env r link with
      | some denial => trivial
      | none =>
        refine ⟨hknown hlink, fun hp => ha link.id ?_⟩
        by_contra hticket
        unfold judge at hjudge
        split_ifs at hjudge with _ hproof
        all_goals exact hproof ⟨hp, Bool.not_eq_true _ ▸ hticket⟩
  | consume r link =>
    simp only [Call.step] at hs
    split at hs
    · next updated shares hc =>
      cases hs
      exact ⟨h.consume ha.1 ha.2 hc, trivial, fun i hi => hi⟩
    · cases hs
      exact ⟨h, trivial, fun i hi => hi⟩
  | unlockLookUp u =>
    cases hs
    refine ⟨h, ?_, fun i hi => hi⟩
    split <;> trivial
  | unlockRead u id =>
    cases hs
    refine ⟨h, ?_, fun i hi => hi⟩
    split
    · trivial
    · next link hlink => exact hknown hlink
  | unlockVerify u link =>
    simp only [Call.step] at hs
    split_ifs at hs with hstatus
    · cases hs
      exact ⟨h, trivial, fun i hi => hi⟩
    · split at hs
      rotate_right
      · next hash hhash =>
        split_ifs at hs with hverify
        · cases hs
          exact ⟨h.issue ha hhash hverify _, trivial, fun i hi => List.mem_cons_of_mem _ hi⟩
        · cases hs
          exact ⟨h, trivial, fun i hi => hi⟩
      all_goals
        cases hs
        exact ⟨h, trivial, fun i hi => hi⟩
  | answered result | unlocked result => cases hs

end Steps

/-! ## Whole runs -/

section Runs

variable {env : Env} {links : Table Bytes ShareLink} {s s' : Pool}

theorem sound_step {e : Event} (h : Sound env links s) (hok : Unforgeable env s e) (hs : step env s e = some s') :
    Sound env links s' := by
  cases e with
  | visit r =>
    obtain rfl := Option.some.inj hs
    exact h.spawn hok.backed fun _ => ⟨trivial, trivial⟩
  | enter u =>
    obtain rfl := Option.some.inj hs
    exact h.spawn trivial fun _ => ⟨trivial, trivial⟩
  | move i throttled =>
    refine h.work hs (fun _ hI hA hstep => ?_) (fun hI hA hstep _ hq => ?_) fun _ => ⟨id, id⟩
    · obtain ⟨hstrict, hasserts, -⟩ := hI.step hA hstep
      exact ⟨hstrict, hasserts⟩
    · exact hq.mono (hI.step hA hstep).2.2
  | revoke id at_ =>
    obtain rfl := Option.some.inj hs
    refine h.change (h.shared.revoke id at_) fun _ hA => hA.mono ?_
    unfold Store.revokeShare
    split <;> exact fun i hi => hi
  | delete id =>
    obtain rfl := Option.some.inj hs
    refine h.change (h.shared.delete id) fun _ hA => hA.mono ?_
    unfold Store.deleteShare
    split <;> exact fun i hi => hi

/-- No link is usable in its place. -/
def Withdrawn (s : Store) (id : ShareLinkId) : Prop := ∀ link, s.shares[id.bytes]? = some link →
    link.revokedAt.isSome = true

theorem withdrawn_write {t : Store} {id id' : ShareLinkId} {link link' : ShareLink} (h : Withdrawn t id)
    (hlink : t.shares[id'.bytes]? = some link) (hrevoked : link.revokedAt.isSome = true →
      link'.revokedAt.isSome = true) :
    Withdrawn { t with shares := t.shares.insert id'.bytes link' } id := by
  intro l hl
  rcases Table.of_lookup_insert hl with ⟨heq, rfl⟩ | ⟨-, hl⟩
  · exact hrevoked (h link (heq ▸ hlink))
  · exact h l hl

/-- A withdrawn share stays withdrawn and is not granted. -/
theorem withdrawn_step {id : ShareLinkId} {e : Event} (h : Withdrawn s.shared id) (hs : step env s e = some s') :
    Withdrawn s'.shared id ∧ s'.shared.grantsOf id = s.shared.grantsOf id := by
  cases e with
  | visit r | enter u =>
    obtain rfl := Option.some.inj hs
    exact ⟨h, rfl⟩
  | revoke id' at_ =>
    obtain rfl := Option.some.inj hs
    dsimp only [Store.revokeShare]
    split
    · exact ⟨h, rfl⟩
    · next link hlink =>
      refine ⟨withdrawn_write h hlink fun hr => ?_, rfl⟩
      simp
  | delete id' =>
    obtain rfl := Option.some.inj hs
    dsimp only [Store.deleteShare]
    split
    · exact ⟨h, rfl⟩
    · refine ⟨fun l hl => ?_, rfl⟩
      dsimp only at hl
      exact h l (Table.of_lookup_erase hl).2
  | move i throttled =>
    obtain ⟨call, call', -, hstep, -⟩ := Pool.work_eq_some hs
    rcases Call.step_writes hstep with ⟨hshares, hgranted⟩ | ⟨link, updated, r, hconsume, hgranted⟩
    · unfold Withdrawn Store.grantsOf
      rw [hshares, hgranted]
      exact ⟨h, rfl⟩
    · obtain ⟨stored, hstored, husable, hshares⟩ := consume_eq_ok hconsume
      have hrevoked := (usable_iff.mp husable).1
      have hne : link ≠ id := by
        rintro rfl
        have := h stored hstored
        rw [hrevoked] at this
        cases this
      refine ⟨?_, by simp [Store.grantsOf, hgranted, hne]⟩
      rcases hshares with hshares | ⟨-, hshares⟩
      · have hwrite : Withdrawn
            { s.shared with shares := s.shared.shares.insert link.bytes (stored.accessed r.now) } id :=
          withdrawn_write h hstored fun hr => hr
        unfold Withdrawn at hwrite ⊢
        rwa [hshares]
      · unfold Withdrawn at h ⊢
        rwa [hshares]

/-- Revocation and deletion of a share. -/
def Event.withdraws (id : ShareLinkId) (e : Event) : Prop := (∃ at_, e = .revoke id at_) ∨ e = .delete id

theorem withdrawn_of_withdraws {id : ShareLinkId} {e : Event} (he : e.withdraws id) (hs : step env s e = some s') :
    Withdrawn s'.shared id ∧ s'.shared.grantsOf id = s.shared.grantsOf id := by
  rcases he with ⟨at_, rfl⟩ | rfl
  · obtain rfl := Option.some.inj hs
    dsimp only [Store.revokeShare]
    split
    · next hnone => exact ⟨fun l hl => absurd (hnone.symm.trans hl) nofun, rfl⟩
    · refine ⟨fun l hl => ?_, rfl⟩
      dsimp only at hl
      rw [Table.lookup_insert_self] at hl
      rw [← Option.some.inj hl]
      simp
  · obtain rfl := Option.some.inj hs
    dsimp only [Store.deleteShare]
    split
    · next hnone => exact ⟨fun l hl => absurd (hnone.symm.trans hl) nofun, rfl⟩
    · refine ⟨fun l hl => ?_, rfl⟩
      dsimp only at hl
      rw [Table.lookup_erase, if_pos rfl] at hl
      cases hl

/-- A service with shares that were just created. -/
structure Fresh (s : Pool) : Prop where
  idle : s.procs = [] ∧ s.shared.issued = [] ∧ s.shared.granted = []
  link : ∀ (k : Bytes) (link : ShareLink), s.shared.shares[k]? = some link → k = link.id.bytes ∧ link.accessCount = 0

theorem Fresh.sound (h : Fresh s) : Sound env s.shared.shares s := by
  obtain ⟨hprocs, hissued, hgranted⟩ := h.idle
  refine ⟨⟨fun k link hk => ⟨(h.link k link hk).1, link, hk, rfl, rfl, rfl⟩, fun id link₀ most _ _ => ?_,
    ?_, ?_⟩, ?_, ?_⟩
  · have hnone : s.shared.grantsOf id = 0 := by rw [Store.grantsOf, hgranted]; rfl
    rw [hnone]
    exact ⟨Nat.zero_le _, fun link hl => by rw [(h.link _ link hl).2]; rfl⟩
  · rw [hgranted]
    exact fun g hg => absurd hg List.not_mem_nil
  · rw [hissued]
    exact fun i hi => absurd hi List.not_mem_nil
  · intro i p hp
    rw [hprocs] at hp
    cases hp
  · exact fun _ _ _ => trivial

/-- Every interleaving of visits, unlock calls, revocations and deletions: a share is granted at most as often as its
maximum allows, never at or after its expiry, with a password only for the tag of an unexpired ticket that was issued
for this share and a correct password, and not once more after a revocation or deletion. -/
theorem share_limits_strict (env : Env) (s₀ s : Pool) (events : List Event) (hfresh : Fresh s₀)
    (hmac : Meets (step env) (Unforgeable env) s₀ events) (hrun : run (step env) s₀ events = some s) :
    (∀ (id : ShareLinkId) (link : ShareLink) (most : UInt32), s₀.shared.shares[id.bytes]? = some link →
      link.maximumAccessCount = some most → s.shared.grantsOf id ≤ most.toNat) ∧
    (∀ g ∈ s.shared.granted, ∃ link, s₀.shared.shares[g.share.bytes]? = some link ∧
      (∀ expiry, link.expiresAt = some expiry → ¬ expiry ≤ g.request.now) ∧
      ∀ hash, link.password = some hash → ∃ ticket expiry tag, g.request.ticket = some ticket ∧
        ticketParts env ticket = some (expiry, tag) ∧ g.request.now.seconds < expiry ∧
        tag = env.sign (ticketMessage g.share expiry) ∧
        ∃ i ∈ s.shared.issued, i.share = g.share ∧ i.expiry = expiry ∧ env.verifyPassword hash i.password = true) ∧
    ∀ before e after id, events = before ++ e :: after → e.withdraws id →
      ∃ s₁, run (step env) s₀ before = some s₁ ∧ s.shared.grantsOf id = s₁.shared.grantsOf id := by
  have hsound : Sound env s₀.shared.shares s := run_invariant (fun _ _ _ h hok hs =>
    sound_step h hok hs) events hfresh.sound hmac hrun
  refine ⟨fun id link most hlink hmost => (hsound.shared.counted id link most hlink hmost).1, fun g hg => ?_, ?_⟩
  · obtain ⟨link, hlink, hearned⟩ := hsound.shared.granted g hg
    refine ⟨link, hlink, hearned.unexpired, fun hash hhash => ?_⟩
    obtain ⟨ticket, expiry, tag, hticket, hparts, hnow, htag, i, hi, hshare, hexpiry⟩ :=
      hearned.proven (by rw [hhash]; rfl)
    obtain ⟨link', hash', hlink', hhash', hverify⟩ := hsound.shared.issued i hi
    rw [hshare, hlink] at hlink'
    obtain rfl := Option.some.inj hlink'
    obtain rfl := Option.some.inj (hhash.symm.trans hhash')
    exact ⟨ticket, expiry, tag, hticket, hparts, hnow, htag, i, hi, hshare, hexpiry, hverify⟩
  · rintro before e after id rfl hwithdraws
    rw [run, List.foldlM_append] at hrun
    obtain ⟨s₁, hbefore, hrun⟩ := Option.bind_eq_some_iff.mp hrun
    obtain ⟨s₂, he, hafter⟩ := run_cons.mp hrun
    obtain ⟨hwithdrawn, hcount⟩ := withdrawn_of_withdraws hwithdraws he
    refine ⟨s₁, hbefore, ?_⟩
    have hkeep : Withdrawn s.shared id ∧ s.shared.grantsOf id = s₁.shared.grantsOf id :=
      run_preserves (P := fun s => Withdrawn s.shared id ∧ s.shared.grantsOf id = s₁.shared.grantsOf id)
        (fun _ _ _ h hs => (withdrawn_step h.1 hs).imp_right fun heq => heq.trans h.2) after ⟨hwithdrawn, hcount⟩ hafter
    exact hkeep.2

end Runs

namespace Sample

/-- The message is its own tag, and a password its own verifier. -/
def env : Env where
  sign := id
  encodeTag := fun tag => String.ofList (tag.map fun b => Char.ofNat b.toNat)
  decodeTag := fun text => some (text.toList.map fun c => UInt8.ofNat c.toNat)
  verifyPassword := fun hash password => decide (hash = password)
  ticketExpiry := fun now => now.seconds + 60
  elapsed := fun _ _ => false

/-- One share with a password that may be opened once. -/
def once : Pool where
  shared :=
    { tokens := (∅ : Table Bytes ShareLinkId).insert [7] (.ofNat 1)
      shares := (∅ : Table Bytes ShareLink).insert (Uuid.ofNat 1).bytes
        ⟨.ofNat 1, none, .view, some "secret", some 1, 0, none, none⟩
      issued := []
      granted := [] }
  procs := []

def visitor : Request := ⟨[7], some (issue env (.ofNat 1) 60), false, .epoch⟩

/-- The share is unlocked, and two visitors with the ticket judge it before either consumes its budget. -/
def rivals : List Event :=
  [.enter ⟨[7], "secret", .epoch⟩, .move 0 none, .move 0 none, .move 0 none, .visit visitor, .visit visitor,
    .move 1 none, .move 2 none, .move 1 none, .move 2 none, .move 1 none, .move 2 none]

theorem once_fresh : Fresh once := by
  refine ⟨⟨rfl, rfl, rfl⟩, fun k link hk => ?_⟩
  obtain ⟨rfl, rfl⟩ := Table.of_lookup_singleton hk
  exact ⟨rfl, rfl⟩

/-- Every presented tag is that of an issued ticket. -/
def Presented (s : Pool) : Event → Prop
  | .visit r => ∀ ticket ∈ r.ticket, ∀ p ∈ ticketParts env ticket,
    ∃ i ∈ s.shared.issued, p.2 = env.sign (ticketMessage i.share i.expiry)
  | _ => True

instance {s : Pool} {e : Event} : Decidable (Presented s e) := by
  unfold Presented
  split <;> infer_instance

theorem Presented.unforgeable {s : Pool} {e : Event} (h : Presented s e) : Unforgeable env s e := by
  cases e with
  | visit r =>
    rintro ticket expiry tag hticket hparts share e rfl
    obtain ⟨i, hi, hsign⟩ := h ticket hticket (expiry, _) hparts
    exact ⟨i, hi, hsign.symm⟩
  | _ => trivial

end Sample

theorem share_limits_strict_rivals : ∃ s, run (step Sample.env) Sample.once Sample.rivals = some s ∧
    (s.shared.issued.length = 1 ∧ s.shared.granted.length = 1) ∧ s.shared.grantsOf (.ofNat 1) ≤ 1 := by
  have hmac : Meets (step Sample.env) (Unforgeable Sample.env) Sample.once Sample.rivals :=
    Meets.imp_of (P := fun _ => True) (fun _ _ _ h => h.unforgeable) (fun _ _ _ _ _ _ => trivial) trivial
      (by decide +kernel : Meets (step Sample.env) Sample.Presented Sample.once Sample.rivals)
  exact exists_and_of (by decide +kernel) fun s hrun _ =>
    (share_limits_strict Sample.env Sample.once s Sample.rivals Sample.once_fresh hmac hrun).1
      (.ofNat 1) _ 1 (Table.lookup_insert_self _ _ _) rfl

end RecordStore.Sharing
