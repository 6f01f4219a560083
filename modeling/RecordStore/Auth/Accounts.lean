import RecordStore.Core.Values
import RecordStore.Lib.Pool

/-!
# Auth.Accounts — deleting a service account beside rotations and attachments

`delete_service_account` reads the account's credentials and bindings and removes them in a later transaction.
`rotate_credential` and `attach_policy` check the account and write in a later transaction as well, so that rows can be
added that the deletion does not know.  The index of an account's credentials is never cleaned.
-/

namespace RecordStore.Auth

open RecordStore.Lib RecordStore.Core

/-! ## Tables -/

/-- A random UUID; version and variant keep it from being all ones. -/
structure ServiceAccountId where
  uuid : Uuid
  minted : ∃ b ∈ uuid.bytes, b ≠ 255

abbrev ServiceAccountId.bytes (a : ServiceAccountId) : Bytes := a.uuid.bytes

structure Credential where
  id : Uuid
  serviceAccountId : Uuid
  keyId : String
  disabled : Bool
  expiresAt : Option Int
  deriving DecidableEq

/-- `ServiceAccountInfo`, with the account's identifier and whether it is disabled. -/
structure ServiceAccountInfo where
  accountId : Uuid
  disabled : Bool
  credential : Credential
  credentials : List Credential
  policyBindings : List Uuid

structure CredentialStore where
  accounts : Table Bytes ServiceAccountInfo
  accessKeys : Table Bytes Bytes
  rotatedCredentials : Table Bytes ServiceAccountInfo
  accountCredentials : Table Bytes Unit
  policies : Table Bytes Unit
  policyBindings : Table Bytes Unit

/-- `account_credential_key` and `policy_binding_key`. -/
def accountKey (a : ServiceAccountId) (id : Uuid) : Bytes := a.bytes ++ id.bytes

/-! ## Transactions -/

def policyOfKey (key : Bytes) : Option Uuid :=
  if h : (key.drop 16).length = 16 then some ⟨key.drop 16, h⟩ else none

/-- `enrich_info`, the credentials in no particular order. -/
def enrichInfo (store : CredentialStore) (info : ServiceAccountInfo) : ServiceAccountInfo :=
  { info with
    credentials := info.credential ::
      (store.rotatedCredentials.rows.filter fun r => r.credential.serviceAccountId = info.accountId).map (·.credential)
    policyBindings :=
      (store.policyBindings.rowsIn info.accountId.bytes (prefixSuccessor info.accountId.bytes)).filterMap fun r =>
        if r.1.length = 32 then policyOfKey r.1 else none }

def getServiceAccount (store : CredentialStore) (a : ServiceAccountId) : Option ServiceAccountInfo :=
  store.accounts[a.bytes]?.map (enrichInfo store)

/-- The transaction of `create_service_account`. -/
def createTx (store : CredentialStore) (a : ServiceAccountId) (credential : Credential) : Option CredentialStore :=
  if (store.accessKeys[asBytes credential.keyId]?).isSome then none
  else some { store with
    accessKeys := store.accessKeys.insert (asBytes credential.keyId) a.bytes
    accounts := store.accounts.insert a.bytes ⟨a.uuid, false, credential, [credential], []⟩
    accountCredentials := store.accountCredentials.insert (accountKey a credential.id) () }

/-- The transaction of `rotate_credential`. -/
def rotateTx (store : CredentialStore) (a : ServiceAccountId) (info : ServiceAccountInfo) (credential : Credential) :
    Option CredentialStore :=
  if (store.accessKeys[asBytes credential.keyId]?).isSome then none
  else some { store with
    accessKeys := store.accessKeys.insert (asBytes credential.keyId) (accountKey a credential.id)
    rotatedCredentials := store.rotatedCredentials.insert credential.id.bytes
      { info with credential := credential, credentials := [credential] }
    accountCredentials := store.accountCredentials.insert (accountKey a credential.id) () }

/-- The transaction of `attach_policy`. -/
def attachTx (store : CredentialStore) (a : ServiceAccountId) (policy : Uuid) : Option CredentialStore :=
  if (store.policies[policy.bytes]?).isNone then none
  else some { store with policyBindings := store.policyBindings.insert (accountKey a policy) () }

/-- The transaction of `delete_service_account`, from what was read before it. -/
def deleteTx (store : CredentialStore) (a : ServiceAccountId) (info : ServiceAccountInfo) : CredentialStore :=
  { store with
    accessKeys := info.credentials.foldl (fun t c => t.erase (asBytes c.keyId)) store.accessKeys
    rotatedCredentials := (info.credentials.filter fun c => c.id ≠ info.credential.id).foldl
      (fun t c => t.erase c.id.bytes) store.rotatedCredentials
    accounts := store.accounts.erase a.bytes
    policyBindings := info.policyBindings.foldl (fun t p => t.erase (accountKey a p)) store.policyBindings }

inductive CredentialStoreError where
  | corruptIndex
  | credentialInactive
  | crypto

inductive CredentialLookupError where
  | unknownAccessKey
  | inactive
  | backend
  deriving DecidableEq

/-- The account and credential of `lookup_service_secret`; the secret is left out. -/
def lookupServiceSecret (decrypts : ServiceAccountInfo → Bool) (store : CredentialStore) (now : Int) (key : Bytes) :
    Except CredentialStoreError (Option (Uuid × Uuid)) :=
  match store.accessKeys[key]? with
  | none => .ok none
  | some id =>
    if id.length ≠ 16 ∧ id.length ≠ 32 then .error .corruptIndex
    else match store.accounts[id.take 16]? with
      | none => .error .corruptIndex
      | some account =>
        match if id.length = 16 then some account else store.rotatedCredentials[id.drop 16]? with
        | none => .error .corruptIndex
        | some record =>
          if account.disabled ∨ record.credential.disabled ∨ record.credential.expiresAt.any (· ≤ now) then
            .error .credentialInactive
          else if !decrypts record then .error .crypto
          else .ok (some (record.accountId, record.credential.id))

/-- `signing_secret` of a key that is not the root's. -/
def signingSecret (decrypts : ServiceAccountInfo → Bool) (store : CredentialStore) (now : Int) (key : Bytes) :
    Except CredentialLookupError (Uuid × Uuid) :=
  match lookupServiceSecret decrypts store now key with
  | .error .credentialInactive => .error .inactive
  | .error _ => .error .backend
  | .ok none => .error .unknownAccessKey
  | .ok (some found) => .ok found

/-! ## Calls on one account -/

/-- A call between its read and its transaction. -/
inductive Call where
  | rotating (info : ServiceAccountInfo) (credential : Credential)
  | attaching (policy : Uuid)

inductive Deletion where
  | ahead
  | reading (info : ServiceAccountInfo)
  | done

def Deletion.finished : Deletion → Bool
  | .done => true
  | _ => false

theorem Deletion.eq_done {d : Deletion} (h : d.finished = true) : d = .done := by
  cases d with
  | done => rfl
  | ahead => cases h
  | reading info => cases h

/-- The store, the calls under way, and the credentials handed out for an account that was gone. -/
structure World where
  store : CredentialStore
  calls : List Call
  deletion : Deletion
  orphans : List Credential

inductive Event where
  | rotate (credential : Credential)
  | attach (policy : Uuid)
  | write (i : Nat)
  | deleteRead
  | deleteWrite

def commit (a : ServiceAccountId) (s : World) (i : Nat) : Call → Option World
  | .rotating info credential =>
    -- identifiers are not used twice
    if (s.store.rotatedCredentials[credential.id.bytes]?).isSome then none
    else some <| (rotateTx s.store a info credential).elim { s with calls := s.calls.eraseIdx i } fun store =>
      { s with
        store := store
        calls := s.calls.eraseIdx i
        orphans := if (s.store.accounts[a.bytes]?).isNone then s.orphans ++ [credential] else s.orphans }
  | .attaching policy => some { s with store := (attachTx s.store a policy).getD s.store, calls := s.calls.eraseIdx i }

def step (a : ServiceAccountId) (s : World) : Event → Option World
  | .rotate credential =>
    (getServiceAccount s.store a).elim (some s) fun info =>
      if info.disabled then some s
      else if credential.serviceAccountId = a.uuid ∧ credential.id ≠ info.credential.id then
        some { s with calls := s.calls ++ [.rotating info credential] }
      else none
  | .attach policy =>
    (getServiceAccount s.store a).elim (some s) fun _ => some { s with calls := s.calls ++ [.attaching policy] }
  | .write i => s.calls[i]?.bind (commit a s i)
  | .deleteRead =>
    match s.deletion with
    | .ahead => (getServiceAccount s.store a).elim (some s) fun info => some { s with deletion := .reading info }
    | _ => none
  | .deleteWrite =>
    match s.deletion with
    | .reading info => some { s with store := deleteTx s.store a info, deletion := .done }
    | _ => none

def opening (store : CredentialStore) : World := ⟨store, [], .ahead, []⟩

/-! ## What remains -/

/-- All rows that refer to the account are among the given ones: its access keys, its rotated credentials, its
bindings. -/
structure Within (a : ServiceAccountId) (keys ids bindings : List Bytes) (store : CredentialStore) : Prop where
  keys : ∀ (k v : Bytes), store.accessKeys[k]? = some v → a.bytes <+: v → k ∈ keys
  rotated : ∀ (k : Bytes) (r : ServiceAccountInfo), store.rotatedCredentials[k]? = some r →
    r.credential.serviceAccountId = a.uuid → k ∈ ids
  bindings : ∀ (k : Bytes) (u : Unit), store.policyBindings[k]? = some u → a.bytes <+: k → k ∈ bindings

/-- What a deletion will remove of what it read. -/
def Covered (a : ServiceAccountId) (info : ServiceAccountInfo) (store : CredentialStore) : Prop :=
  Within a (info.credentials.map fun c => asBytes c.keyId)
    ((info.credentials.filter fun c => c.id ≠ info.credential.id).map fun c => c.id.bytes)
    (info.policyBindings.map (accountKey a)) store

/-- No credential of the account in the index. -/
def IndexClean (a : ServiceAccountId) (store : CredentialStore) : Prop :=
  ∀ (k : Bytes) (u : Unit), store.accountCredentials[k]? = some u → ¬ a.bytes <+: k

/-- The event commits a rotation. -/
def Rotates (s : World) : Event → Prop
  | .write i => ∃ info c, s.calls[i]? = some (.rotating info c) ∧ (s.store.accessKeys[asBytes c.keyId]?).isNone
  | _ => False

/-- The event commits a row that the deletion does not remove: a rotation after the deletion's read, or an
attachment after it of a policy that it did not find bound, or any after its transaction. -/
def Strays (s : World) (e : Event) : Prop :=
  (Rotates s e ∧ s.deletion ≠ .ahead) ∨
  ∃ i policy, e = .write i ∧ s.calls[i]? = some (.attaching policy) ∧ (s.store.policies[policy.bytes]?).isSome ∧
    (s.deletion = .done ∨ ∃ info, s.deletion = .reading info ∧ policy ∉ info.policyBindings)

/-- The rows of an account that is in use: every access key is that of a credential, and every credential has its
own row. -/
structure Indexed (a : ServiceAccountId) (primary : Credential) (store : CredentialStore) : Prop where
  account : ∀ info, store.accounts[a.bytes]? = some info → info.accountId = a.uuid ∧ info.credential = primary
  keys : ∀ (k v : Bytes), store.accessKeys[k]? = some v → a.bytes <+: v → k = asBytes primary.keyId ∨
    ∃ r, store.rotatedCredentials[v.drop 16]? = some r ∧ r.credential.serviceAccountId = a.uuid ∧
      asBytes r.credential.keyId = k
  rotated : ∀ (k : Bytes) (r : ServiceAccountInfo), store.rotatedCredentials[k]? = some r →
    r.credential.serviceAccountId = a.uuid →
    k = r.credential.id.bytes ∧ r.credential.id ≠ primary.id
  bindings : ∀ (k : Bytes) (u : Unit), store.policyBindings[k]? = some u → a.bytes <+: k → k.length = 32

/-! ## Reading and deleting -/

section Deleting

variable {a : ServiceAccountId} {primary : Credential} {store store' : CredentialStore} {info : ServiceAccountInfo}

theorem accountKey_inj {p q : Uuid} (h : accountKey a p = accountKey a q) : p = q :=
  Uuid.ext (List.append_cancel_left h)

/-- A deletion leaves no row exactly if what it read covers all of them. -/
theorem within_deleteTx_iff : Within a [] [] [] (deleteTx store a info) ↔ Covered a info store := by
  have hkeys := Table.lookup_foldl_erase (fun c : Credential => asBytes c.keyId) info.credentials store.accessKeys
  have hids := Table.lookup_foldl_erase (fun c : Credential => c.id.bytes)
    (info.credentials.filter fun c => c.id ≠ info.credential.id)
    store.rotatedCredentials
  have hbindings := Table.lookup_foldl_erase (accountKey a) info.policyBindings store.policyBindings
  constructor
  · intro h
    refine ⟨fun k v hk hv => ?_, fun k r hk hr => ?_, fun k u hk hu => ?_⟩ <;> by_contra hnot
    · exact List.not_mem_nil (h.keys k v ((hkeys k).trans (by rw [if_neg hnot, hk])) hv)
    · exact List.not_mem_nil (h.rotated k r ((hids k).trans (by rw [if_neg hnot, hk])) hr)
    · exact List.not_mem_nil (h.bindings k u ((hbindings k).trans (by rw [if_neg hnot, hk])) hu)
  · intro h
    refine ⟨fun k v hk hv => ?_, fun k r hk hr => ?_, fun k u hk hu => ?_⟩
    · replace hk := (hkeys k).symm.trans hk
      split_ifs at hk with hmem
      exact absurd (h.keys k v hk hv) hmem
    · replace hk := (hids k).symm.trans hk
      split_ifs at hk with hmem
      exact absurd (h.rotated k r hk hr) hmem
    · replace hk := (hbindings k).symm.trans hk
      split_ifs at hk with hmem
      exact absurd (h.bindings k u hk hu) hmem

theorem mem_credentials {k : Bytes} {r : ServiceAccountInfo} (hid : info.accountId = a.uuid)
    (hr : store.rotatedCredentials[k]? = some r)
    (haccount : r.credential.serviceAccountId = a.uuid) : r.credential ∈ (enrichInfo store info).credentials := by
  refine List.mem_cons_of_mem _ (List.mem_map.mpr ⟨r, List.mem_filter.mpr ⟨Table.mem_rows.mpr ⟨k, hr⟩, ?_⟩, rfl⟩)
  exact decide_eq_true (haccount.trans hid.symm)

/-- What is read of an account that is in use covers its rows. -/
theorem covered_enrichInfo (h : Indexed a primary store) (hinfo : store.accounts[a.bytes]? = some info) :
    Covered a (enrichInfo store info) store := by
  obtain ⟨hid, hprimary⟩ := h.account info hinfo
  refine ⟨fun k v hk hv => ?_, fun k r hk hr => ?_, fun k u hk hu => ?_⟩
  · rcases h.keys k v hk hv with rfl | ⟨r, hr, haccount, rfl⟩
    · exact List.mem_map.mpr ⟨primary, by rw [← hprimary]; exact List.mem_cons_self, rfl⟩
    · exact List.mem_map.mpr ⟨r.credential, mem_credentials hid hr haccount, rfl⟩
  · obtain ⟨rfl, hne⟩ := h.rotated k r hk hr
    refine List.mem_map.mpr ⟨r.credential, List.mem_filter.mpr ⟨mem_credentials hid hk hr, decide_eq_true ?_⟩, rfl⟩
    rwa [show (enrichInfo store info).credential = primary from hprimary]
  · obtain ⟨y, rfl⟩ := hu
    have hlength := h.bindings _ u hk (List.prefix_append _ _)
    have hy : y.length = 16 := by
      rw [List.length_append, a.uuid.length_bytes] at hlength
      omega
    have hdrop : (a.bytes ++ y).drop 16 = y := List.drop_left' a.uuid.length_bytes
    refine List.mem_map.mpr ⟨⟨y, hy⟩, List.mem_filterMap.mpr ⟨(a.bytes ++ y, u), ?_, ?_⟩, rfl⟩
    · rw [hid]
      exact Table.mem_rowsIn.mpr ⟨hk, inRange_append (.inl a.minted)⟩
    · rw [if_pos hlength, policyOfKey, dif_pos (by rw [hdrop, hy])]
      exact congrArg some (Uuid.ext hdrop)

/-- The rows of one store are rows of the other. -/
structure Grows (store store' : CredentialStore) : Prop where
  keys : ∀ (k v : Bytes), store.accessKeys[k]? = some v → store'.accessKeys[k]? = some v
  rotated : ∀ (k : Bytes) (r : ServiceAccountInfo), store.rotatedCredentials[k]? = some r →
    store'.rotatedCredentials[k]? = some r
  bindings : ∀ (k : Bytes) (u : Unit), store.policyBindings[k]? = some u → store'.policyBindings[k]? = some u

theorem Within.anti {keys ids bindings : List Bytes} (h : Within a keys ids bindings store')
    (hgrows : Grows store store') : Within a keys ids bindings store :=
  ⟨fun k v hk => h.keys k v (hgrows.keys k v hk), fun k r hk => h.rotated k r (hgrows.rotated k r hk),
    fun k u hk => h.bindings k u (hgrows.bindings k u hk)⟩

theorem rotateTx_eq_some {c : Credential} (h : rotateTx store a info c = some store') :
    store.accessKeys[asBytes c.keyId]? = none ∧ store' = { store with
      accessKeys := store.accessKeys.insert (asBytes c.keyId) (accountKey a c.id)
      rotatedCredentials := store.rotatedCredentials.insert c.id.bytes { info with credential := c, credentials := [c] }
      accountCredentials := store.accountCredentials.insert (accountKey a c.id) () } := by
  unfold rotateTx at h
  split_ifs at h with hkey
  exact ⟨Option.not_isSome_iff_eq_none.mp hkey, (Option.some.inj h).symm⟩

theorem attachTx_eq_some {policy : Uuid} (h : attachTx store a policy = some store') :
    (store.policies[policy.bytes]?).isSome ∧
      store' = { store with policyBindings := store.policyBindings.insert (accountKey a policy) () } := by
  unfold attachTx at h
  split_ifs at h with hpolicy
  exact ⟨Option.isSome_iff_ne_none.mpr fun hnone => hpolicy (by rw [hnone]; rfl), (Option.some.inj h).symm⟩

theorem grows_rotateTx {c : Credential} (hfresh : store.rotatedCredentials[c.id.bytes]? = none)
    (h : rotateTx store a info c = some store') :
    Grows store store' := by
  obtain ⟨hkey, rfl⟩ := rotateTx_eq_some h
  refine ⟨fun k v hk => ?_, fun k r hk => ?_, fun k u hk => hk⟩
  · rw [Table.lookup_insert, if_neg]
    · exact hk
    · rintro rfl
      rw [hkey] at hk
      cases hk
  · rw [Table.lookup_insert, if_neg]
    · exact hk
    · rintro rfl
      rw [hfresh] at hk
      cases hk

theorem grows_attachTx {policy : Uuid} (h : attachTx store a policy = some store') : Grows store store' := by
  obtain ⟨-, rfl⟩ := attachTx_eq_some h
  refine ⟨fun k v hk => hk, fun k r hk => hk, fun k u hk => ?_⟩
  rw [Table.lookup_insert]
  split_ifs
  · rfl
  · exact hk

/-- A rotation's rows keep an account's rows in order. -/
theorem Indexed.rotateTx (h : Indexed a primary store) {c : Credential} (haccount : c.serviceAccountId = a.uuid)
    (hne : c.id ≠ primary.id) (hfresh : store.rotatedCredentials[c.id.bytes]? = none)
    (hcommit : rotateTx store a info c = some store') : Indexed a primary store' := by
  have hgrows := grows_rotateTx hfresh hcommit
  obtain ⟨hkey, rfl⟩ := rotateTx_eq_some hcommit
  refine ⟨h.account, fun k v hk hv => ?_, fun k r hk hr => ?_, h.bindings⟩
  · rcases Table.of_lookup_insert hk with ⟨hsame, rfl⟩ | ⟨-, hk⟩
    · refine .inr ⟨{ info with credential := c, credentials := [c] }, ?_, haccount, hsame.symm⟩
      rw [accountKey, List.drop_left' a.uuid.length_bytes, Table.lookup_insert_self]
    · rcases h.keys k v hk hv with hprimary | ⟨r, hr, hrest⟩
      · exact .inl hprimary
      · exact .inr ⟨r, hgrows.rotated _ r hr, hrest⟩
  · rcases Table.of_lookup_insert hk with ⟨hsame, rfl⟩ | ⟨-, hk⟩
    · exact ⟨hsame, hne⟩
    · exact h.rotated k r hk hr

theorem Indexed.attachTx (h : Indexed a primary store) {policy : Uuid}
    (hcommit : attachTx store a policy = some store') : Indexed a primary store' := by
  obtain ⟨-, rfl⟩ := attachTx_eq_some hcommit
  refine ⟨h.account, h.keys, h.rotated, fun k u hk hu => ?_⟩
  rcases Table.of_lookup_insert hk with ⟨hsame, -⟩ | ⟨-, hk⟩
  · rw [hsame, accountKey, List.length_append, a.uuid.length_bytes, policy.length_bytes]
  · exact h.bindings k u hk hu

/-- A new account is in order. -/
theorem indexed_createTx {c : Credential} (h : Within a [] [] [] store) (hcreate : createTx store a c = some store') :
    Indexed a c store' ∧ (store'.accountCredentials[accountKey a c.id]?).isSome := by
  unfold createTx at hcreate
  split_ifs at hcreate with hkey
  obtain rfl := Option.some.inj hcreate
  refine ⟨⟨fun info hinfo => ?_, fun k v hk hv => ?_, fun k r hk hr => absurd (h.rotated k r hk hr) List.not_mem_nil,
    fun k u hk hu => absurd (h.bindings k u hk hu) List.not_mem_nil⟩, by rw [Table.lookup_insert_self]; rfl⟩
  · rw [Table.lookup_insert_self] at hinfo
    obtain rfl := Option.some.inj hinfo
    exact ⟨rfl, rfl⟩
  · exact (Table.of_lookup_insert hk).imp And.left fun hold => absurd (h.keys k v hold.2 hv) List.not_mem_nil

end Deleting

/-! ## Runs -/

/-- What holds all along: the calls' credentials are the account's, its rows are in order until the deletion has
read them, what it read is still there, and the account is there until it is deleted. -/
structure Tidy (a : ServiceAccountId) (primary : Credential) (s : World) : Prop where
  calls : ∀ info c, Call.rotating info c ∈ s.calls → c.serviceAccountId = a.uuid ∧ c.id ≠ primary.id
  account : ∀ info, s.store.accounts[a.bytes]? = some info → info.accountId = a.uuid ∧ info.credential = primary
  ahead : s.deletion = .ahead → Indexed a primary s.store
  reading : ∀ info, s.deletion = .reading info → ∀ c ∈ info.credentials, c.id ≠ info.credential.id →
    (s.store.rotatedCredentials[c.id.bytes]?).isSome
  present : s.deletion ≠ .done → (s.store.accounts[a.bytes]?).isSome
  gone : s.deletion = .done → s.store.accounts[a.bytes]? = none

/-- Nothing was left so far: the deletion will remove, or has removed, all rows, and no credential was handed out in
vain. -/
def Clean (a : ServiceAccountId) (s : World) : Prop :=
  s.orphans = [] ∧ (∀ info, s.deletion = .reading info → Covered a info s.store) ∧
    (s.deletion = .done → Within a [] [] [] s.store)

section Runs

variable {a : ServiceAccountId} {primary : Credential} {s t : World}

/-- The three things a transaction of a call can do. -/
theorem commit_cases {i : Nat} {call : Call} (h : commit a s i call = some t) :
    (t = { s with calls := s.calls.eraseIdx i } ∧
      ((∃ info c, call = .rotating info c ∧ (s.store.accessKeys[asBytes c.keyId]?).isSome) ∨
        ∃ policy, call = .attaching policy ∧ (s.store.policies[policy.bytes]?).isNone)) ∨
    (∃ info c store, call = .rotating info c ∧ s.store.rotatedCredentials[c.id.bytes]? = none ∧
      rotateTx s.store a info c = some store ∧
      t = { s with
        store := store
        calls := s.calls.eraseIdx i
        orphans := if (s.store.accounts[a.bytes]?).isNone then s.orphans ++ [c] else s.orphans }) ∨
    ∃ policy store, call = .attaching policy ∧ attachTx s.store a policy = some store ∧
      t = { s with store := store, calls := s.calls.eraseIdx i } := by
  cases call with
  | rotating info c =>
    simp only [commit] at h
    by_cases hfresh : (s.store.rotatedCredentials[c.id.bytes]?).isSome
    · rw [if_pos hfresh] at h
      cases h
    rw [if_neg hfresh] at h
    obtain rfl := Option.some.inj h
    cases hcommit : rotateTx s.store a info c with
    | none =>
      unfold rotateTx at hcommit
      split_ifs at hcommit with hkey
      exact .inl ⟨rfl, .inl ⟨info, c, rfl, hkey⟩⟩
    | some store => exact .inr (.inl ⟨info, c, store, rfl, Option.not_isSome_iff_eq_none.mp hfresh, hcommit, rfl⟩)
  | attaching policy =>
    obtain rfl := Option.some.inj h
    cases hcommit : attachTx s.store a policy with
    | none =>
      unfold attachTx at hcommit
      split_ifs at hcommit with hpolicy
      exact .inl ⟨rfl, .inr ⟨policy, rfl, hpolicy⟩⟩
    | some store => exact .inr (.inr ⟨policy, store, rfl, hcommit, rfl⟩)

/-- A step other than a call's transaction: it changes no row, or it is the deletion. -/
theorem step_cases {e : Event} (h : step a s e = some t) :
    (∃ i call, e = .write i ∧ s.calls[i]? = some call ∧ commit a s i call = some t) ∨
    (t.store = s.store ∧ t.deletion = s.deletion ∧ t.orphans = s.orphans ∧ (∀ i, e ≠ .write i) ∧
      (t.calls = s.calls ∨ (∃ policy, t.calls = s.calls ++ [.attaching policy]) ∨
        ∃ info c, t.calls = s.calls ++ [.rotating info c] ∧ getServiceAccount s.store a = some info ∧
          c.serviceAccountId = a.uuid ∧ c.id ≠ info.credential.id)) ∨
    (∃ info, e = .deleteRead ∧ s.deletion = .ahead ∧ getServiceAccount s.store a = some info ∧
      t = { s with deletion := .reading info }) ∨
    ∃ info, e = .deleteWrite ∧ s.deletion = .reading info ∧
      t = { s with store := deleteTx s.store a info, deletion := .done } := by
  cases e with
  | rotate c =>
    refine .inr (.inl ?_)
    cases hget : getServiceAccount s.store a with
    | none =>
      simp only [step, hget, Option.elim_none, Option.some.injEq] at h
      subst h
      exact ⟨rfl, rfl, rfl, nofun, .inl rfl⟩
    | some info =>
      simp only [step, hget, Option.elim_some] at h
      split_ifs at h with hdisabled hid
      · obtain rfl := Option.some.inj h
        exact ⟨rfl, rfl, rfl, nofun, .inl rfl⟩
      · obtain rfl := Option.some.inj h
        exact ⟨rfl, rfl, rfl, nofun, .inr (.inr ⟨info, c, rfl, rfl, hid⟩)⟩
  | attach policy =>
    refine .inr (.inl ?_)
    cases hget : getServiceAccount s.store a with
    | none =>
      simp only [step, hget, Option.elim_none, Option.some.injEq] at h
      subst h
      exact ⟨rfl, rfl, rfl, nofun, .inl rfl⟩
    | some info =>
      simp only [step, hget, Option.elim_some, Option.some.injEq] at h
      subst h
      exact ⟨rfl, rfl, rfl, nofun, .inr (.inl ⟨policy, rfl⟩)⟩
  | write i =>
    obtain ⟨call, hcall, hcommit⟩ := Option.bind_eq_some_iff.mp h
    exact .inl ⟨i, call, rfl, hcall, hcommit⟩
  | deleteRead =>
    cases hdeletion : s.deletion with
    | ahead =>
      cases hget : getServiceAccount s.store a with
      | none =>
        simp only [step, hdeletion, hget, Option.elim_none, Option.some.injEq] at h
        subst h
        exact .inr (.inl ⟨rfl, hdeletion, rfl, nofun, .inl rfl⟩)
      | some info =>
        simp only [step, hdeletion, hget, Option.elim_some, Option.some.injEq] at h
        exact .inr (.inr (.inl ⟨info, rfl, rfl, rfl, h.symm⟩))
    | reading info => simp only [step, hdeletion, reduceCtorEq] at h
    | done => simp only [step, hdeletion, reduceCtorEq] at h
  | deleteWrite =>
    cases hdeletion : s.deletion with
    | ahead => simp only [step, hdeletion, reduceCtorEq] at h
    | reading info =>
      simp only [step, hdeletion, Option.some.injEq] at h
      exact .inr (.inr (.inr ⟨info, rfl, rfl, h.symm⟩))
    | done => simp only [step, hdeletion, reduceCtorEq] at h

theorem enrichInfo_of_get {info : ServiceAccountInfo} (h : getServiceAccount s.store a = some info) :
    ∃ record, s.store.accounts[a.bytes]? = some record ∧ info = enrichInfo s.store record := by
  obtain ⟨record, hrecord, rfl⟩ := Option.map_eq_some_iff.mp h
  exact ⟨record, hrecord, rfl⟩

theorem Tidy.step (h : Tidy a primary s) {e : Event} (hstep : step a s e = some t) : Tidy a primary t := by
  rcases step_cases hstep with ⟨i, call, rfl, hcall, hcommit⟩ | ⟨hstore, hdeletion, -, -, hcalls⟩ |
    ⟨info, rfl, hahead, hget, rfl⟩ |
    ⟨info, rfl, hreading, rfl⟩
  · have hsub : ∀ x ∈ s.calls.eraseIdx i, x ∈ s.calls := fun x hx => List.mem_of_mem_eraseIdx hx
    have hmem : call ∈ s.calls := List.mem_of_getElem? hcall
    rcases commit_cases hcommit with ⟨rfl, -⟩ | ⟨info, c, store, rfl, hfresh, htx, rfl⟩ | ⟨policy, store, rfl, htx, rfl⟩
    · exact ⟨fun info c hc => h.calls info c (hsub _ hc), h.account, h.ahead, h.reading, h.present, h.gone⟩
    · obtain ⟨haccount, hne⟩ := h.calls info c hmem
      have hgrows := grows_rotateTx hfresh htx
      have hindexed : s.deletion = .ahead → Indexed a primary store :=
        fun hahead => (h.ahead hahead).rotateTx haccount hne hfresh htx
      obtain ⟨-, rfl⟩ := rotateTx_eq_some htx
      refine ⟨fun info c hc => h.calls info c (hsub _ hc), h.account, hindexed, fun info' hreading c' hc' hne' => ?_,
        h.present, h.gone⟩
      obtain ⟨r, hr⟩ := Option.isSome_iff_exists.mp (h.reading info' hreading c' hc' hne')
      exact Option.isSome_iff_exists.mpr ⟨r, hgrows.rotated _ r hr⟩
    · have hindexed : s.deletion = .ahead → Indexed a primary store := fun hahead => (h.ahead hahead).attachTx htx
      obtain ⟨-, rfl⟩ := attachTx_eq_some htx
      exact ⟨fun info c hc => h.calls info c (hsub _ hc), h.account, hindexed, h.reading, h.present, h.gone⟩
  · refine ⟨fun info c hc => ?_, by rw [hstore]; exact h.account, by rw [hstore, hdeletion]; exact h.ahead,
      by rw [hstore, hdeletion]; exact h.reading, by rw [hstore, hdeletion]; exact h.present,
        by rw [hstore, hdeletion]; exact h.gone⟩
    rcases hcalls with hsame | ⟨policy, hadd⟩ | ⟨info', c', hadd, hget, haccount, hne⟩
    · rw [hsame] at hc
      exact h.calls info c hc
    · rw [hadd] at hc
      rcases List.mem_append.mp hc with hc | hc
      · exact h.calls info c hc
      · cases List.mem_singleton.mp hc
    · rw [hadd] at hc
      rcases List.mem_append.mp hc with hc | hc
      · exact h.calls info c hc
      · obtain ⟨rfl, rfl⟩ := Call.rotating.inj (List.mem_singleton.mp hc)
        obtain ⟨record, hrecord, rfl⟩ := enrichInfo_of_get hget
        rw [← (h.account record hrecord).2]
        exact ⟨haccount, hne⟩
  · obtain ⟨record, hrecord, rfl⟩ := enrichInfo_of_get hget
    have hindexed := h.ahead hahead
    refine ⟨h.calls, h.account, nofun, fun info' hinfo' c hc hne => ?_,
      fun _ => h.present (by rw [hahead]; exact nofun), nofun⟩
    obtain rfl := Deletion.reading.inj hinfo'
    rcases List.mem_cons.mp hc with rfl | hc
    · exact absurd rfl hne
    · obtain ⟨r, hr, rfl⟩ := List.mem_map.mp hc
      obtain ⟨hrow, haccount⟩ := List.mem_filter.mp hr
      obtain ⟨k, hk⟩ := Table.mem_rows.mp hrow
      have hid := (h.account record hrecord).1
      obtain ⟨rfl, -⟩ := hindexed.rotated k r hk ((of_decide_eq_true haccount).trans hid)
      exact Option.isSome_iff_exists.mpr ⟨r, hk⟩
  · have hgone : (deleteTx s.store a info).accounts[a.bytes]? = none := Table.lookup_erase_self _ _
    exact ⟨h.calls, fun info' hinfo' => absurd (hgone.symm.trans hinfo') nofun, nofun, nofun, fun hne => absurd rfl hne,
      fun _ => hgone⟩

/-- A transaction of a call, seen from the deletion: rows stay, and one that the deletion does not cover is added
exactly if the event strays. -/
theorem clean_commit_iff (h : Tidy a primary s) {i : Nat} {call : Call} (hcall : s.calls[i]? = some call)
    (hcommit : commit a s i call = some t) : Clean a t ↔ Clean a s ∧ ¬ Strays s (.write i) := by
  have hmem : call ∈ s.calls := List.mem_of_getElem? hcall
  rcases commit_cases hcommit with ⟨rfl, hfailed⟩ | ⟨info, c, store, rfl, hfresh, htx, rfl⟩ |
    ⟨policy, store, rfl, htx, rfl⟩
  · -- the transaction fails
    refine ⟨fun hclean => ⟨hclean, ?_⟩, And.left⟩
    rintro (⟨⟨info, c, hsame, hkey⟩, -⟩ | ⟨j, policy, hj, hsame, hpolicy, -⟩)
    · rw [hcall] at hsame
      rcases hfailed with ⟨info', c', rfl, hkey'⟩ | ⟨policy, rfl, -⟩
      · obtain ⟨rfl, rfl⟩ := Call.rotating.inj (Option.some.inj hsame)
        rw [Option.isNone_iff_eq_none.mp hkey] at hkey'
        cases hkey'
      · cases hsame
    · obtain rfl := Event.write.inj hj
      rw [hcall] at hsame
      rcases hfailed with ⟨info', c', rfl, -⟩ | ⟨policy', rfl, hpolicy'⟩
      · cases hsame
      · obtain rfl := Call.attaching.inj (Option.some.inj hsame)
        rw [Option.isNone_iff_eq_none.mp hpolicy'] at hpolicy
        cases hpolicy
  · -- a rotation commits
    obtain ⟨haccount, hne⟩ := h.calls info c hmem
    have hgrows := grows_rotateTx hfresh htx
    obtain ⟨hkey, hstore⟩ := rotateTx_eq_some htx
    have hrow : store.rotatedCredentials[c.id.bytes]? = some { info with credential := c, credentials := [c] } := by
      rw [hstore, Table.lookup_insert_self]
    have hrotates : Rotates s (.write i) := ⟨info, c, hcall, by rw [hkey]; rfl⟩
    constructor
    · rintro ⟨horphans, hreading, hdone⟩
      have hahead : s.deletion = .ahead := by
        cases hdeletion : s.deletion with
        | ahead => rfl
        | reading read =>
          -- the new credential is none of those that were read, which are all still there
          obtain ⟨c', hc', hid⟩ := List.mem_map.mp ((hreading read hdeletion).rotated _ _ hrow haccount)
          obtain ⟨hc', hother⟩ := List.mem_filter.mp hc'
          have hsome := h.reading read hdeletion c' hc' (of_decide_eq_true hother)
          rw [hid, hfresh] at hsome
          cases hsome
        | done => exact absurd ((hdone hdeletion).rotated _ _ hrow haccount) List.not_mem_nil
      refine ⟨⟨?_, fun read hread => ?_, fun hd => ?_⟩, ?_⟩
      · rw [if_neg] at horphans
        · exact horphans
        · intro hnone
          have hsome := h.present (by rw [hahead]; exact nofun)
          rw [Option.isNone_iff_eq_none.mp hnone] at hsome
          cases hsome
      · rw [hahead] at hread
        cases hread
      · rw [hahead] at hd
        cases hd
      · rintro (⟨-, hnot⟩ | ⟨j, policy, hj, hsame, -⟩)
        · exact hnot hahead
        · obtain rfl := Event.write.inj hj
          rw [hcall] at hsame
          cases hsame
    · rintro ⟨⟨horphans, -, -⟩, hnot⟩
      have hahead : s.deletion = .ahead := by
        by_contra hlater
        exact hnot (.inl ⟨hrotates, hlater⟩)
      refine ⟨?_, fun read hread => ?_, fun hd => ?_⟩
      · change (if (s.store.accounts[a.bytes]?).isNone then s.orphans ++ [c] else s.orphans) = []
        rw [if_neg, horphans]
        intro hnone
        have hsome := h.present (by rw [hahead]; exact nofun)
        rw [Option.isNone_iff_eq_none.mp hnone] at hsome
        cases hsome
      · exact absurd (hahead.symm.trans hread) nofun
      · exact absurd (hahead.symm.trans hd) nofun
  · -- an attachment commits
    have hgrows := grows_attachTx htx
    obtain ⟨hpolicy, hstore⟩ := attachTx_eq_some htx
    have hrow : store.policyBindings[accountKey a policy]? = some () := by rw [hstore, Table.lookup_insert_self]
    have hprefix : a.bytes <+: accountKey a policy := List.prefix_append _ _
    constructor
    · rintro ⟨horphans, hreading, hdone⟩
      refine ⟨⟨horphans, fun read hread => (hreading read hread).anti hgrows, fun hd => (hdone hd).anti hgrows⟩, ?_⟩
      rintro (⟨⟨info, c, hsame, -⟩, -⟩ | ⟨j, policy', hj, hsame, -, hlate⟩)
      · rw [hcall] at hsame
        cases hsame
      · obtain rfl := Event.write.inj hj
        rw [hcall] at hsame
        obtain rfl := Call.attaching.inj (Option.some.inj hsame)
        rcases hlate with hd | ⟨read, hread, hunbound⟩
        · exact List.not_mem_nil ((hdone hd).bindings _ _ hrow hprefix)
        · obtain ⟨bound, hbound, hsame⟩ := List.mem_map.mp ((hreading read hread).bindings _ _ hrow hprefix)
          exact hunbound (accountKey_inj hsame ▸ hbound)
    · rintro ⟨⟨horphans, hreading, hdone⟩, hnot⟩
      have hlate : ¬ (s.deletion = .done ∨
          ∃ info, s.deletion = .reading info ∧ policy ∉ info.policyBindings) := fun hlate =>
        hnot (.inr ⟨i, policy, rfl, hcall, hpolicy, hlate⟩)
      rw [not_or] at hlate
      refine ⟨horphans, fun read hread => ?_, fun hd => absurd hd hlate.1⟩
      have hold := hreading read hread
      subst hstore
      refine ⟨hold.keys, hold.rotated, fun k u hk hu => ?_⟩
      rcases Table.of_lookup_insert hk with ⟨hsame, -⟩ | ⟨-, hk⟩
      · by_contra hunbound
        refine hlate.2 ⟨read, hread, fun hbound => hunbound ?_⟩
        rw [hsame]
        exact List.mem_map_of_mem hbound
      · exact hold.bindings k u hk hu

theorem not_rotates {e : Event} (hwrite : ∀ i, e ≠ .write i) : ¬ Rotates s e := by
  cases e with
  | write i => exact absurd rfl (hwrite i)
  | rotate => exact id
  | attach => exact id
  | deleteRead => exact id
  | deleteWrite => exact id

/-- Only transactions of calls stray. -/
theorem not_strays {e : Event} (hwrite : ∀ i, e ≠ .write i) : ¬ Strays s e := by
  rintro (⟨hrotates, -⟩ | ⟨i, policy, hi, -⟩)
  · exact not_rotates hwrite hrotates
  · exact hwrite i hi

theorem clean_step_iff (h : Tidy a primary s) {e : Event} (hstep : step a s e = some t) :
    Clean a t ↔ Clean a s ∧ ¬ Strays s e := by
  rcases step_cases hstep with ⟨i, call, rfl, hcall, hcommit⟩ | ⟨hstore, hdeletion, horphans, hwrite, -⟩ |
    ⟨info, rfl, hahead, hget, rfl⟩ |
    ⟨info, rfl, hreading, rfl⟩
  · exact clean_commit_iff h hcall hcommit
  · unfold Clean
    rw [hstore, hdeletion, horphans]
    exact ⟨fun hclean => ⟨hclean, not_strays hwrite⟩, And.left⟩
  · obtain ⟨record, hrecord, rfl⟩ := enrichInfo_of_get hget
    constructor
    · rintro ⟨horphans, -, -⟩
      refine ⟨⟨horphans, fun read hread => absurd (hahead.symm.trans hread) nofun,
        fun hd => absurd (hahead.symm.trans hd) nofun⟩, not_strays nofun⟩
    · rintro ⟨⟨horphans, -, -⟩, -⟩
      refine ⟨horphans, fun read hread => ?_, nofun⟩
      obtain rfl := Deletion.reading.inj hread
      exact covered_enrichInfo (h.ahead hahead) hrecord
  · constructor
    · rintro ⟨horphans, -, hdone⟩
      refine ⟨⟨horphans, fun read hread => ?_, fun hd => absurd (hreading.symm.trans hd) nofun⟩, not_strays nofun⟩
      obtain rfl := Deletion.reading.inj (hreading.symm.trans hread)
      exact within_deleteTx_iff.mp (hdone rfl)
    · rintro ⟨⟨horphans, hcovered, -⟩, -⟩
      exact ⟨horphans, nofun, fun _ => within_deleteTx_iff.mpr (hcovered info hreading)⟩

/-- The index keeps what it has, and gains a row with every rotation. -/
theorem indexClean_step_iff {e : Event} (hstep : step a s e = some t) :
    IndexClean a t.store ↔ IndexClean a s.store ∧ ¬ Rotates s e := by
  rcases step_cases hstep with ⟨i, call, rfl, hcall, hcommit⟩ | ⟨hstore, -, -, hwrite, -⟩ |
    ⟨info, rfl, -, -, rfl⟩ | ⟨info, rfl, -, rfl⟩
  · rcases commit_cases hcommit with ⟨rfl, hfailed⟩ | ⟨info, c, store, rfl, -, htx, rfl⟩ |
      ⟨policy, store, rfl, htx, rfl⟩
    · refine ⟨fun hclean => ⟨hclean, ?_⟩, And.left⟩
      rintro ⟨info, c, hsame, hkey⟩
      rw [hcall] at hsame
      rcases hfailed with ⟨info', c', rfl, hkey'⟩ | ⟨policy, rfl, -⟩
      · obtain ⟨rfl, rfl⟩ := Call.rotating.inj (Option.some.inj hsame)
        rw [Option.isNone_iff_eq_none.mp hkey] at hkey'
        cases hkey'
      · cases hsame
    · obtain ⟨hkey, hstore⟩ := rotateTx_eq_some htx
      refine iff_of_false (fun hclean => ?_) fun hboth => hboth.2 ⟨info, c, hcall, by rw [hkey]; rfl⟩
      have hrow : store.accountCredentials[accountKey a c.id]? = some () := by rw [hstore, Table.lookup_insert_self]
      exact hclean _ () hrow (List.prefix_append _ _)
    · obtain ⟨-, rfl⟩ := attachTx_eq_some htx
      refine ⟨fun hclean => ⟨hclean, ?_⟩, And.left⟩
      rintro ⟨info, c, hsame, -⟩
      rw [hcall] at hsame
      cases hsame
  · rw [hstore]
    exact ⟨fun hclean => ⟨hclean, not_rotates hwrite⟩, And.left⟩
  · exact ⟨fun hclean => ⟨hclean, id⟩, And.left⟩
  · exact ⟨fun hclean => ⟨hclean, id⟩, And.left⟩

/-- An access key that still refers to a deleted account is a failure of the backend. -/
theorem signingSecret_stale {decrypts : ServiceAccountInfo → Bool} {store : CredentialStore} {now : Int} {k v : Bytes}
    (hgone : store.accounts[a.bytes]? = none) (hk : store.accessKeys[k]? = some v) (hv : a.bytes <+: v) :
    signingSecret decrypts store now k = .error .backend := by
  obtain ⟨y, rfl⟩ := hv
  have htake : (a.bytes ++ y).take 16 = a.bytes := List.take_left' a.uuid.length_bytes
  have hlookup : lookupServiceSecret decrypts store now k = .error .corruptIndex := by
    simp only [lookupServiceSecret, hk, htake, hgone, ite_self]
  simp only [signingSecret, hlookup]

/-- After the deletion of an account and whatever else was under way for it.  Of its access keys, rotated
credentials and bindings nothing remains, and no credential was handed out after it was gone, exactly if no event
strayed; of the index nothing remains exactly if there was nothing before and no rotation; and a key that remains is
not answered as unknown. -/
theorem delete_leaves_nothing_iff (a : ServiceAccountId) (primary : Credential) (store : CredentialStore)
    (hindexed : Indexed a primary store) (haccount : (store.accounts[a.bytes]?).isSome)
    (events : List Event) (t : World)
    (hrun : run (step a) (opening store) events = some t)
    (hdone : t.deletion = .done) (decrypts : ServiceAccountInfo → Bool) (now : Int) :
    ((Within a [] [] [] t.store ∧ t.orphans = []) ↔ Meets (step a) (fun s e => ¬ Strays s e) (opening store) events) ∧
    (IndexClean a t.store ↔ IndexClean a store ∧ Meets (step a) (fun s e => ¬ Rotates s e) (opening store) events) ∧
    (∀ k v, t.store.accessKeys[k]? = some v → a.bytes <+: v → signingSecret decrypts t.store now k = .error .backend) ∧
    ∀ k, t.store.accessKeys[k]? = none → signingSecret decrypts t.store now k = .error .unknownAccessKey := by
  have hstart : Tidy a primary (opening store) :=
    ⟨fun _ _ hc => absurd hc List.not_mem_nil, hindexed.account, fun _ => hindexed, nofun, fun _ => haccount, nofun⟩
  have htidy := run_preserves (fun s e s' h hs => h.step hs) events hstart hrun
  refine ⟨?_, ?_, fun k v hk hv => signingSecret_stale (htidy.gone hdone) hk hv, fun k hk => ?_⟩
  · have hclean := run_iff (P := Clean a) (fun s e s' h hs => h.step hs)
      (fun s e s' h hs => clean_step_iff h hs) events hstart hrun
    have hfirst : Clean a (opening store) := ⟨rfl, nofun, nofun⟩
    rw [and_iff_right hfirst] at hclean
    rw [← hclean]
    constructor
    · exact fun h => ⟨h.2, fun read hread => absurd (hdone.symm.trans hread) nofun, fun _ => h.1⟩
    · exact fun h => ⟨h.2.2 hdone, h.1⟩
  · exact run_iff (I := fun _ => True) (P := fun s => IndexClean a s.store) (fun _ _ _ _ _ => trivial)
      (fun s e s' _ hs => indexClean_step_iff hs) events trivial hrun
  · simp only [signingSecret, lookupServiceSecret, hk]

/-- Nothing strays if the deletion reads after all other transactions. -/
theorem meets_of_deleted_last {events : List Event} (hahead : s.deletion = .ahead)
    (hevents : ∀ e ∈ events, e ≠ .deleteRead) :
    Meets (step a) (fun s e => ¬ Strays s e) s (events ++ [.deleteRead, .deleteWrite]) := by
  induction events generalizing s with
  | nil => exact ⟨not_strays nofun, fun _ _ => ⟨not_strays nofun, fun _ _ => trivial⟩⟩
  | cons e events ih =>
    refine ⟨?_, fun t hstep => ih ?_ fun e' he' => hevents e' (List.mem_cons_of_mem _ he')⟩
    · rintro (⟨-, hlater⟩ | ⟨i, policy, -, -, -, hdone | ⟨info, hreading, -⟩⟩)
      · exact hlater hahead
      · exact absurd (hahead.symm.trans hdone) nofun
      · exact absurd (hahead.symm.trans hreading) nofun
    · rcases step_cases hstep with ⟨i, call, -, -, hcommit⟩ | ⟨-, hdeletion, -⟩ | ⟨info, rfl, -⟩ |
        ⟨info, -, hreading, -⟩
      · rcases commit_cases hcommit with ⟨rfl, -⟩ | ⟨info, c, store, -, -, -, rfl⟩ | ⟨policy, store, -, -, rfl⟩ <;>
          exact hahead
      · exact hdeletion.trans hahead
      · exact absurd rfl (hevents _ List.mem_cons_self)
      · exact absurd (hahead.symm.trans hreading) nofun

end Runs

namespace Sample

def account : ServiceAccountId := ⟨Uuid.ofNat 1, 0, by decide, by decide⟩

def primary : Credential := ⟨Uuid.ofNat 2, Uuid.ofNat 1, "SA1", false, none⟩

def rotated : Credential := ⟨Uuid.ofNat 3, Uuid.ofNat 1, "SA2", false, none⟩

/-- A store with one policy. -/
def blank : CredentialStore := ⟨∅, ∅, ∅, ∅, (∅ : Table Bytes Unit).insert (Uuid.ofNat 4).bytes (), ∅⟩

def inUse : CredentialStore := (createTx blank account primary).getD blank

theorem created : createTx blank account primary = some inUse := rfl

def calls : List Event := [.rotate rotated, .attach (Uuid.ofNat 4), .write 1, .write 0]

/-- A rotation and an attachment, and then the deletion. -/
def orderly : List Event := calls ++ [.deleteRead, .deleteWrite]

/-- A rotation whose transaction comes after the deletion's. -/
def late : List Event := [.rotate rotated, .deleteRead, .deleteWrite, .write 0]

end Sample

theorem delete_leaves_nothing_orderly : ∃ t, run (step Sample.account) (opening Sample.inUse) Sample.orderly = some t ∧
    Within Sample.account [] [] [] t.store ∧ t.orphans = [] := by
  have hnone : Within Sample.account [] [] [] Sample.blank :=
    ⟨fun k v hk => absurd ((Table.lookup_empty k).symm.trans hk) nofun,
      fun k r hk => absurd ((Table.lookup_empty k).symm.trans hk) nofun,
      fun k u hk => absurd ((Table.lookup_empty k).symm.trans hk) nofun⟩
  obtain ⟨t, hrun, hgone⟩ : ∃ t, run (step Sample.account) (opening Sample.inUse) Sample.orderly = some t ∧
      t.deletion.finished = true := by decide +kernel
  have hindexed := (indexed_createTx hnone Sample.created).1
  have hresult := delete_leaves_nothing_iff Sample.account Sample.primary Sample.inUse hindexed
    (by decide +kernel) Sample.orderly t hrun (Deletion.eq_done hgone) (fun _ => true) 0
  exact ⟨t, hrun, hresult.1.mpr (meets_of_deleted_last rfl (by simp [Sample.calls]))⟩

/-- The deletion alone leaves the index behind; a rotation that commits after it leaves an access key that is
answered as a failure of the backend, and hands out a credential for the deleted account. -/
theorem delete_leaves_rows :
    (∃ t, run (step Sample.account) (opening Sample.inUse) [.deleteRead, .deleteWrite] = some t ∧
      ¬ IndexClean Sample.account t.store) ∧
    ∃ t, run (step Sample.account) (opening Sample.inUse) Sample.late = some t ∧ t.orphans = [Sample.rotated] ∧
      signingSecret (fun _ => true) t.store 0 (asBytes "SA2") = .error .backend := by
  refine ⟨?_, by decide +kernel⟩
  obtain ⟨t, hrun, hrow⟩ : ∃ t, run (step Sample.account) (opening Sample.inUse) [.deleteRead, .deleteWrite] = some t ∧
      (t.store.accountCredentials[accountKey Sample.account Sample.primary.id]?).isSome = true := by decide +kernel
  obtain ⟨u, hu⟩ := Option.isSome_iff_exists.mp hrow
  exact ⟨t, hrun, fun hclean => hclean _ u hu (List.prefix_append _ _)⟩

end RecordStore.Auth
