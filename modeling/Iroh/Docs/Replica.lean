import Iroh.Docs.Store.Fs

/-! `Replica` (`sync.rs`): the paths by which entries enter a document, all through
`insert_entry` and `Store::put` on the on-disk store, or through the reconciliation.

Local inserts (`insert`, `delete_prefix`) sign with the replica's namespace secret;
remote entries (`insert_remote_entry`) are checked by `validate_empty` and then,
like the local ones, by `validate_entry`; entries that arrive in a reconciliation
(`sync_process_message`) pass the validate callback of `process_message`, which is
`validate_entry` alone.

Signing, verifying and blake3 are outside the model (`Env`). The clock is an
argument: each operation reads `system_time_now` once here. Events to subscribers,
sync statistics and the download policy are not modelled. -/
namespace Iroh.Docs

open Ranger Store

/-- What the replica takes from outside: signing an entry with a namespace secret
and an author, `SignedEntry::verify` against the public keys, `Fingerprint::empty`,
`as_fingerprint`, and the content status callback. -/
structure Env where
  sign : NamespaceId → AuthorId → Entry → EntrySignature
  verify : SignedEntry → Bool
  emptyFingerprint : Fingerprint
  asFingerprint : SignedEntry → Fingerprint
  contentStatusCb : Option (Hash → ContentStatus)

/-- `Capability`: a namespace secret, given by its namespace, or read access. -/
inductive Capability where
  | write (secret : NamespaceId)
  | read (id : NamespaceId)
deriving DecidableEq, Repr

namespace Capability

/-- `Capability::id`. -/
def id : Capability → NamespaceId
  | write secret => secret
  | read id => id

/-- `Capability::secret_key`. -/
def secretKey : Capability → Option NamespaceId
  | write secret => some secret
  | read _ => none

end Capability

/-- `ReplicaInfo`: the capability and whether the replica is closed. -/
structure ReplicaInfo where
  capability : Capability
  closed : Bool
deriving DecidableEq, Repr

/-- `Replica`: the store's records table and the replica's info. -/
structure Replica where
  records : Records
  info : ReplicaInfo

/-- `InsertOrigin`. -/
inductive InsertOrigin where
  | «local»
  | sync (receivedFrom : Fin (2 ^ 256)) (remoteContentStatus : ContentStatus)
deriving DecidableEq, Repr

/-- `InsertError`. -/
inductive InsertError where
  | store
  | validation (failure : ValidationFailure)
  | newerEntryExists
  | entryIsEmpty
  | readOnly
  | closed
deriving DecidableEq, Repr

/-- `validate_entry`: the entry's namespace, its signatures unless it is local, and a
timestamp at most `MAX_TIMESTAMP_FUTURE_SHIFT` past `now`. -/
def validateEntry (env : Env) (now : UInt64) (expectedNamespace : NamespaceId)
    (entry : SignedEntry) (origin : InsertOrigin) : Except ValidationFailure Unit :=
  if entry.entry.id.ns ≠ expectedNamespace then .error .invalidNamespace
  else if origin ≠ .«local» && !env.verify entry then .error .badSignature
  else if entry.entry.record.timestamp > now + MAX_TIMESTAMP_FUTURE_SHIFT then
    .error .tooFarInTheFuture
  else .ok ()

namespace Replica
variable (env : Env) (now : UInt64)

/-- `Replica::id`. -/
def id (r : Replica) : NamespaceId := r.info.capability.id

/-- The replica's `StoreInstance`. -/
def store (r : Replica) : Ranger.Store Records SignedEntry RecordIdentifier Record :=
  storeInstance r.id env.emptyFingerprint env.asFingerprint

/-- `ReplicaInfo::ensure_open`. -/
def ensureOpen (r : Replica) : Except InsertError Unit :=
  if r.info.closed then .error .closed else .ok ()

/-- `insert_entry`: validate, then `Store::put`; an entry that is not inserted is
`NewerEntryExists`. Returns the replica and the number of entries removed. -/
def insertEntry (r : Replica) (entry : SignedEntry) (origin : InsertOrigin) :
    Except InsertError (Replica × Nat) :=
  match validateEntry env now r.id entry origin with
  | .error failure => .error (.validation failure)
  | .ok () =>
    match put (r.store env) (signedEntry env.asFingerprint) r.records entry with
    | (records, .inserted removed) => .ok ({ r with records }, removed)
    | (_, .notInserted) => .error .newerEntryExists

/-- `Replica::insert`: a non-empty entry at `key`, signed and inserted as local. -/
def insert (r : Replica) (key : List Byte) (author : AuthorId) (hash : Hash) (len : UInt64) :
    Except InsertError (Replica × Nat) :=
  if len == 0 || hash == Hash.EMPTY then .error .entryIsEmpty
  else if r.info.closed then .error .closed
  else
    let entry : Entry := ⟨⟨r.id, author, key⟩, ⟨len, hash, now⟩⟩
    match r.info.capability.secretKey with
    | none => .error .readOnly
    | some secret => insertEntry env now r ⟨env.sign secret author entry, entry⟩ .«local»

/-- `Replica::delete_prefix`: an empty entry at the prefix, signed and inserted as
local, which removes the author's older entries below it. -/
def deletePrefix (r : Replica) (keyPrefix : List Byte) (author : AuthorId) :
    Except InsertError (Replica × Nat) :=
  if r.info.closed then .error .closed
  else
    let entry : Entry := ⟨⟨r.id, author, keyPrefix⟩, Record.empty now⟩
    match r.info.capability.secretKey with
    | none => .error .readOnly
    | some secret => insertEntry env now r ⟨env.sign secret author entry, entry⟩ .«local»

/-- `Replica::insert_remote_entry`: `validate_empty`, then `insert_entry` from a peer. -/
def insertRemoteEntry (r : Replica) (entry : SignedEntry) (receivedFrom : Fin (2 ^ 256))
    (contentStatus : ContentStatus) : Except InsertError (Replica × Nat) :=
  if r.info.closed then .error .closed
  else
    match entry.entry.validateEmpty with
    | .error failure => .error (.validation failure)
    | .ok () => insertEntry env now r entry (.sync receivedFrom contentStatus)

/-- The callbacks `sync_process_message` gives `process_message`: `validate_entry` as
from the peer, and the content status callback (`Missing` without one). -/
def syncCallbacks (r : Replica) (fromPeer : Fin (2 ^ 256)) : Callbacks Records SignedEntry where
  validate _ entry contentStatus :=
    match validateEntry env now r.id entry (.sync fromPeer contentStatus) with
    | .ok () => true
    | .error _ => false
  contentStatus _ entry :=
    match env.contentStatusCb with
    | some cb => cb entry.entry.record.hash
    | none => .missing

/-- `Replica::sync_process_message`: one round of the reconciliation on the replica's
store, with the default configuration. -/
def syncProcessMessage (r : Replica) (message : Message SignedEntry RecordIdentifier)
    (fromPeer : Fin (2 ^ 256)) :
    Except InsertError (Replica × Option (Message SignedEntry RecordIdentifier)) :=
  if r.info.closed then .error .closed
  else
    let (records, _, reply) := processMessage (r.store env) (signedEntry env.asFingerprint)
      (syncCallbacks env now r fromPeer) SyncConfig.default env.emptyFingerprint r.records message
    .ok ({ r with records }, reply)

/-- `Replica::sync_initial_message`: the fingerprint of the replica's whole store. -/
def syncInitialMessage (r : Replica) : Except InsertError (Message SignedEntry RecordIdentifier) :=
  if r.info.closed then .error .closed
  else .ok (initialMessage (r.store env) r.records)

/-! ### What each path checks -/

end Replica

/-- A deletion of the prefix `[97]` at time 20, then a remote entry at `[97, 98]`
written at time 10: both rows stay, the deletion marker above the older entry. -/
theorem deletePrefix_then_older_remote_entry :
    let env : Env := ⟨fun _ _ _ => ⟨0, 0⟩, fun _ => true, 0, fun _ => 0, none⟩
    let r : Replica := ⟨⟨[], .nil⟩, ⟨.write 1, false⟩⟩
    let older : SignedEntry := ⟨⟨0, 0⟩, ⟨⟨1, 0, [97, 98]⟩, ⟨1, 5, 10⟩⟩⟩
    ∃ r₁ r₂ n₁ n₂, r.deletePrefix env 20 [97] 0 = .ok (r₁, n₁) ∧
      r₁.insertRemoteEntry env 20 older 0 .complete = .ok (r₂, n₂) ∧
      ¬r₂.records.PrefixDominance := by
  intro env r older
  exact ⟨_, _, _, _, rfl, rfl, by decide +kernel⟩

/-- An entry of length 0 whose hash is not the empty hash: `insert_remote_entry`
refuses it, and an answer of a reconciliation carrying it stores it. -/
theorem syncProcessMessage_stores_invalid_empty :
    let env : Env := ⟨fun _ _ _ => ⟨0, 0⟩, fun _ => true, 0, fun _ => 0, none⟩
    let r : Replica := ⟨⟨[], .nil⟩, ⟨.write 1, false⟩⟩
    let bad : SignedEntry := ⟨⟨0, 0⟩, ⟨⟨1, 0, [97]⟩, ⟨0, 5, 10⟩⟩⟩
    let msg : Message SignedEntry RecordIdentifier :=
      ⟨[.rangeItem ⟨⟨⟨1, 0, []⟩, ⟨1, 0, []⟩⟩, [(bad, .complete)], true⟩]⟩
    r.insertRemoteEntry env 20 bad 0 .complete = .error (.validation .invalidEmptyEntry) ∧
      ∃ r₁ reply, r.syncProcessMessage env 20 msg 0 = .ok (r₁, reply) ∧
        ∃ row ∈ r₁.records.rows, row.2.len = 0 ∧ row.2.hash ≠ Hash.EMPTY := by
  intro env r bad msg
  exact ⟨rfl, _, _, rfl, by decide +kernel⟩

end Iroh.Docs
