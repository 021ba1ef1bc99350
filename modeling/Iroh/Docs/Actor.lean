import Iroh.Docs.Store.Peers

/-! The docs actor's open replicas (`actor.rs`).

Clients of a `SyncHandle` open a replica, use it and close it. The actor counts the handles
that hold each replica open (`OpenReplicas::open_with` and `close`): the first open loads the
replica's capability from the store, which then counts the replica as open
(`load_replica_info`), and the last close tells the store it is closed (`close_replica`). A
local write needs an author of the store and an open replica; a remote entry or a sync message
needs an open replica that accepts sync (`replica_if_syncing`). `drop_replica` closes once and
asks the store to remove the replica, which the store refuses while it counts the replica open.
Importing a namespace that the store upgrades from read to write access upgrades the open
replica's capability as well.

The store is the records table, the namespace and peer tables, the ids of the authors table and
`open_replicas` (a set, as a list). What a replica does with its records is `Replica`'s. Event
subscriptions, the content status callback, download policies, flushing, and the store's
iterators (`get_many`, the author, replica and content hash listings) are not modelled, nor the
counts of a sync exchange. A handle count is a `Nat`: as a `usize` it would overflow only after
2^64 opens. Clock readings are arguments of the actions that read the clock. -/
namespace Iroh.Docs.Sync

open Ranger Store

/-- `OpenReplica`: the replica's info, whether it accepts sync, and by how many handles it is
held open. -/
structure OpenReplica where
  info : ReplicaInfo
  sync : Bool
  handles : Nat
deriving DecidableEq, Repr

/-- `OpenOpts`, without the event subscription. -/
structure OpenOpts where
  sync : Bool
deriving DecidableEq, Repr

/-- `OpenReplicas`: the open replicas by namespace. -/
abbrev OpenReplicas := AList fun _ : NamespaceId => OpenReplica

/-- How an action fails. -/
inductive Error where
  /-- "replica not open" -/
  | replicaNotOpen
  /-- "sync is not enabled for replica" -/
  | syncNotEnabled
  /-- "author not found" -/
  | authorNotFound
  /-- `OpenError::NotFound`: "Replica not found". -/
  | notFound
  /-- `ReadOnly`: "Replica allows read access only." -/
  | readOnly
  /-- A refusal of the store's tables, or of merging a capability, with its text. -/
  | store (text : String)
  /-- A refusal of the replica. -/
  | insert (e : InsertError)
  /-- "sending to actor failed": the actor has shut down. -/
  | actorGone
deriving DecidableEq, Repr

/-- `usize::wrapping_sub(1)`: below zero it wraps to the largest `usize`. -/
def wrappingSubOne (n : Nat) : Nat := if n = 0 then 2 ^ 64 - 1 else n - 1

/-- The records table without the rows of a namespace (`retain_in` over its bounds). -/
def removeNamespace (t : Records) (ns : NamespaceId) : Records :=
  ⟨t.rows.filter fun r => !(RecordsBounds.namespace ns).contains r.1, t.sorted.filter _⟩

/-! ### The store -/

/-- What the actor reads and writes of `Store`: the records table, the namespace and peer
tables, the ids of the authors table, and `open_replicas`. -/
structure DocStore (P : Type) [LinearOrder P] where
  records : Records
  tables : NamespaceTables P
  authors : List AuthorId
  openReplicas : List NamespaceId

namespace DocStore

variable {P : Type} [LinearOrder P]

/-- `Store::load_replica_info`: the stored capability as a new `ReplicaInfo`; the store then
counts the replica as open. -/
def loadReplicaInfo (s : DocStore P) (ns : NamespaceId) : Except Error (DocStore P × ReplicaInfo) :=
  match s.tables.namespaces ns with
  | some capability =>
    .ok ({ s with openReplicas := s.openReplicas.insert capability.id }, ⟨capability, false⟩)
  | none => .error .notFound

/-- `Store::close_replica`. -/
def closeReplica (s : DocStore P) (ns : NamespaceId) : DocStore P :=
  { s with openReplicas := s.openReplicas.filter (· ≠ ns) }

/-- `Store::remove_replica`: refused while the store counts the replica open; otherwise the
namespace's records, its capability and its peers go. -/
def removeReplica (s : DocStore P) (ns : NamespaceId) : Except Error (DocStore P) :=
  match s.tables.removeReplica s.openReplicas ns with
  | .ok tables => .ok { s with tables, records := removeNamespace s.records ns }
  | .error text => .error (.store text)

/-- `Store::import_namespace`. -/
def importNamespace (s : DocStore P) (capability : Capability) :
    Except Error (DocStore P × ImportNamespaceOutcome) :=
  match s.tables.importNamespace capability with
  | .ok r => .ok ({ s with tables := r.1 }, r.2)
  | .error text => .error (.store text)

/-- `get_author`: an author of the authors table. -/
def getAuthor (s : DocStore P) (author : AuthorId) : Except Error AuthorId :=
  if author ∈ s.authors then .ok author else .error .authorNotFound

/-- `Store::import_author`. -/
def importAuthor (s : DocStore P) (author : AuthorId) : DocStore P :=
  { s with authors := s.authors.insert author }

/-- `Store::delete_author`. -/
def deleteAuthor (s : DocStore P) (author : AuthorId) : DocStore P :=
  { s with authors := s.authors.filter (· ≠ author) }

variable {s : DocStore P} {ns : NamespaceId}

theorem loadReplicaInfo_of_some {c : Capability} (h : s.tables.namespaces ns = some c) :
    s.loadReplicaInfo ns = .ok ({ s with openReplicas := s.openReplicas.insert c.id }, ⟨c, false⟩) := by
  rw [loadReplicaInfo, h]

theorem loadReplicaInfo_of_none (h : s.tables.namespaces ns = none) :
    s.loadReplicaInfo ns = .error .notFound := by
  rw [loadReplicaInfo, h]

theorem removeReplica_of_mem (h : ns ∈ s.openReplicas) :
    s.removeReplica ns = .error (.store "replica is not closed") := by
  simp [removeReplica, NamespaceTables.removeReplica, h]

theorem removeReplica_of_not_mem (h : ns ∉ s.openReplicas) :
    s.removeReplica ns = .ok { s with
      tables := ⟨Function.update s.tables.namespaces ns none,
        Function.update s.tables.namespacePeers ns BTreeMap.empty⟩
      records := removeNamespace s.records ns } := by
  simp [removeReplica, NamespaceTables.removeReplica, h]

/-- Closing replicas one after another takes each out of the open set, and nothing else. -/
theorem foldl_closeReplica (l : List NamespaceId) (s : DocStore P) :
    l.foldl closeReplica s = { s with openReplicas := s.openReplicas.filter (· ∉ l) } := by
  induction l generalizing s with
  | nil => simp
  | cons k l ih =>
    rw [List.foldl_cons, ih]
    simp only [closeReplica, List.filter_filter, List.mem_cons, not_or]
    congr 2
    funext x
    simp [Bool.and_comm]

end DocStore

/-! ### The open replicas -/

namespace OpenReplicas

/-- `OpenReplicas::open_with`: a replica that is not open is loaded by `openCb` and held by one
handle; an open one gets one more handle, and accepts sync if it did or if asked to. -/
def openWith {σ : Type} (states : OpenReplicas) (ns : NamespaceId) (opts : OpenOpts)
    (openCb : σ → Except Error (σ × ReplicaInfo)) (s : σ) : Except Error (σ × OpenReplicas) :=
  match states.lookup ns with
  | none => (openCb s).map fun r => (r.1, states.insert ns ⟨r.2, opts.sync, 1⟩)
  | some state =>
    .ok (s, states.insert ns { state with handles := state.handles + 1, sync := state.sync || opts.sync })

/-- `OpenReplicas::close`: one handle less, and the last one closes the replica. A replica that
is not open counts as closed. -/
def close (states : OpenReplicas) (ns : NamespaceId) : OpenReplicas × Bool :=
  match states.lookup ns with
  | none => (states, true)
  | some state =>
    if wrappingSubOne state.handles = 0 then (states.erase ns, true)
    else (states.insert ns { state with handles := wrappingSubOne state.handles }, false)

/-- `OpenReplicas::get_mut`. -/
def getMut (states : OpenReplicas) (ns : NamespaceId) : Except Error OpenReplica :=
  match states.lookup ns with
  | some state => .ok state
  | none => .error .replicaNotOpen

/-- `OpenReplicas::replica`: the open replica over the store's records. -/
def replica (states : OpenReplicas) (ns : NamespaceId) (records : Records) : Except Error Replica :=
  (states.getMut ns).map fun state => ⟨records, state.info⟩

/-- `OpenReplicas::replica_if_syncing`. -/
def replicaIfSyncing (states : OpenReplicas) (ns : NamespaceId) (records : Records) :
    Except Error Replica :=
  match states.getMut ns with
  | .ok state => if state.sync then .ok ⟨records, state.info⟩ else .error .syncNotEnabled
  | .error e => .error e

/-- `OpenReplicas::ensure_open`. -/
def ensureOpen (states : OpenReplicas) (ns : NamespaceId) : Except Error Unit :=
  if (states.lookup ns).isSome then .ok () else .error .replicaNotOpen

variable {σ : Type} {states : OpenReplicas} {ns : NamespaceId}

theorem openWith_of_none (h : states.lookup ns = none) (opts : OpenOpts)
    (openCb : σ → Except Error (σ × ReplicaInfo)) (s : σ) :
    states.openWith ns opts openCb s =
      (openCb s).map fun r => (r.1, states.insert ns ⟨r.2, opts.sync, 1⟩) := by
  rw [openWith, h]

theorem openWith_of_some {st : OpenReplica} (h : states.lookup ns = some st) (opts : OpenOpts)
    (openCb : σ → Except Error (σ × ReplicaInfo)) (s : σ) :
    states.openWith ns opts openCb s =
      .ok (s, states.insert ns { st with handles := st.handles + 1, sync := st.sync || opts.sync }) := by
  rw [openWith, h]

theorem close_of_none (h : states.lookup ns = none) : states.close ns = (states, true) := by
  rw [close, h]

/-- A replica held by a handle does not wrap: it loses one handle, and the last closes it. -/
theorem close_of_some {st : OpenReplica} (h : states.lookup ns = some st) (hpos : 0 < st.handles) :
    states.close ns = if st.handles = 1 then (states.erase ns, true)
      else (states.insert ns { st with handles := st.handles - 1 }, false) := by
  have hsub : wrappingSubOne st.handles = st.handles - 1 := if_neg (Nat.pos_iff_ne_zero.mp hpos)
  have hzero : st.handles - 1 = 0 ↔ st.handles = 1 := by omega
  simp only [close, h, hsub, hzero]

theorem getMut_eq_ok {st : OpenReplica} : states.getMut ns = .ok st ↔ states.lookup ns = some st := by
  unfold getMut
  split <;> simp_all

theorem getMut_of_none (h : states.lookup ns = none) : states.getMut ns = .error .replicaNotOpen := by
  rw [getMut, h]

end OpenReplicas

/-! ### The actor -/

/-- The docs actor: its open replicas, its store, and whether it still takes actions. -/
structure Actor (P : Type) [LinearOrder P] where
  states : OpenReplicas
  store : DocStore P
  running : Bool

/-- `ReplicaAction`, without the subscriptions and the replica state report. -/
inductive ReplicaAction (P : Type) where
  | «open» (opts : OpenOpts)
  | close
  | setSync (sync : Bool)
  | insertLocal (author : AuthorId) (key : List Byte) (hash : Hash) (len : UInt64) (now : UInt64)
  | deletePrefix (author : AuthorId) (key : List Byte) (now : UInt64)
  | insertRemote (entry : SignedEntry) (fromPeer : Fin (2 ^ 256)) (contentStatus : ContentStatus)
      (now : UInt64)
  | syncInitialMessage
  | syncProcessMessage (message : Message SignedEntry RecordIdentifier) (fromPeer : Fin (2 ^ 256))
      (now : UInt64)
  | getSyncPeers
  | registerUsefulPeer (peer : P) (nanos : Nat)
  | getExact (author : AuthorId) (key : List Byte) (includeEmpty : Bool)
  | dropReplica
  | exportSecretKey

/-- `Action`, without the listings, the content hashes and flushing. -/
inductive Action (P : Type) where
  | importAuthor (author : AuthorId)
  | exportAuthor (author : AuthorId)
  | deleteAuthor (author : AuthorId)
  | importNamespace (capability : Capability)
  | replica (ns : NamespaceId) (action : ReplicaAction P)
  | shutdown

/-- What an action replies. -/
inductive Reply (P : Type) where
  | done
  | closed (last : Bool)
  | removed (count : Nat)
  | initialMessage (message : Message SignedEntry RecordIdentifier)
  | nextMessage (message : Option (Message SignedEntry RecordIdentifier))
  | syncPeers (peers : Option (List P))
  | entry (entry : Option SignedEntry)
  | secret (secret : NamespaceId)
  | author (author : Option AuthorId)
  | imported (ns : NamespaceId)

namespace Actor

variable {P : Type} [LinearOrder P]

/-- A new actor over a store. -/
def new (store : DocStore P) : Actor P := ⟨∅, store, true⟩

/-- The actor with the store's records replaced. -/
def withRecords (a : Actor P) (records : Records) : Actor P := { a with store := { a.store with records } }

/-- `Actor::close`: the store hears of the replica's last close. -/
def close (a : Actor P) (ns : NamespaceId) : Actor P × Bool :=
  let r := a.states.close ns
  ({ a with states := r.1, store := if r.2 then a.store.closeReplica ns else a.store }, r.2)

/-- `Actor::close_all`. -/
def closeAll (a : Actor P) : Actor P :=
  { a with states := ∅, store := a.states.keys.foldl DocStore.closeReplica a.store }

/-- `Actor::open`: `open_with`, loading a replica that is not open from the store. -/
def «open» (a : Actor P) (ns : NamespaceId) (opts : OpenOpts) : Except Error (Actor P) :=
  (a.states.openWith ns opts (fun s => s.loadReplicaInfo ns) a.store).map fun r =>
    { a with store := r.1, states := r.2 }

variable (env : Env)

/-- `Actor::on_replica_action`. -/
def onReplicaAction (a : Actor P) (ns : NamespaceId) : ReplicaAction P → Actor P × Except Error (Reply P)
  | .open opts =>
    match a.open ns opts with
    | .ok a' => (a', .ok .done)
    | .error e => (a, .error e)
  | .close =>
    let r := a.close ns
    (r.1, .ok (.closed r.2))
  | .setSync sync =>
    match a.states.getMut ns with
    | .ok state => ({ a with states := a.states.insert ns { state with sync } }, .ok .done)
    | .error e => (a, .error e)
  | .insertLocal author key hash len now =>
    match a.store.getAuthor author with
    | .error e => (a, .error e)
    | .ok author =>
      match a.states.replica ns a.store.records with
      | .error e => (a, .error e)
      | .ok r =>
        match r.insert env now key author hash len with
        | .ok r' => (a.withRecords r'.1.records, .ok .done)
        | .error e => (a, .error (.insert e))
  | .deletePrefix author key now =>
    match a.store.getAuthor author with
    | .error e => (a, .error e)
    | .ok author =>
      match a.states.replica ns a.store.records with
      | .error e => (a, .error e)
      | .ok r =>
        match r.deletePrefix env now key author with
        | .ok r' => (a.withRecords r'.1.records, .ok (.removed r'.2))
        | .error e => (a, .error (.insert e))
  | .insertRemote entry fromPeer contentStatus now =>
    match a.states.replicaIfSyncing ns a.store.records with
    | .error e => (a, .error e)
    | .ok r =>
      match r.insertRemoteEntry env now entry fromPeer contentStatus with
      | .ok r' => (a.withRecords r'.1.records, .ok .done)
      | .error e => (a, .error (.insert e))
  | .syncInitialMessage =>
    match a.states.replicaIfSyncing ns a.store.records with
    | .error e => (a, .error e)
    | .ok r =>
      match r.syncInitialMessage env with
      | .ok message => (a, .ok (.initialMessage message))
      | .error e => (a, .error (.insert e))
  | .syncProcessMessage message fromPeer now =>
    match a.states.replicaIfSyncing ns a.store.records with
    | .error e => (a, .error e)
    | .ok r =>
      match r.syncProcessMessage env now message fromPeer with
      | .ok r' => (a.withRecords r'.1.records, .ok (.nextMessage r'.2))
      | .error e => (a, .error (.insert e))
  | .getSyncPeers =>
    match a.states.ensureOpen ns with
    | .ok () => (a, .ok (.syncPeers (a.store.tables.getSyncPeers ns)))
    | .error e => (a, .error e)
  | .registerUsefulPeer peer nanos =>
    match a.store.tables.registerUsefulPeer ns peer nanos with
    | .ok tables => ({ a with store := { a.store with tables } }, .ok .done)
    | .error text => (a, .error (.store text))
  | .getExact author key includeEmpty =>
    match a.states.ensureOpen ns with
    | .ok () => (a, .ok (.entry (getExact a.store.records ns author key includeEmpty)))
    | .error e => (a, .error e)
  | .dropReplica =>
    let r := a.close ns
    match r.1.store.removeReplica ns with
    | .ok store => ({ r.1 with store }, .ok .done)
    | .error e => (r.1, .error e)
  | .exportSecretKey =>
    match a.states.getMut ns with
    | .ok state =>
      match state.info.capability.secretKey with
      | some secret => (a, .ok (.secret secret))
      | none => (a, .error .readOnly)
    | .error e => (a, .error e)

/-- `Actor::on_action`, with `Shutdown` as `run_async` handles it: the loop ends and every
replica is closed. -/
def onAction (a : Actor P) : Action P → Actor P × Except Error (Reply P)
  | .importAuthor author => ({ a with store := a.store.importAuthor author }, .ok .done)
  | .exportAuthor author =>
    (a, .ok (.author (match a.store.getAuthor author with | .ok author => some author | .error _ => none)))
  | .deleteAuthor author => ({ a with store := a.store.deleteAuthor author }, .ok .done)
  | .importNamespace capability =>
    match a.store.importNamespace capability with
    | .error e => (a, .error e)
    | .ok r =>
      let a := { a with store := r.1 }
      if r.2 = .upgraded then
        match a.states.getMut capability.id with
        | .ok state =>
          match state.info.capability.merge capability with
          | .ok m =>
            ({ a with states :=
                a.states.insert capability.id { state with info := { state.info with capability := m.1 } } },
              .ok (.imported capability.id))
          | .error text => (a, .error (.store text))
        | .error _ => (a, .ok (.imported capability.id))
      else (a, .ok (.imported capability.id))
  | .replica ns action => a.onReplicaAction env ns action
  | .shutdown => ({ a.closeAll with running := false }, .ok .done)

/-- One action taken from the channel; once the actor has shut down, sending fails. -/
def step (a : Actor P) (action : Action P) : Actor P × Except Error (Reply P) :=
  if a.running then a.onAction env action else (a, .error .actorGone)

/-- The actor after a sequence of actions. -/
def run (a : Actor P) (actions : List (Action P)) : Actor P :=
  actions.foldl (fun a action => (a.step env action).1) a

variable {a : Actor P} {ns : NamespaceId}

theorem close_of_none (h : a.states.lookup ns = none) :
    a.close ns = ({ a with store := a.store.closeReplica ns }, true) := by
  simp [close, OpenReplicas.close_of_none h]

theorem close_of_some {st : OpenReplica} (h : a.states.lookup ns = some st) (hpos : 0 < st.handles) :
    a.close ns = if st.handles = 1 then
        ({ a with states := a.states.erase ns, store := a.store.closeReplica ns }, true)
      else ({ a with states := a.states.insert ns { st with handles := st.handles - 1 } }, false) := by
  rw [close, OpenReplicas.close_of_some h hpos]
  by_cases h1 : st.handles = 1 <;> simp [h1]

theorem run_cons (a : Actor P) (action : Action P) (actions : List (Action P)) :
    a.run env (action :: actions) = (a.step env action).1.run env actions := rfl

/-- Once the actor has shut down, no action changes it. -/
theorem run_of_not_running (h : a.running = false) (actions : List (Action P)) :
    a.run env actions = a := by
  induction actions with
  | nil => rfl
  | cons action actions ih =>
    rw [run_cons, step, if_neg (by simp [h])]
    exact ih

end Actor

end Iroh.Docs.Sync
