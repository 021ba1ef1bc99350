import Iroh.Lib.Machine
import Iroh.Blobs.HashSeq

/-! The downloader's service (`downloader.rs`): a single task that queues download
requests, dials provider nodes, starts transfers on connected ones, and retries or
gives up when they fail.

One iteration of `Service::run` takes one event (a connection the dialer made or
failed to make, a message from a handle, a finished transfer, or a timer of the
retry or the goodbye queue), handles it, and then starts what the queue's head
allows (`process_head`). The getter and the dialer are the service's environment:
what the getter returns for a new download, which dials finish and with what, and
how each transfer ends, are parts of the events. The progress tracker is not
modelled, nor the statistics of a finished transfer.

A transfer is a task of the `JoinSet`; the service also keeps it among its active
requests. Cancelling the last intent of a download removes the active request
and cancels the task, which still finishes later and is then handled as the
completion of an active request. -/

namespace Iroh.Blobs.Downloader

/-- How the service fails: an `expect` on a value that is missing, with its
message, or a `usize` subtraction below zero. -/
inductive Panic where
  | expect (message : String)
  | subtractOverflow
  /-- the model's bound on the loop of `process_head` -/
  | loopBound
deriving DecidableEq, Repr

/-- `ConcurrencyLimits`. -/
structure ConcurrencyLimits where
  maxConcurrentRequests : Nat
  maxConcurrentRequestsPerNode : Nat
  maxOpenConnections : Nat
  maxConcurrentDialsPerHash : Nat
deriving DecidableEq, Repr

namespace ConcurrencyLimits

/-- `ConcurrencyLimits::default`. -/
def default : ConcurrencyLimits := ⟨50, 4, 25, 5⟩

def atRequestsCapacity (l : ConcurrencyLimits) (activeRequests : Nat) : Bool :=
  activeRequests ≥ l.maxConcurrentRequests

def nodeAtRequestCapacity (l : ConcurrencyLimits) (activeNodeRequests : Nat) : Bool :=
  activeNodeRequests ≥ l.maxConcurrentRequestsPerNode

def atConnectionsCapacity (l : ConcurrencyLimits) (activeConnections : Nat) : Bool :=
  activeConnections ≥ l.maxOpenConnections

def atDialsPerHashCapacity (l : ConcurrencyLimits) (concurrentDials : Nat) : Bool :=
  concurrentDials ≥ l.maxConcurrentDialsPerHash

end ConcurrencyLimits

/-- `RetryConfig`, with the delay in milliseconds. -/
structure RetryConfig where
  maxRetriesPerNode : Nat
  initialRetryDelay : Nat
deriving DecidableEq, Repr

/-- `RetryConfig::default`. -/
def RetryConfig.default : RetryConfig := ⟨6, 500⟩

/-- What the getter answers for a new download: it failed, the data is here, or
it needs a connection. -/
inductive GetResult where
  | error
  | complete
  | needsConn
deriving DecidableEq, Repr

/-- `FailureAction`: how a transfer failed. -/
inductive FailureAction where
  | allIntentsDropped
  | abortRequest
  | dropPeer
  | retryLater
deriving DecidableEq, Repr

/-- `DownloadError`. -/
inductive DownloadError where
  | downloadFailed
  | noProviders
  | cancelled
deriving DecidableEq, Repr

/-- `InternalDownloadResult`, without the statistics. -/
abbrev InternalDownloadResult := Except FailureAction Unit

/-- `ExternalDownloadResult`, without the statistics. -/
abbrev ExternalDownloadResult := Except DownloadError Unit

/-- `Message`: what a handle sends. -/
inductive Message (N : Type) where
  /-- a request for a download, with what the getter answers when it is new -/
  | queue (kind : HashAndFormat) (nodes : List N) (intentId : Nat) (get : GetResult)
  | cancelIntent (id : Nat) (kind : HashAndFormat)
  | nodesHave (hash : Hash) (nodes : List N)

/-- What one iteration of `Service::run` takes. -/
inductive Event (N : Type) where
  /-- a dial of the node finished -/
  | connectionReady (node : N) (ok : Bool)
  | message (msg : Message N)
  /-- a task of the join set finished -/
  | transferCompleted (kind : HashAndFormat) (result : InternalDownloadResult)
  /-- a retry timer of the node expired -/
  | retryElapsed (node : N)
  /-- the oldest goodbye timer expired -/
  | goodbyeElapsed

/-- `ConnectedState`, with the key of an idle node's goodbye timer. -/
inductive ConnectedState where
  | busy (activeRequests : Nat)
  | idle (dropKey : Nat)
deriving DecidableEq, Repr

/-- `ConnectionInfo::active_requests`. -/
def ConnectedState.activeRequests : ConnectedState → Nat
  | .busy activeRequests => activeRequests
  | .idle _ => 0

/-- `ConnectionInfo::is_idle`. -/
def ConnectedState.isIdle : ConnectedState → Bool
  | .busy _ => false
  | .idle _ => true

/-- `RetryState`. -/
structure RetryState where
  retryCount : Nat
  retryIsQueued : Bool
deriving DecidableEq, Repr

/-- `RequestInfo`: the intents waiting for the download, and whether the getter's
first state is still held. -/
structure RequestInfo where
  intents : List Nat
  getState : Bool
deriving DecidableEq, Repr

/-- `ProviderMap`. -/
structure ProviderMap (N : Type) where
  hashNode : AList fun _ : Hash => List N
  nodeHash : AList fun _ : N => List Hash

/-- `Queue`: the main queue in order, and the parked set. -/
structure Queue where
  main : List HashAndFormat
  parked : List HashAndFormat
deriving DecidableEq

/-- `NextStep`. -/
inductive NextStep (N : Type) where
  | startTransfer (node : N)
  | dial (node : N)
  | dialQueuedDisconnect (node : N) (key : Nat)
  | wait
  | park
  | outOfProviders
deriving DecidableEq, Repr

/-- What `node_state` says of a node. -/
inductive NodeState where
  | connected (state : ConnectedState)
  | dialing
  | waitForRetry
  | disconnected
deriving DecidableEq

section
variable {N : Type} [DecidableEq N]

namespace ProviderMap

/-- `ProviderMap::default`. -/
def empty : ProviderMap N := ⟨∅, ∅⟩

/-- `get_candidates`. -/
def getCandidates (p : ProviderMap N) (hash : Hash) : List N := (p.hashNode.lookup hash).getD []

/-- `has_candidates`. -/
def hasCandidates (p : ProviderMap N) (hash : Hash) : Bool := !(p.getCandidates hash).isEmpty

/-- Note the hash for the node (`node_hash.entry(node).or_default().insert(hash)`). -/
def noteNode (p : ProviderMap N) (node : N) (hash : Hash) : ProviderMap N :=
  { p with nodeHash := p.nodeHash.insert node (((p.nodeHash.lookup node).getD []).insert hash) }

/-- The loop of `add_hash_with_nodes` over the hash's set `nodes`: whether a node
was new. -/
def addNodes (hash : Hash) : List N → ProviderMap N × List N × Bool → ProviderMap N × List N × Bool
  | [], acc => acc
  | node :: more, (p, nodes, updated) =>
    addNodes hash more (p.noteNode node hash, nodes.insert node, updated || !nodes.contains node)

/-- `add_hash_with_nodes`. -/
def addHashWithNodes (p : ProviderMap N) (hash : Hash) (nodes : List N) : ProviderMap N × Bool :=
  let (p, set, updated) := addNodes hash nodes (p, (p.hashNode.lookup hash).getD [], false)
  ({ p with hashNode := p.hashNode.insert hash set }, updated)

/-- `add_nodes_if_hash_exists`. -/
def addNodesIfHashExists (p : ProviderMap N) (hash : Hash) (nodes : List N) : ProviderMap N × Bool :=
  match p.hashNode.lookup hash with
  | some set =>
    let (p, set, updated) := addNodes hash nodes (p, set, false)
    ({ p with hashNode := p.hashNode.insert hash set }, updated)
  | none => (p, false)

/-- Forget the hash for each node, dropping a node left with none. -/
def forgetHash (hash : Hash) (nodeHash : AList fun _ : N => List Hash) : List N →
    AList fun _ : N => List Hash
  | [] => nodeHash
  | node :: nodes =>
    let nodeHash := match nodeHash.lookup node with
      | some hashes =>
        if hashes.erase hash = [] then nodeHash.erase node else nodeHash.insert node (hashes.erase hash)
      | none => nodeHash
    forgetHash hash nodeHash nodes

/-- `remove_hash`. -/
def removeHash (p : ProviderMap N) (hash : Hash) : ProviderMap N :=
  match p.hashNode.lookup hash with
  | some nodes => ⟨p.hashNode.erase hash, forgetHash hash p.nodeHash nodes⟩
  | none => p

/-- Forget the node for each hash, dropping a hash left with none. -/
def forgetNode (node : N) (hashNode : AList fun _ : Hash => List N) : List Hash →
    AList fun _ : Hash => List N
  | [] => hashNode
  | hash :: hashes =>
    let hashNode := match hashNode.lookup hash with
      | some nodes =>
        if nodes.erase node = [] then hashNode.erase hash else hashNode.insert hash (nodes.erase node)
      | none => hashNode
    forgetNode node hashNode hashes

/-- `remove_node`. -/
def removeNode (p : ProviderMap N) (node : N) : ProviderMap N :=
  match p.nodeHash.lookup node with
  | some hashes => ⟨forgetNode node p.hashNode hashes, p.nodeHash.erase node⟩
  | none => p

/-- `remove_hash_from_node`. -/
def removeHashFromNode (p : ProviderMap N) (hash : Hash) (node : N) : ProviderMap N :=
  let p := match p.hashNode.lookup hash with
    | some nodes =>
      let p := { p with hashNode := p.hashNode.insert hash (nodes.erase node) }
      if nodes.erase node = [] then p.removeHash hash else p
    | none => p
  match p.nodeHash.lookup node with
  | some hashes =>
    let p := { p with nodeHash := p.nodeHash.insert node (hashes.erase hash) }
    if hashes.erase hash = [] then p.removeNode node else p
  | none => p

end ProviderMap

namespace Queue

/-- `Queue::default`. -/
def empty : Queue := ⟨[], []⟩

def front (q : Queue) : Option HashAndFormat := q.main.head?

def contains (q : Queue) (kind : HashAndFormat) : Bool := q.main.contains kind || q.parked.contains kind

def containsHash (q : Queue) (hash : Hash) : Bool := q.contains (.raw hash) || q.contains (.hashSeq hash)

def isParked (q : Queue) (kind : HashAndFormat) : Bool := q.parked.contains kind

/-- `insert`: at the back, unless it is in the main queue. -/
def insert (q : Queue) (kind : HashAndFormat) : Queue :=
  if q.main.contains kind then q else { q with main := q.main ++ [kind] }

/-- `insert_front`. -/
def insertFront (q : Queue) (kind : HashAndFormat) : Queue := { q with main := kind :: q.main.erase kind }

def popFront (q : Queue) : Option HashAndFormat × Queue := (q.main.head?, { q with main := q.main.tail })

def parkFront (q : Queue) : Queue :=
  match q.popFront with
  | (some item, q) => { q with parked := q.parked.insert item }
  | (none, q) => q

/-- `unpark`: from the parked set to the front of the main queue. -/
def unpark (q : Queue) (kind : HashAndFormat) : Queue :=
  if q.parked.contains kind then { main := kind :: q.main.erase kind, parked := q.parked.erase kind } else q

def unparkHash (q : Queue) (hash : Hash) : Queue := (q.unpark (.raw hash)).unpark (.hashSeq hash)

/-- `remove`: from the main queue, or else from the parked set. -/
def remove (q : Queue) (kind : HashAndFormat) : Queue :=
  if q.main.contains kind then { q with main := q.main.erase kind } else { q with parked := q.parked.erase kind }

end Queue

/-- `Service`, with the dialer's pending dials and the keys of the goodbye queue.
The outputs of a step are the results sent to intents. -/
structure Service (N : Type) where
  /-- `dialer.node_id()` -/
  me : N
  concurrencyLimits : ConcurrencyLimits
  retryConfig : RetryConfig
  providers : ProviderMap N
  /-- the dialer's pending dials -/
  dialing : List N
  connectedNodes : AList fun _ : N => ConnectedState
  retryNodeState : AList fun _ : N => RetryState
  retryNodesQueue : List N
  goodbyeNodesQueue : List (Nat × N)
  /-- the next key of the goodbye queue -/
  nextKey : Nat
  queue : Queue
  requests : AList fun _ : HashAndFormat => RequestInfo
  activeRequests : AList fun _ : HashAndFormat => N
  /-- the kinds of the transfer tasks of the join set -/
  inProgressDownloads : List HashAndFormat

/-- The results sent to intents. -/
abbrev Outbox := List (Nat × ExternalDownloadResult)

namespace Service

/-- `Service::new`. -/
def new (me : N) (concurrencyLimits : ConcurrencyLimits) (retryConfig : RetryConfig) : Service N :=
  ⟨me, concurrencyLimits, retryConfig, .empty, [], ∅, ∅, [], [], 0, .empty, ∅, ∅, []⟩

/-- `goodbye_nodes_queue.insert(node, IDLE_PEER_TIMEOUT)`: the key of the new timer. -/
def insertGoodbye (s : Service N) (node : N) : Service N × Nat :=
  ({ s with goodbyeNodesQueue := s.goodbyeNodesQueue ++ [(s.nextKey, node)], nextKey := s.nextKey + 1 },
    s.nextKey)

/-- `goodbye_nodes_queue.try_remove(key)`. -/
def removeGoodbye (s : Service N) (key : Nat) : Service N :=
  { s with goodbyeNodesQueue := s.goodbyeNodesQueue.filter fun entry => entry.1 ≠ key }

/-- `remove_hash_if_not_queued`. -/
def removeHashIfNotQueued (s : Service N) (hash : Hash) : Service N :=
  if !s.queue.containsHash hash then { s with providers := s.providers.removeHash hash } else s

/-- `finalize_download`: every intent gets the result. -/
def finalizeDownload (s : Service N) (kind : HashAndFormat) (intents : List Nat)
    (result : ExternalDownloadResult) : Service N × Outbox :=
  (s.removeHashIfNotQueued kind.hash, intents.map fun id => (id, result))

/-- `disconnect_idle_node`: an idle node is dropped, a busy one kept. -/
def disconnectIdleNode (s : Service N) (node : N) : Service N × Bool :=
  match s.connectedNodes.lookup node with
  | some (.idle dropKey) => ({ s with connectedNodes := s.connectedNodes.erase node }.removeGoodbye dropKey, true)
  | some (.busy _) => (s, false)
  | none => (s, true)

/-- `remove_node`. -/
def removeNode (s : Service N) (node : N) : Service N :=
  match s.disconnectIdleNode node with
  | (s, true) =>
    { s with providers := s.providers.removeNode node, retryNodeState := s.retryNodeState.erase node }
  | (s, false) => s

/-- `disconnect_and_retry`: a node with retries left waits for its retry timer. -/
def disconnectAndRetry (s : Service N) (node : N) : Service N :=
  let s := (s.disconnectIdleNode node).1
  let retryState := (s.retryNodeState.lookup node).getD ⟨0, false⟩
  let retryCount := retryState.retryCount + 1
  if retryCount ≤ s.retryConfig.maxRetriesPerNode then
    { s with
      retryNodesQueue := s.retryNodesQueue ++ [node]
      retryNodeState := s.retryNodeState.insert node ⟨retryCount, true⟩ }
  else
    ({ s with retryNodeState := s.retryNodeState.insert node { retryState with retryCount } }).removeNode node

/-- `node_state`. -/
def nodeState (s : Service N) (node : N) : NodeState :=
  match s.connectedNodes.lookup node with
  | some state => .connected state
  | none =>
    if s.dialing.contains node then .dialing
    else match s.retryNodeState.lookup node with
      | some state => if state.retryIsQueued then .waitForRetry else .disconnected
      | none => .disconnected

/-- `connections_count`: connected and dialing nodes. -/
def connectionsCount (s : Service N) : Nat := s.connectedNodes.entries.length + s.dialing.length

/-- What `next_step` gathers over the candidates: the least busy connected one with
a free slot, the first to dial, how many are dialing, and whether one is at
capacity or waiting for a retry. -/
structure Survey (N : Type) where
  bestConnected : Option (N × Nat)
  nextToDial : Option N
  currentlyDialing : Nat
  hasExhaustedProvider : Bool
  hasRetryingProvider : Bool

/-- One candidate of the loop of `next_step`. -/
def surveyNode (s : Service N) (acc : Survey N) (node : N) : Survey N :=
  match s.nodeState node with
  | .connected info =>
    let activeRequests := info.activeRequests
    if s.concurrencyLimits.nodeAtRequestCapacity activeRequests then { acc with hasExhaustedProvider := true }
    else
      { acc with bestConnected := some (match acc.bestConnected with
        | some old => if old.2 ≤ activeRequests then old else (node, activeRequests)
        | none => (node, activeRequests)) }
  | .dialing => { acc with currentlyDialing := acc.currentlyDialing + 1 }
  | .waitForRetry => { acc with hasRetryingProvider := true }
  | .disconnected => if acc.nextToDial.isNone then { acc with nextToDial := some node } else acc

/-- `next_step`. -/
def nextStep (s : Service N) (kind : HashAndFormat) : NextStep N :=
  if s.concurrencyLimits.atRequestsCapacity s.activeRequests.entries.length then .wait
  else
    let candidates := s.providers.getCandidates kind.hash
    if candidates.isEmpty then .outOfProviders
    else
      let survey := candidates.foldl s.surveyNode ⟨none, none, 0, false, false⟩
      let hasDialing := survey.currentlyDialing > 0
      match survey.bestConnected, survey.nextToDial with
      | some (node, _), _ => .startTransfer node
      | none, some node =>
        let atDialCapacity := hasDialing && s.concurrencyLimits.atDialsPerHashCapacity survey.currentlyDialing
        let atConnectionsCapacity := s.concurrencyLimits.atConnectionsCapacity s.connectionsCount
        if !atConnectionsCapacity && !atDialCapacity then .dial node
        else if atConnectionsCapacity && !atDialCapacity && !s.goodbyeNodesQueue.isEmpty then
          match s.goodbyeNodesQueue.head? with
          | some (key, _) => .dialQueuedDisconnect node key
          | none => .wait
        else .wait
      | none, none =>
        if survey.hasExhaustedProvider || hasDialing then .wait
        else if survey.hasRetryingProvider then .park
        else .outOfProviders

/-- `start_download`: the node gets one more request, and the transfer is a new
task. -/
def startDownload (s : Service N) (kind : HashAndFormat) (node : N) : Except Panic (Service N) :=
  match s.connectedNodes.lookup node with
  | none => .error (.expect "node exists")
  | some nodeState =>
    match s.requests.lookup kind with
    | none => .error (.expect "request exists")
    | some info =>
      let s := { s with requests := s.requests.insert kind { info with getState := false } }
      let (s, nodeState) := match nodeState with
        | .busy activeRequests => (s, ConnectedState.busy (activeRequests + 1))
        | .idle dropKey => (s.removeGoodbye dropKey, .busy 1)
      .ok { s with
        connectedNodes := s.connectedNodes.insert node nodeState
        activeRequests := s.activeRequests.insert kind node
        inProgressDownloads := s.inProgressDownloads ++ [kind] }

/-- `process_head`: act on the head of the queue until it has to wait. -/
def processHead : Nat → Service N → Outbox → Except Panic (Service N × Outbox)
  | 0, _, _ => .error .loopBound
  | fuel + 1, s, out =>
    match s.queue.front with
    | none => .ok (s, out)
    | some kind =>
      match s.nextStep kind with
      | .wait => .ok (s, out)
      | .startTransfer node =>
        match { s with queue := s.queue.popFront.2 }.startDownload kind node with
        | .error e => .error e
        | .ok s => processHead fuel s out
      | .dial node => processHead fuel { s with dialing := s.dialing.insert node } out
      | .dialQueuedDisconnect node key =>
        match s.goodbyeNodesQueue.find? fun entry => entry.1 = key with
        | none => .error (.expect "invalid key")
        | some (_, idleNode) =>
          let s := (s.removeGoodbye key).disconnectIdleNode idleNode |>.1
          processHead fuel { s with dialing := s.dialing.insert node } out
      | .park => processHead fuel { s with queue := s.queue.parkFront } out
      | .outOfProviders =>
        let s := { s with queue := s.queue.popFront.2 }
        match s.requests.lookup kind with
        | none => .error (.expect "queued downloads exist")
        | some info =>
          let s := { s with requests := s.requests.erase kind }
          let (s, sent) := s.finalizeDownload kind info.intents (.error .noProviders)
          processHead fuel s (out ++ sent)

/-- `handle_queue_new_download`. -/
def handleQueueNewDownload (s : Service N) (kind : HashAndFormat) (nodes : List N) (intentId : Nat)
    (get : GetResult) : Service N × Outbox :=
  let (providers, updated) := s.providers.addHashWithNodes kind.hash (nodes.filter (· ≠ s.me))
  let s := { s with providers }
  let unparkIfUpdated (s : Service N) : Service N :=
    if updated && s.queue.isParked kind then { s with queue := s.queue.unpark kind } else s
  match s.requests.lookup kind with
  | some info =>
    (unparkIfUpdated { s with requests := s.requests.insert kind { info with intents := info.intents.insert intentId } }, [])
  | none =>
    match get with
    | .error => s.finalizeDownload kind [intentId] (.error .downloadFailed)
    | .complete => s.finalizeDownload kind [intentId] (.ok ())
    | .needsConn =>
      if (s.providers.getCandidates kind.hash).isEmpty then s.finalizeDownload kind [intentId] (.error .noProviders)
      else
        (unparkIfUpdated { s with
          requests := s.requests.insert kind ⟨[intentId], true⟩
          queue := s.queue.insert kind }, [])

/-- `handle_cancel_download`: the intent is told it is cancelled; with the last one
gone, the request goes, and so does its active request (whose task is cancelled)
or its place in the queue. -/
def handleCancelDownload (s : Service N) (intentId : Nat) (kind : HashAndFormat) : Service N × Outbox :=
  match s.requests.lookup kind with
  | none => (s, [])
  | some info =>
    let sent : Outbox := if intentId ∈ info.intents then [(intentId, .error .cancelled)] else []
    let intents := info.intents.erase intentId
    if intents.isEmpty then
      let s := { s with requests := s.requests.erase kind }
      let s := if (s.activeRequests.lookup kind).isSome then { s with activeRequests := s.activeRequests.erase kind }
        else { s with queue := s.queue.remove kind }
      (s.removeHashIfNotQueued kind.hash, sent)
    else ({ s with requests := s.requests.insert kind { info with intents } }, sent)

/-- `handle_message`. -/
def handleMessage (s : Service N) : Message N → Service N × Outbox
  | .queue kind nodes intentId get => s.handleQueueNewDownload kind nodes intentId get
  | .cancelIntent id kind => s.handleCancelDownload id kind
  | .nodesHave hash nodes =>
    let (providers, updated) := s.providers.addNodesIfHashExists hash nodes
    let s := { s with providers }
    (if updated then { s with queue := s.queue.unparkHash hash } else s, [])

/-- `on_connection_ready`: a new connection is idle; a failed dial is retried. -/
def onConnectionReady (s : Service N) (node : N) (ok : Bool) : Service N :=
  let s := { s with dialing := s.dialing.erase node }
  if ok then
    let (s, dropKey) := s.insertGoodbye node
    { s with connectedNodes := s.connectedNodes.insert node (.idle dropKey) }
  else s.disconnectAndRetry node

/-- The node's side of `on_download_completed`: it has one request less, and is
idle when that was its last. -/
def releaseNode (s : Service N) (node : N) (nodeState : ConnectedState) : Except Panic (Service N × ConnectedState) :=
  if nodeState.activeRequests = 0 then .error .subtractOverflow
  else if nodeState.activeRequests - 1 = 0 then
    let (s, dropKey) := s.insertGoodbye node
    .ok ({ s with connectedNodes := s.connectedNodes.insert node (.idle dropKey) }, .idle dropKey)
  else
    let nodeState := ConnectedState.busy (nodeState.activeRequests - 1)
    .ok ({ s with connectedNodes := s.connectedNodes.insert node nodeState }, nodeState)

/-- `on_download_completed`. -/
def onDownloadCompleted (s : Service N) (kind : HashAndFormat) (result : InternalDownloadResult) :
    Except Panic (Service N × Outbox) :=
  match s.activeRequests.lookup kind with
  | none => .error (.expect "request was active")
  | some node =>
    let s := { s with activeRequests := s.activeRequests.erase kind }
    match s.requests.lookup kind with
    | none => .error (.expect "request was active")
    | some info =>
      let s := { s with requests := s.requests.erase kind }
      match s.connectedNodes.lookup node with
      | none => .error (.expect "node exists in the mapping")
      | some nodeState =>
        match s.releaseNode node nodeState with
        | .error e => .error e
        | .ok (s, nodeState) =>
          let s := match result with
            | .ok () => { s with retryNodeState := s.retryNodeState.erase node }
            | .error .allIntentsDropped => s
            | .error .abortRequest => { s with providers := s.providers.removeHashFromNode kind.hash node }
            | .error .dropPeer =>
              if nodeState.isIdle then s.removeNode node
              else { s with providers := s.providers.removeHashFromNode kind.hash node }
            | .error .retryLater => if nodeState.isIdle then s.disconnectAndRetry node else s
          let finalize := match result with
            | .ok () | .error .allIntentsDropped => true
            | _ => !s.providers.hasCandidates kind.hash
          if finalize then
            .ok (s.finalizeDownload kind info.intents (result.mapError fun _ => .downloadFailed))
          else .ok ({ s with requests := s.requests.insert kind info, queue := s.queue.insertFront kind }, [])

/-- `on_retry_wait_elapsed`. -/
def onRetryWaitElapsed (s : Service N) (node : N) : Service N :=
  match s.providers.nodeHash.lookup node with
  | none => { s with retryNodeState := s.retryNodeState.erase node }
  | some hashes =>
    match s.retryNodeState.lookup node with
    | none => s
    | some state =>
      let s := { s with retryNodeState := s.retryNodeState.insert node { state with retryIsQueued := false } }
      { s with queue := hashes.foldl Queue.unparkHash s.queue }

/-- One iteration of `Service::run`: the event, if the environment can produce it,
then `process_head`. -/
def step (fuel : Nat) (s : Service N) : Event N → Except Panic (Service N × Outbox)
  | .connectionReady node ok =>
    if s.dialing.contains node then processHead fuel (s.onConnectionReady node ok) [] else .ok (s, [])
  | .message msg =>
    let (s, out) := s.handleMessage msg
    processHead fuel s out
  | .transferCompleted kind result =>
    if s.inProgressDownloads.contains kind then
      match { s with inProgressDownloads := s.inProgressDownloads.erase kind }.onDownloadCompleted kind result with
      | .error e => .error e
      | .ok (s, out) => processHead fuel s out
    else .ok (s, [])
  | .retryElapsed node =>
    if s.retryNodesQueue.contains node then
      processHead fuel ({ s with retryNodesQueue := s.retryNodesQueue.erase node }.onRetryWaitElapsed node) []
    else .ok (s, [])
  | .goodbyeElapsed =>
    match s.goodbyeNodesQueue with
    | (_, node) :: rest => processHead fuel ({ s with goodbyeNodesQueue := rest }.disconnectIdleNode node).1 []
    | [] => .ok (s, [])

/-! ### The invariants `check_invariants` asserts -/

/-- The requests the service has started from the node. -/
def activeFrom (s : Service N) (node : N) : Nat := (s.activeRequests.entries.filter (·.2 = node)).length

/-- `check_invariants`: the active requests are the transfer tasks and each node's
count of them; what is queued has request info and providers, and what is parked
waits only for retries; the goodbye queue is the idle nodes; every hash of the
provider map is queued or active; and the limits hold. -/
structure Invariants (s : Service N) : Prop where
  activeRequestCount : s.activeRequests.entries.length = s.inProgressDownloads.length
  nodeRequestCount : ∀ node state, s.connectedNodes.lookup node = some state →
    state.activeRequests = s.activeFrom node
  queuedConsistent : ∀ kind, s.queue.contains kind →
    s.providers.getCandidates kind.hash ≠ [] ∧ (s.requests.lookup kind).isSome
  parkedWaitForRetry : ∀ kind ∈ s.queue.parked, s.nextStep kind = .park ∧
    ∀ node ∈ s.providers.getCandidates kind.hash, s.nodeState node = .waitForRetry
  idlePeerConsistent : s.goodbyeNodesQueue.length =
    (s.connectedNodes.entries.filter fun entry => entry.2.activeRequests = 0).length
  providerMapPruned : ∀ hash, (s.providers.hashNode.lookup hash).isSome →
    s.queue.containsHash hash ∨ (s.activeRequests.lookup (.raw hash)).isSome ∨
      (s.activeRequests.lookup (.hashSeq hash)).isSome
  maxConcurrentRequests : s.inProgressDownloads.length ≤ s.concurrencyLimits.maxConcurrentRequests
  maxOpenConnections : s.connectionsCount ≤ s.concurrencyLimits.maxOpenConnections
  maxConcurrentRequestsPerNode : ∀ node state, s.connectedNodes.lookup node = some state →
    state.activeRequests ≤ s.concurrencyLimits.maxConcurrentRequestsPerNode
  maxConcurrentDialsPerHash : ∀ kind, s.queue.front = some kind →
    ((s.providers.getCandidates kind.hash).filter s.dialing.contains).length ≤
      s.concurrencyLimits.maxConcurrentDialsPerHash

end Service

end

/-! ### Cancelling a running download -/

/-- The kind of the run below. -/
def rawKind : HashAndFormat := .raw ⟨List.replicate 32 7, rfl⟩

/-- A download queued for node 1, dialed and started, then cancelled. -/
def cancelRunning : List (Event Nat) :=
  [.message (.queue rawKind [1] 0 .needsConn), .connectionReady 1 true, .message (.cancelIntent 0 rawKind)]

/-- Cancelling the only intent of a running download removes its active request
but not its task; when the task finishes, `on_download_completed` finds no active
request and its `expect` fails. -/
theorem cancelled_transfer_completion_panics :
    ∃ s out, Machine.run (fun s e => Service.step 16 s e) (Service.new 0 .default .default) cancelRunning =
        .ok (s, out) ∧
      Service.step 16 s (.transferCompleted rawKind (.error .allIntentsDropped)) =
        .error (.expect "request was active") := by
  exact ⟨_, _, rfl, rfl⟩

/-- After the cancel the service holds a task for no active request, and node 1
counts a request that no active request assigns to it. -/
theorem cancel_running_breaks_invariants :
    ∃ s out, Machine.run (fun s e => Service.step 16 s e) (Service.new 0 .default .default) cancelRunning =
        .ok (s, out) ∧
      s.activeRequests.entries.length = 0 ∧ s.inProgressDownloads = [rawKind] ∧
      s.connectedNodes.lookup 1 = some (.busy 1) ∧ ¬ s.Invariants := by
  refine ⟨_, _, rfl, rfl, rfl, rfl, ?_⟩
  intro h
  exact absurd h.activeRequestCount (by decide)

/-! ### A cancelled transfer takes the service down with another intent -/

/-- A second raw blob. -/
def otherKind : HashAndFormat := .raw ⟨List.replicate 32 8, rfl⟩

/-- Two downloads from node 1 running side by side, the first then cancelled. -/
def cancelBesideRunning : List (Event Nat) :=
  [.message (.queue rawKind [1] 0 .needsConn), .connectionReady 1 true,
    .message (.queue otherKind [1] 1 .needsConn), .message (.cancelIntent 0 rawKind)]

/-- Intent 0 is told it is cancelled, while intent 1 waits on its running transfer.
When the cancelled task finishes first, the service panics: whatever follows, no
step runs again, and intent 1 never receives a result. -/
theorem cancelled_transfer_strands_other_intent :
    ∃ s out, Machine.run (fun s e => Service.step 16 s e) (Service.new 0 .default .default)
        cancelBesideRunning = .ok (s, out) ∧
      out = [(0, .error .cancelled)] ∧ s.requests.lookup otherKind = some ⟨[1], false⟩ ∧
      s.activeRequests.lookup otherKind = some 1 ∧
      ∀ events, Machine.run (fun s e => Service.step 16 s e) s
        (.transferCompleted rawKind (.error .allIntentsDropped) :: events) =
          .error (.expect "request was active") :=
  ⟨_, _, rfl, rfl, rfl, rfl, fun _ => rfl⟩

end Iroh.Blobs.Downloader
