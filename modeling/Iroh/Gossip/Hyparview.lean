import Iroh.Gossip.Util

/-! HyParView, the membership layer of a topic (`proto/hyparview.rs`).

A node keeps an *active view*, the peers it is connected to, and a *passive view*,
peers it knows of. Joins, forwarded joins, neighbor requests, shuffles and
disconnects move peers between the two, with random evictions when a view is
full. Each handler is a function of the state and the events pushed so far (the
source's `io`), returning both; `on_forward_join`, the one handler that can reach
`unreachable!`, returns an `Except Panic`, and so do `handle_message` and `handle`.

The random number generator is the state's `rng`, advanced through an `Rng`
(`Util`). The statistics (`Stats`) and the log lines are not modelled; `now` is
unused by every handler (`add_active` takes it as `_now`) and is left out. -/

namespace Iroh.Gossip

/-- `PeerData`: opaque bytes a peer sends about itself. -/
structure PeerData where
  bytes : List UInt8
deriving DecidableEq, Repr

/-- `PeerInfo`: a peer and the data it sent, if any. -/
structure PeerInfo (PI : Type) where
  id : PI
  data : Option PeerData
deriving DecidableEq, Repr

/-- How a handler can fail: an `unreachable!` is reached, or `u16` arithmetic overflows
(which panics in a debug build). -/
inductive Panic where
  | unreachable
  | arithmeticOverflow
deriving DecidableEq, Repr

namespace Hyparview

/-- `Ttl`: the hops a message may still travel. -/
structure Ttl where
  val : UInt16
deriving DecidableEq, Repr

/-- `Ttl::expired`. -/
def Ttl.expired (t : Ttl) : Bool := t.val == 0

/-- `Ttl::next`: one hop less, saturating at zero. -/
def Ttl.next (t : Ttl) : Ttl := ⟨if t.val = 0 then 0 else t.val - 1⟩

/-- `Priority` of a neighbor request. -/
inductive Priority where
  | high
  | low
deriving DecidableEq, Repr

/-- `Message`. -/
inductive Message (PI : Type) where
  | join (data : Option PeerData)
  | forwardJoin (peer : PeerInfo PI) (ttl : Ttl)
  | shuffle (origin : PI) (nodes : List (PeerInfo PI)) (ttl : Ttl)
  | shuffleReply (nodes : List (PeerInfo PI))
  | neighbor (priority : Priority) (data : Option PeerData)
  | disconnect (alive : Bool) (respond : Bool)
deriving DecidableEq, Repr

/-- `Timer`. -/
inductive Timer (PI : Type) where
  | doShuffle
  | pendingNeighborRequest (peer : PI)
deriving DecidableEq, Repr

/-- `InEvent`. -/
inductive InEvent (PI : Type) where
  | recvMessage (sender : PI) (message : Message PI)
  | timerExpired (timer : Timer PI)
  | peerDisconnected (peer : PI)
  | requestJoin (peer : PI)
  | updatePeerData (data : PeerData)
  | quit
deriving DecidableEq, Repr

/-- `Event`: the active view gained or lost a peer. -/
inductive Event (PI : Type) where
  | neighborUp (peer : PI)
  | neighborDown (peer : PI)
deriving DecidableEq, Repr

/-- `OutEvent`. Durations are numbers. -/
inductive OutEvent (PI : Type) where
  | sendMessage (peer : PI) (message : Message PI)
  | scheduleTimer (delay : Nat) (timer : Timer PI)
  | disconnectPeer (peer : PI)
  | emitEvent (event : Event PI)
  | peerData (peer : PI) (data : PeerData)
deriving DecidableEq, Repr

/-- `Config`. Durations are in milliseconds. -/
structure Config where
  activeViewCapacity : Nat
  passiveViewCapacity : Nat
  activeRandomWalkLength : Ttl
  passiveRandomWalkLength : Ttl
  shuffleRandomWalkLength : Ttl
  shuffleActiveViewCount : Nat
  shufflePassiveViewCount : Nat
  shuffleInterval : Nat
  neighborRequestTimeout : Nat
deriving DecidableEq, Repr

/-- `Config::default`. -/
def Config.default : Config where
  activeViewCapacity := 5
  passiveViewCapacity := 30
  activeRandomWalkLength := ⟨6⟩
  passiveRandomWalkLength := ⟨3⟩
  shuffleRandomWalkLength := ⟨6⟩
  shuffleActiveViewCount := 3
  shufflePassiveViewCount := 4
  shuffleInterval := 60000
  neighborRequestTimeout := 500

/-- `State`: the two views, the pending neighbor requests (a `HashSet`) and the data
received from peers (a `HashMap`). -/
structure State (PI RG : Type) where
  me : PI
  meData : Option PeerData
  activeView : IndexSet PI
  passiveView : IndexSet PI
  config : Config
  shuffleScheduled : Bool
  rng : RG
  pendingNeighborRequests : IndexSet PI
  peerData : PI → Option PeerData

/-- Whether a message is a `Disconnect`. -/
def Message.isDisconnect {PI : Type} : Message PI → Bool
  | .disconnect _ _ => true
  | _ => false

/-- The events pushed to `io`, in order. -/
abbrev Outbox (PI : Type) := List (OutEvent PI)

namespace State

variable {PI RG : Type} [DecidableEq PI] (R : Rng RG)

/-- `State::new`. -/
def new (me : PI) (meData : Option PeerData) (config : Config) (rng : RG) : State PI RG where
  me := me
  meData := meData
  activeView := .empty
  passiveView := .empty
  config := config
  shuffleScheduled := false
  rng := rng
  pendingNeighborRequests := .empty
  peerData := fun _ => none

/-- `active_is_full`. -/
def activeIsFull (s : State PI RG) : Bool := s.activeView.len ≥ s.config.activeViewCapacity

/-- `passive_is_full`. -/
def passiveIsFull (s : State PI RG) : Bool := s.passiveView.len ≥ s.config.passiveViewCapacity

/-- `peer_info`. -/
def peerInfo (s : State PI RG) (id : PI) : PeerInfo PI := ⟨id, s.peerData id⟩

/-- `insert_peer_info`: record the data a peer sent, and report it if it is new. -/
def insertPeerInfo (s : State PI RG) (info : PeerInfo PI) (io : Outbox PI) : State PI RG × Outbox PI :=
  match info.data with
  | none => (s, io)
  | some data =>
    let io := if s.peerData info.id = some data then io else io ++ [.peerData info.id data]
    ({ s with peerData := Function.update s.peerData info.id (some data) }, io)

/-- `add_passive`: unless the peer is active, passive or ourselves, insert it into the
passive view, first evicting a random peer if the view is full. -/
def addPassive (s : State PI RG) (peer : PI) (data : Option PeerData) (io : Outbox PI) :
    State PI RG × Outbox PI :=
  let (s, io) := s.insertPeerInfo ⟨peer, data⟩ io
  if s.activeView.contains peer || s.passiveView.contains peer || peer == s.me then (s, io)
  else
    let s :=
      if s.passiveIsFull then
        let (_, passiveView, rng) := s.passiveView.removeRandom R s.rng
        { s with passiveView, rng }
      else s
    ({ s with passiveView := s.passiveView.insert peer }, io)

/-- `remove_active_by_index`: remove the peer at an index of the active view, tell it
so if asked to, and move it to the passive view. -/
def removeActiveByIndex (s : State PI RG) (peerIndex : Nat) (respond : Bool) (io : Outbox PI) :
    State PI RG × Outbox PI × Option PI :=
  match s.activeView.swapRemoveIndex peerIndex with
  | (some peer, activeView) =>
    let s := { s with activeView }
    let io := if respond then io ++ [.sendMessage peer (.disconnect true false)] else io
    let io := io ++ [.disconnectPeer peer, .emitEvent (.neighborDown peer)]
    let data := s.peerData peer
    let s := { s with peerData := Function.update s.peerData peer none }
    let (s, io) := s.addPassive R peer data io
    (s, io, some peer)
  | (none, _) => (s, io, none)

/-- `refill_active_from_passive`: below capacity (counting pending requests), send a
neighbor request to a random passive peer not skipped and not already asked. -/
def refillActiveFromPassive (s : State PI RG) (skipPeers : List PI) (io : Outbox PI) :
    State PI RG × Outbox PI :=
  if s.activeView.len + s.pendingNeighborRequests.len ≥ s.config.activeViewCapacity then (s, io)
  else
    let skipPeers := skipPeers ++ s.pendingNeighborRequests.toList
    match s.passiveView.pickRandomWithout R skipPeers s.rng with
    | (some node, rng) =>
      let priority := if s.activeView.len = 0 then Priority.high else Priority.low
      let io := io ++ [.sendMessage node (.neighbor priority s.meData),
        .scheduleTimer s.config.neighborRequestTimeout (.pendingNeighborRequest node)]
      ({ s with rng, pendingNeighborRequests := s.pendingNeighborRequests.insert node }, io)
    | (none, rng) => ({ s with rng }, io)

/-- `remove_active`: remove a peer from the active view if it is there, then refill.
The source unwraps the removal, which cannot fail at an index just looked up. -/
def removeActive (s : State PI RG) (peer : PI) (respond : Bool) (io : Outbox PI) :
    State PI RG × Outbox PI × Option PI :=
  match s.activeView.getIndexOf peer with
  | some idx =>
    match s.removeActiveByIndex R idx respond io with
    | (s, io, some removedPeer) =>
      let (s, io) := s.refillActiveFromPassive R [removedPeer] io
      (s, io, some removedPeer)
    | (s, io, none) => (s, io, none)
  | none => (s, io, none)

/-- `free_random_slot_in_active_view`. -/
def freeRandomSlotInActiveView (s : State PI RG) (io : Outbox PI) : State PI RG × Outbox PI :=
  match s.activeView.pickRandomIndex R s.rng with
  | (some index, rng) =>
    let (s, io, _) := { s with rng }.removeActiveByIndex R index true io
    (s, io)
  | (none, rng) => ({ s with rng }, io)

/-- `add_active_unchecked`: move the peer from the passive to the active view, and
send it a neighbor request. -/
def addActiveUnchecked (s : State PI RG) (peer : PI) (priority : Priority) (io : Outbox PI) :
    State PI RG × Outbox PI :=
  let s := { s with passiveView := (s.passiveView.remove peer).2 }
  let s := { s with activeView := s.activeView.insert peer }
  (s, io ++ [.sendMessage peer (.neighbor priority s.meData), .emitEvent (.neighborUp peer)])

/-- `add_active`: a high-priority peer always gets in, evicting a random one from a
full view; a low-priority one only into a view that is not full. -/
def addActive (s : State PI RG) (peer : PI) (data : Option PeerData) (priority : Priority)
    (io : Outbox PI) : State PI RG × Outbox PI × Bool :=
  let (s, io) := s.insertPeerInfo ⟨peer, data⟩ io
  if s.activeView.contains peer || peer == s.me then (s, io, true)
  else
    match priority, s.activeIsFull with
    | .high, isFull =>
      let (s, io) := if isFull then s.freeRandomSlotInActiveView R io else (s, io)
      let (s, io) := s.addActiveUnchecked peer .high io
      (s, io, true)
    | .low, false =>
      let (s, io) := s.addActiveUnchecked peer .low io
      (s, io, true)
    | .low, true => (s, io, false)

/-- `add_passive` for each node, in order. -/
def addPassiveAll (s : State PI RG) : List (PeerInfo PI) → Outbox PI → State PI RG × Outbox PI
  | [], io => (s, io)
  | node :: nodes, io =>
    let (s, io) := s.addPassive R node.id node.data io
    s.addPassiveAll nodes io

/-- `on_join`: take the peer into the active view and forward the join to every other
active peer. -/
def onJoin (s : State PI RG) (peer : PI) (data : Option PeerData) (io : Outbox PI) :
    State PI RG × Outbox PI :=
  if s.activeView.contains peer then s.insertPeerInfo ⟨peer, data⟩ io
  else
    let (s, io, _) := s.addActive R peer data .high io
    let ttl := s.config.activeRandomWalkLength
    let peerInfo : PeerInfo PI := ⟨peer, data⟩
    (s, io ++ (s.activeView.iterWithout peer).map fun node => .sendMessage node (.forwardJoin peerInfo ttl))

/-- `on_forward_join`: at the end of the walk, or with at most one active peer, take
the new peer in; at the passive walk length, remember it; then, if it is not
active, forward the join to a random active peer other than the sender. The
source assumes there is one and reaches `unreachable!` otherwise. -/
def onForwardJoin (s : State PI RG) (sender : PI) (peer : PeerInfo PI) (ttl : Ttl) (io : Outbox PI) :
    Except Panic (State PI RG × Outbox PI) :=
  let (s, io) :=
    if ttl.expired || s.activeView.len ≤ 1 then
      let (s, io, _) := s.addActive R peer.id peer.data .high io
      (s, io)
    else if ttl == s.config.passiveRandomWalkLength then s.addPassive R peer.id peer.data io
    else (s, io)
  if s.activeView.contains peer.id then .ok (s, io)
  else
    match s.activeView.pickRandomWithout R [sender] s.rng with
    | (none, _) => .error .unreachable
    | (some next, rng) => .ok ({ s with rng }, io ++ [.sendMessage next (.forwardJoin peer ttl.next)])

/-- `on_neighbor`: a high-priority request is always accepted, a low-priority one only
into a view that is not full. -/
def onNeighbor (s : State PI RG) (sender : PI) (priority : Priority) (data : Option PeerData)
    (io : Outbox PI) : State PI RG × Outbox PI :=
  let s := { s with pendingNeighborRequests := (s.pendingNeighborRequests.remove sender).2 }
  match priority with
  | .high =>
    let (s, io, _) := s.addActive R sender data .high io
    (s, io)
  | .low =>
    if !s.activeIsFull then
      let (s, io, _) := s.addActive R sender data .low io
      (s, io)
    else (s, io)

/-- `on_shuffle`: at the end of the walk, or with at most one active peer, keep the
nodes and reply with as many passive peers; otherwise forward the shuffle. -/
def onShuffle (s : State PI RG) (sender : PI) (origin : PI) (nodes : List (PeerInfo PI))
    (ttl : Ttl) (io : Outbox PI) : State PI RG × Outbox PI :=
  if ttl.expired || s.activeView.len ≤ 1 then
    let len := nodes.length
    let (s, io) := s.addPassiveAll R nodes io
    let (ids, rng) := s.passiveView.shuffledAndCapped R len s.rng
    let s := { s with rng }
    (s, io ++ [.sendMessage origin (.shuffleReply (ids.map s.peerInfo))])
  else
    match s.activeView.pickRandomWithout R [origin, sender] s.rng with
    | (some node, rng) => ({ s with rng }, io ++ [.sendMessage node (.shuffle origin nodes ttl.next)])
    | (none, rng) => ({ s with rng }, io)

/-- `on_shuffle_reply`. -/
def onShuffleReply (s : State PI RG) (nodes : List (PeerInfo PI)) (io : Outbox PI) :
    State PI RG × Outbox PI :=
  s.addPassiveAll R nodes io

/-- `on_disconnect`: drop the peer from the active view; keep it as passive if it is
alive and we have its data, forget it otherwise. -/
def onDisconnect (s : State PI RG) (peer : PI) (alive respond : Bool) (io : Outbox PI) :
    State PI RG × Outbox PI :=
  let s := { s with pendingNeighborRequests := (s.pendingNeighborRequests.remove peer).2 }
  let (s, io, _) := s.removeActive R peer respond io
  if alive then
    match s.peerData peer with
    | some data =>
      let s := { s with peerData := Function.update s.peerData peer none }
      s.addPassive R peer (some data) io
    | none => (s, io)
  else ({ s with passiveView := (s.passiveView.remove peer).2 }, io)

/-- `handle_shuffle_timer`: send a shuffle with some of our peers to a random active
peer, and schedule the next one. -/
def handleShuffleTimer (s : State PI RG) (io : Outbox PI) : State PI RG × Outbox PI :=
  let (s, io) : State PI RG × Outbox PI :=
    match s.activeView.pickRandom R s.rng with
    | (some node, rng) =>
      let (active, rng) :=
        s.activeView.shuffledWithoutAndCapped R [node] s.config.shuffleActiveViewCount rng
      let (passive, rng) :=
        s.passiveView.shuffledWithoutAndCapped R [node] s.config.shufflePassiveViewCount rng
      let s := { s with rng }
      let nodes := (active ++ passive).map s.peerInfo
      (s, io ++ [.sendMessage node (.shuffle s.me nodes s.config.shuffleRandomWalkLength)])
    | (none, rng) => ({ s with rng }, io)
  (s, io ++ [.scheduleTimer s.config.shuffleInterval .doShuffle])

/-- `handle_pending_neighbor_timer`: a request still pending failed; forget the peer
and try another. -/
def handlePendingNeighborTimer (s : State PI RG) (peer : PI) (io : Outbox PI) : State PI RG × Outbox PI :=
  match s.pendingNeighborRequests.remove peer with
  | (some _, pendingNeighborRequests) =>
    let s := { s with pendingNeighborRequests, passiveView := (s.passiveView.remove peer).2 }
    s.refillActiveFromPassive R [] io
  | (none, _) => (s, io)

/-- `on_disconnect` for each peer, in order. -/
def disconnectAll (s : State PI RG) : List PI → Bool → Bool → Outbox PI → State PI RG × Outbox PI
  | [], _, _, io => (s, io)
  | peer :: peers, alive, respond, io =>
    let (s, io) := s.onDisconnect R peer alive respond io
    s.disconnectAll peers alive respond io

/-- `handle_quit`: disconnect from every active peer, as not alive. -/
def handleQuit (s : State PI RG) (io : Outbox PI) : State PI RG × Outbox PI :=
  s.disconnectAll R s.activeView.toList false true io

/-- `handle_join`. -/
def handleJoin (s : State PI RG) (peer : PI) (io : Outbox PI) : State PI RG × Outbox PI :=
  (s, io ++ [.sendMessage peer (.join s.meData)])

/-- `handle_disconnect`: the connection dropped; the peer is alive. -/
def handleDisconnect (s : State PI RG) (peer : PI) (io : Outbox PI) : State PI RG × Outbox PI :=
  s.onDisconnect R peer true false io

/-- Run the handler of a message. -/
def dispatchMessage (s : State PI RG) (sender : PI) (io : Outbox PI) :
    Message PI → Except Panic (State PI RG × Outbox PI)
  | .join data => .ok (s.onJoin R sender data io)
  | .forwardJoin peer ttl => s.onForwardJoin R sender peer ttl io
  | .shuffle origin nodes ttl => .ok (s.onShuffle R sender origin nodes ttl io)
  | .shuffleReply nodes => .ok (s.onShuffleReply R nodes io)
  | .neighbor priority data => .ok (s.onNeighbor R sender priority data io)
  | .disconnect alive respond => .ok (s.onDisconnect R sender alive respond io)

/-- `handle_message`: run the handler, then close the connection to a sender that is
not an active peer (unless it was disconnecting). -/
def handleMessage (s : State PI RG) (sender : PI) (message : Message PI) (io : Outbox PI) :
    Except Panic (State PI RG × Outbox PI) :=
  match s.dispatchMessage R sender io message with
  | .error e => .error e
  | .ok (s, io) =>
    if !message.isDisconnect && !s.activeView.contains sender then
      .ok (s, io ++ [.disconnectPeer sender])
    else .ok (s, io)

/-- Run the handler of an event. -/
def dispatch (s : State PI RG) (io : Outbox PI) : InEvent PI → Except Panic (State PI RG × Outbox PI)
  | .recvMessage sender message => s.handleMessage R sender message io
  | .timerExpired .doShuffle => .ok (s.handleShuffleTimer R io)
  | .timerExpired (.pendingNeighborRequest peer) => .ok (s.handlePendingNeighborTimer R peer io)
  | .peerDisconnected peer => .ok (s.handleDisconnect R peer io)
  | .requestJoin peer => .ok (s.handleJoin peer io)
  | .updatePeerData data => .ok ({ s with meData := some data }, io)
  | .quit => .ok (s.handleQuit R io)

/-- `handle`: run the handler, then schedule the first shuffle if none is. -/
def handle (s : State PI RG) (event : InEvent PI) (io : Outbox PI) :
    Except Panic (State PI RG × Outbox PI) :=
  match s.dispatch R io event with
  | .error e => .error e
  | .ok (s, io) =>
    if !s.shuffleScheduled then
      .ok ({ s with shuffleScheduled := true },
        io ++ [.scheduleTimer s.config.shuffleInterval .doShuffle])
    else .ok (s, io)

end State

end Hyparview

end Iroh.Gossip
