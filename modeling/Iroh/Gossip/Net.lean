import Iroh.Gossip.Proto

/-! The gossip actor of a node (`net.rs`), and the world around it.

The actor owns the protocol state of `Proto`, and carries out its output: a message
goes to the send channel of the peer's connection loop, or into the peer's queue until
a connection exists (the first queued message starts a dial); an event goes to the
topic's subscribers; a timer is scheduled; a disconnect drops the peer and closes its
connections. It keeps, per topic, the set of neighbors it announced, and hands a new
subscriber of a joined topic that set as its `Joined` event.

What the actor waits on is one `Input`: its own inputs (a connection, a subscription, a
subscriber's command, a dial's end, the next in-event, the timers), and what the
connection loops and the subscribers do on their own side (a loop reads a message or
ends, a subscriber drops its receiver). Connections and their loops are known by one
number each; a subscriber's number is also its key in the actor's command streams.
Every step returns the events the protocol was handed, in order.

The neighbor set of a topic only grows: `NeighborUp` inserts, and nothing removes.
So the `Joined` of a late subscriber names peers that went down since
(`late_subscriber_sees_departed_neighbor`). A failed dial is only logged, and a queue
that is not empty starts no dial, so messages queue up with nothing to send them; and
the end of either of two connections to a peer reports the peer gone while the other
still runs (`transport_loses_track_of_peers`). What does hold is in `NetInv`. -/

namespace Iroh.Gossip.Net

open Proto (TopicId)
open Topic (Config)

/-- `GossipEvent`: what a subscriber receives. -/
inductive GossipEvent (PI : Type) where
  | joined (neighbors : List PI)
  | neighborUp (peer : PI)
  | neighborDown (peer : PI)
  | received (message : Plumtree.GossipEvent PI)
deriving DecidableEq

/-- `From<proto::Event> for GossipEvent`. -/
def GossipEvent.ofProto {PI : Type} : Topic.Event PI → GossipEvent PI
  | .neighborUp peer => .neighborUp peer
  | .neighborDown peer => .neighborDown peer
  | .received message => .received message

/-- `Command`: what a subscriber asks of its topic. -/
inductive Command (PI : Type) where
  | broadcast (message : List UInt8)
  | broadcastNeighbors (message : List UInt8)
  | joinPeers (peers : List PI)
deriving DecidableEq

/-- The protocol command of a subscriber's command (`handle_command`). -/
def Command.toProto {PI : Type} : Command PI → Topic.Command PI
  | .broadcast message => .broadcast message .swarm
  | .broadcastNeighbors message => .broadcast message .neighbors
  | .joinPeers peers => .join peers

/-- `ConnOrigin`. -/
inductive ConnOrigin where
  | accept
  | dial
deriving DecidableEq

/-- `PeerState`: messages wait in a queue until a connection exists; then they go to
the send channel of connection `sendTx`'s loop. -/
inductive PeerState (PI : Type) where
  | pending (queue : List (Proto.Message PI))
  | active (sendTx : Nat)
deriving DecidableEq

/-- `PeerInfo`. -/
structure PeerInfo (PI : Type) where
  state : PeerState PI := .pending []
  connDialed : Option Nat := none
  connAccepted : Option Nat := none
deriving DecidableEq

/-- `TopicState`; the `BTreeSet` of neighbors is a sorted list, and a command stream's
key is its subscriber's number. -/
structure TopicState (PI : Type) where
  joined : Bool := false
  neighbors : List PI := []
  eventSenders : List Nat := []
  commandRxKeys : List Nat := []
deriving DecidableEq

/-- A connection and the task that runs its loop: the peer, the messages handed to
its send side in order (its queue first), whether the loop still runs, and whether
the actor closed the connection. -/
structure Conn (PI : Type) where
  peer : PI
  origin : ConnOrigin
  sent : List (Proto.Message PI)
  running : Bool
  closed : Bool
deriving DecidableEq

/-- A subscriber: its topic, the events its channel received, and whether it dropped
its event receiver or ended its command stream. -/
structure Subscriber (PI : Type) where
  topic : TopicId
  received : List (GossipEvent PI)
  receiverDropped : Bool
  commandsEnded : Bool
deriving DecidableEq

/-- `Actor`, with the connection loops, the in-event channel and the subscribers'
channels. Timers are kept with their instants in insertion order. -/
structure Actor (PI RG : Type) where
  state : Proto.State PI RG
  dialer : List PI
  timers : List (Nat × Proto.Timer PI)
  topics : AList fun _ : TopicId => TopicState PI
  peers : AList fun _ : PI => PeerInfo PI
  quitQueue : List TopicId
  conns : List (Conn PI)
  inEvents : List (Proto.InEvent PI)
  subscribers : List (Subscriber PI)

/-- What the actor waits on, and what the loops and the subscribers do. -/
inductive Input (PI : Type) where
  /-- `ToActor::HandleConnection` of an accepted connection. -/
  | accept (peer : PI)
  /-- `ToActor::Join` from a new subscriber. -/
  | join (topic : TopicId) (bootstrap : List PI)
  /-- A subscriber's command stream yields a command, or ends. -/
  | command (sub : Nat) (command : Option (Command PI))
  /-- The endpoint's addresses changed. -/
  | updatePeerData (data : PeerData)
  /-- A pending dial ends. -/
  | dialed (peer : PI) (connected : Bool)
  /-- The next event of the in-event channel. -/
  | inEvent
  /-- The earliest timers expire. -/
  | timers
  /-- A connection loop reads a message. -/
  | recv (conn : Nat) (message : Proto.Message PI)
  /-- A connection loop ends. -/
  | connectionEnds (conn : Nat)
  /-- A subscriber drops its event receiver. -/
  | dropReceiver (sub : Nat)

section
variable {PI RG : Type} [LinearOrder PI]

/-- `BTreeSet::insert` on a sorted list. -/
def insertNeighbor (neighbor : PI) (neighbors : List PI) : List PI :=
  if neighbor ∈ neighbors then neighbors else neighbors.orderedInsert (· ≤ ·) neighbor

/-- `Dialer::queue_dial`: nothing if a dial to the peer is pending. -/
def queueDial (dialer : List PI) (peer : PI) : List PI :=
  if peer ∈ dialer then dialer else dialer ++ [peer]

/-- `send_tx.send(message)`: the message reaches the loop of connection `tx` if the
loop runs; otherwise the send fails and is only logged. -/
def sendOn (conns : List (Conn PI)) (tx : Nat) (message : Proto.Message PI) : List (Conn PI) :=
  conns.modify tx fun c => if c.running then { c with sent := c.sent ++ [message] } else c

/-- `Connection::close` on the connections a peer held. -/
def closeConns (conns : List (Conn PI)) : List (Option Nat) → List (Conn PI)
  | [] => conns
  | none :: rest => closeConns conns rest
  | some conn :: rest => closeConns (conns.modify conn fun c => { c with closed := true }) rest

/-- Whether a subscriber's receiver is gone (`is_closed`); an unknown one is. -/
def receiverGone (subs : List (Subscriber PI)) (sub : Nat) : Bool :=
  (subs[sub]?.map (·.receiverDropped)).getD true

/-- Append an event to a subscriber's channel. -/
def deliver (event : GossipEvent PI) (subs : List (Subscriber PI)) (sub : Nat) :
    List (Subscriber PI) :=
  subs.modify sub fun s => { s with received := s.received ++ [event] }

/-- `EventSenders::send`: drop the senders whose receiver is gone and send the event to
the rest. The channels have room for every event here, so none is `Lagged`. -/
def sendEvent (subs : List (Subscriber PI)) (senders : List Nat) (event : GossipEvent PI) :
    List Nat × List (Subscriber PI) :=
  let senders := senders.filter fun sub => !receiverGone subs sub
  (senders, senders.foldl (deliver event) subs)

/-- The topic's side of `EmitEvent`: `NeighborUp` inserts the neighbor, and is the
topic's `Joined` if it is the first; every other event passes as it is. -/
def TopicState.emit (ts : TopicState PI) : Topic.Event PI → TopicState PI × GossipEvent PI
  | .neighborUp neighbor =>
    let ts := { ts with neighbors := insertNeighbor neighbor ts.neighbors }
    if !ts.joined then ({ ts with joined := true }, .joined [neighbor]) else (ts, .neighborUp neighbor)
  | event => (ts, .ofProto event)

/-- `GossipReceiver::poll_next`: the neighbors a receiver tracks, after one event. -/
def Receiver.apply (neighbors : Finset PI) : GossipEvent PI → Finset PI
  | .joined peers => neighbors ∪ peers.toFinset
  | .neighborUp peer => insert peer neighbors
  | .neighborDown peer => neighbors.erase peer
  | .received _ => neighbors

/-- The neighbors a receiver tracks after its events. -/
def Receiver.neighbors (events : List (GossipEvent PI)) : Finset PI :=
  events.foldl Receiver.apply ∅

/-- The bound on the turns of `process_quit_queue`'s loop. Each turn removes its topic,
and only events of that topic can queue it again, so the queue drains long before. -/
def quitQueueFuel : Nat := 2 ^ 16

namespace Actor

/-- An actor with no topics, peers or connections. -/
def new (me : PI) (meData : PeerData) (config : Config) (rng : RG) : Actor PI RG :=
  ⟨.new me meData config rng, [], [], ∅, ∅, [], [], [], []⟩

/-- `Actor::handle_connection`: a second connection of the same direction is ignored.
Otherwise the connection is stored, its loop gets the queued messages, and the peer's
send channel becomes the new loop's, unless the peer already had one. -/
def handleConnection (a : Actor PI RG) (peer : PI) (origin : ConnOrigin) : Actor PI RG :=
  let ignored := match a.peers.lookup peer, origin with
    | some info, .dial => info.connDialed.isSome
    | some info, .accept => info.connAccepted.isSome
    | none, _ => false
  if ignored then a else
    let conn := a.conns.length
    let info := (a.peers.lookup peer).getD {}
    let info := match origin with
      | .dial => { info with connDialed := some conn }
      | .accept => { info with connAccepted := some conn }
    let queue := match info.state with
      | .pending queue => queue
      | .active _ => []
    -- the new loop's send channel is dropped here when the peer keeps its old one
    let state := match info.state with
      | .pending _ => PeerState.active conn
      | .active sendTx => .active sendTx
    { a with
      peers := a.peers.insert peer { info with state }
      conns := a.conns ++ [⟨peer, origin, queue, true, false⟩] }

/-- One event of the protocol's output (`handle_in_event_inner`'s loop body). -/
def handleOutEvent (now : Nat) (a : Actor PI RG) : Proto.OutEvent PI → Actor PI RG
  | .sendMessage peer message =>
    let info := (a.peers.lookup peer).getD {}
    match info.state with
    | .active sendTx => { a with peers := a.peers.insert peer info, conns := sendOn a.conns sendTx message }
    | .pending queue =>
      { a with
        dialer := if queue = [] then queueDial a.dialer peer else a.dialer
        peers := a.peers.insert peer { info with state := .pending (queue ++ [message]) } }
  | .emitEvent topic event =>
    match a.topics.lookup topic with
    | none => a
    | some ts =>
      let (ts, event) := ts.emit event
      let (eventSenders, subscribers) := sendEvent a.subscribers ts.eventSenders event
      { a with
        topics := a.topics.insert topic { ts with eventSenders }
        subscribers
        quitQueue :=
          if eventSenders = [] ∧ ts.commandRxKeys = [] then a.quitQueue ++ [topic] else a.quitQueue }
  | .scheduleTimer delay timer => { a with timers := a.timers ++ [(now + delay, timer)] }
  | .disconnectPeer peer =>
    match a.peers.lookup peer with
    | none => a
    | some info =>
      { a with peers := a.peers.erase peer, conns := closeConns a.conns [info.connDialed, info.connAccepted] }
  -- the endpoint's address book is not modelled
  | .peerData _ _ => a

variable (R : Rng RG) (fromContent : List UInt8 → Plumtree.MessageId)

/-- `Actor::handle_in_event_inner`: the protocol handles the event, and the actor
carries out its output in order. -/
def handleInEventInner (a : Actor PI RG) (event : Proto.InEvent PI) (now : Nat) :
    Except Panic (Actor PI RG × List (Proto.InEvent PI)) := do
  let a := match event with
    | .peerDisconnected peer => { a with peers := a.peers.erase peer }
    | _ => a
  let (state, out) ← a.state.handle R fromContent event now
  return (out.foldl (handleOutEvent now) { a with state }, [event])

/-- `Actor::process_quit_queue`: quit each queued topic and drop its state. -/
def processQuitQueue (now : Nat) : Nat → Actor PI RG →
    Except Panic (Actor PI RG × List (Proto.InEvent PI))
  | 0, a => .ok (a, [])
  | fuel + 1, a =>
    match a.quitQueue with
    | [] => .ok (a, [])
    | topic :: rest => do
      let (a, handled) ← handleInEventInner R fromContent { a with quitQueue := rest } (.command topic .quit) now
      let (a, more) ← processQuitQueue now fuel { a with topics := a.topics.erase topic }
      return (a, handled ++ more)

/-- `Actor::handle_in_event`. -/
def handleInEvent (a : Actor PI RG) (event : Proto.InEvent PI) (now : Nat) :
    Except Panic (Actor PI RG × List (Proto.InEvent PI)) := do
  let (a, handled) ← a.handleInEventInner R fromContent event now
  let (a, quits) ← processQuitQueue R fromContent now quitQueueFuel a
  return (a, handled ++ quits)

/-- `ToActor::Join`: a subscriber of a joined topic first gets `Joined` with the
topic's neighbors; then the protocol joins the bootstrap peers. -/
def join (a : Actor PI RG) (topic : TopicId) (bootstrap : List PI) (now : Nat) :
    Except Panic (Actor PI RG × List (Proto.InEvent PI)) :=
  let ts := (a.topics.lookup topic).getD {}
  let sub := a.subscribers.length
  let received := if ts.joined then [GossipEvent.joined ts.neighbors] else []
  let a := { a with
    topics := a.topics.insert topic
      { ts with eventSenders := ts.eventSenders ++ [sub], commandRxKeys := ts.commandRxKeys ++ [sub] }
    subscribers := a.subscribers ++ [(⟨topic, received, false, false⟩ : Subscriber PI)] }
  a.handleInEvent R fromContent (.command topic (.join bootstrap)) now

/-- `Actor::handle_command`: a command goes to the protocol; the end of the stream
removes its key, and quits the topic when no key and no sender is left. -/
def handleCommand (a : Actor PI RG) (sub : Nat) (command : Option (Command PI)) (now : Nat) :
    Except Panic (Actor PI RG × List (Proto.InEvent PI)) :=
  match a.subscribers[sub]? with
  | none => .ok (a, [])
  | some s =>
    if s.commandsEnded then .ok (a, []) else
      let a := match command with
        | none => { a with subscribers := a.subscribers.modify sub fun s => { s with commandsEnded := true } }
        | some _ => a
      match a.topics.lookup s.topic with
      | none => .ok (a, [])
      | some ts =>
        match command with
        | some command => a.handleInEvent R fromContent (.command s.topic command.toProto) now
        | none =>
          let ts := { ts with commandRxKeys := ts.commandRxKeys.erase sub }
          let a := { a with topics := a.topics.insert s.topic ts }
          if ts.commandRxKeys = [] ∧ ts.eventSenders = [] then
            processQuitQueue R fromContent now quitQueueFuel { a with quitQueue := a.quitQueue ++ [s.topic] }
          else .ok (a, [])

/-- The expired timers, each handled in turn (`TimerExpired`). -/
def handleTimers (now : Nat) : List (Proto.Timer PI) → Actor PI RG →
    Except Panic (Actor PI RG × List (Proto.InEvent PI))
  | [], a => .ok (a, [])
  | timer :: timers, a => do
    let (a, handled) ← a.handleInEvent R fromContent (.timerExpired timer) now
    let (a, more) ← handleTimers now timers a
    return (a, handled ++ more)

/-- `Timers::wait_and_drain`: once the earliest instant is reached, drain the timers
at it and handle them. -/
def expireTimers (a : Actor PI RG) (now : Nat) : Except Panic (Actor PI RG × List (Proto.InEvent PI)) :=
  match (a.timers.map (·.1)).min? with
  | some first =>
    if first ≤ now then
      handleTimers R fromContent now ((a.timers.filter (·.1 ≤ first)).map (·.2))
        { a with timers := a.timers.filter fun t => ¬ t.1 ≤ first }
    else .ok (a, [])
  | none => .ok (a, [])

/-- One turn of `Actor::run`, or a move of the loops and the subscribers. An input
that cannot happen in the state leaves it alone. -/
def step (a : Actor PI RG) : Input PI × Nat → Except Panic (Actor PI RG × List (Proto.InEvent PI))
  | (.accept peer, _) => .ok (a.handleConnection peer .accept, [])
  | (.join topic bootstrap, now) => a.join R fromContent topic bootstrap now
  | (.command sub command, now) => a.handleCommand R fromContent sub command now
  | (.updatePeerData data, now) => a.handleInEvent R fromContent (.updatePeerData data) now
  | (.dialed peer connected, _) =>
    if peer ∈ a.dialer then
      -- a failed dial is only logged
      let a := { a with dialer := a.dialer.erase peer }
      .ok (if connected then a.handleConnection peer .dial else a, [])
    else .ok (a, [])
  | (.inEvent, now) =>
    match a.inEvents with
    | [] => .ok (a, [])
    | event :: rest => { a with inEvents := rest }.handleInEvent R fromContent event now
  | (.timers, now) => a.expireTimers R fromContent now
  | (.recv conn message, _) =>
    match a.conns[conn]? with
    | some c =>
      if c.running ∧ !c.closed then .ok ({ a with inEvents := a.inEvents ++ [.recvMessage c.peer message] }, [])
      else .ok (a, [])
    | none => .ok (a, [])
  | (.connectionEnds conn, _) =>
    match a.conns[conn]? with
    | some c =>
      if c.running then
        .ok ({ a with
          conns := a.conns.modify conn fun c => { c with running := false }
          inEvents := a.inEvents ++ [.peerDisconnected c.peer] }, [])
      else .ok (a, [])
    | none => .ok (a, [])
  | (.dropReceiver sub, _) =>
    .ok ({ a with subscribers := a.subscribers.modify sub fun s => { s with receiverDropped := true } }, [])

/-- A run of the actor from a state. -/
def run (a : Actor PI RG) (inputs : List (Input PI × Nat)) :
    Except Panic (Actor PI RG × List (Proto.InEvent PI)) :=
  Machine.run (fun a input => a.step R fromContent input) a inputs

end Actor

end

/-! ### A late subscriber told of a departed neighbor -/

/-- Subscriber 0 joins topic A; peer 1 connects and joins the topic, then its
connection ends; then subscriber 1 joins topic A. -/
def lateSubscriberRun : List (Input Nat × Nat) :=
  [(.join Proto.topicA [], 0), (.accept 1, 0), (.recv 0 ⟨Proto.topicA, .swarm (.join none)⟩, 0),
    (.inEvent, 0), (.connectionEnds 0, 0), (.inEvent, 0), (.join Proto.topicA [], 0)]

theorem late_subscriber_sees_departed_neighbor :
    let R : Rng Unit := ⟨fun g _ => (0, g), fun _ _ h => h⟩
    ∃ a handled ts state early late,
      (Actor.new 0 ⟨[]⟩ .default ()).run R (fun _ => 0) lateSubscriberRun = .ok (a, handled) ∧
      a.topics.lookup Proto.topicA = some ts ∧ a.state.states.lookup Proto.topicA = some state ∧
      ts.neighbors = [1] ∧ 1 ∉ state.swarm.activeView ∧ a.subscribers = [early, late] ∧
      Receiver.neighbors early.received = ∅ ∧ Receiver.neighbors late.received = {1} := by
  intro R
  exact ⟨_, _, _, _, _, _, rfl, rfl, rfl, rfl, by decide, rfl, by decide, by decide⟩

/-! ### Messages with no dial, and a peer reported gone while connected -/

/-- Subscriber 0 joins topic A with peer 1 as bootstrap; the dial to 1 fails; the
subscriber asks to join 1 again. -/
def failedDialRun : List (Input Nat × Nat) :=
  [(.join Proto.topicA [1], 0), (.dialed 1 false, 0), (.command 0 (some (.joinPeers [1])), 0)]

/-- Subscriber 0 joins topic A with peer 1 as bootstrap; peer 1 connects, then the dial
to it connects too; the dialed connection's loop ends. -/
def twoConnectionsRun : List (Input Nat × Nat) :=
  [(.join Proto.topicA [1], 0), (.accept 1, 0), (.dialed 1 true, 0), (.connectionEnds 1, 0)]

theorem transport_loses_track_of_peers :
    let R : Rng Unit := ⟨fun g _ => (0, g), fun _ _ h => h⟩
    (∃ a handled, (Actor.new 0 ⟨[]⟩ .default ()).run R (fun _ => 0) failedDialRun = .ok (a, handled) ∧
      a.peers.lookup 1 = some ⟨.pending [⟨Proto.topicA, .swarm (.join (some ⟨[]⟩))⟩,
        ⟨Proto.topicA, .swarm (.join (some ⟨[]⟩))⟩], none, none⟩ ∧
      a.dialer = [] ∧ a.conns = [] ∧ a.inEvents = []) ∧
    (∃ a handled a' handled',
      (Actor.new 0 ⟨[]⟩ .default ()).run R (fun _ => 0) twoConnectionsRun = .ok (a, handled) ∧
      a.step R (fun _ => 0) (.inEvent, 0) = .ok (a', handled') ∧
      Proto.InEvent.peerDisconnected 1 ∈ handled' ∧ a'.peers.lookup 1 = none ∧
      ∃ c, a'.conns[0]? = some c ∧ c.peer = 1 ∧ c.running = true) := by
  intro R
  exact ⟨⟨_, _, rfl, rfl, rfl, rfl, rfl⟩, ⟨_, _, _, _, rfl, rfl, by decide, rfl, _, rfl, rfl, rfl⟩⟩

end Iroh.Gossip.Net
