import Iroh.Lib.Machine
import Iroh.Gossip.Topic

/-! The protocol state of a node over all its topics (`proto/state.rs`).

A node keeps a topic state per joined topic and shares one connection per peer
among them. Which topics use the connection to a peer is the map `peer_topics`:
a topic is noted for the peer when it receives a message from it. When a topic
asks to disconnect a peer, the node forgets the topic for that peer, and closes
the connection only if no topic is left.

The map is written on receipt only. A topic can take a peer into its active view
without having heard from it, when a join walk ends at the node; the connection
then carries the topic's neighbor link but the map does not name the topic, and
another topic's release of the peer closes the connection (`quit_closes_shared_link`). -/

namespace Iroh.Gossip.Proto

open Topic (Config)

/-- `TopicId`: 32 bytes. -/
structure TopicId where
  bytes : List UInt8
  length_bytes : bytes.length = 32

/-- Topic ids are equal when their bytes are. -/
theorem TopicId.bytes_inj {a b : TopicId} : a.bytes = b.bytes ↔ a = b := by
  constructor
  · intro h
    obtain ⟨_, _⟩ := a
    obtain ⟨_, _⟩ := b
    subst h
    rfl
  · rintro rfl
    rfl

instance : DecidableEq TopicId := fun _ _ => decidable_of_iff _ TopicId.bytes_inj

/-- `Message`: a topic's message with its topic. -/
structure Message (PI : Type) where
  topic : TopicId
  message : Topic.Message PI
deriving DecidableEq

/-- `Timer`: a topic's timer with its topic. -/
structure Timer (PI : Type) where
  topic : TopicId
  timer : Topic.Timer PI
deriving DecidableEq

/-- `InEvent`. -/
inductive InEvent (PI : Type) where
  | recvMessage (sender : PI) (message : Message PI)
  | command (topic : TopicId) (command : Topic.Command PI)
  | timerExpired (timer : Timer PI)
  | peerDisconnected (peer : PI)
  | updatePeerData (data : PeerData)
deriving DecidableEq

/-- `OutEvent`. -/
inductive OutEvent (PI : Type) where
  | sendMessage (peer : PI) (message : Message PI)
  | emitEvent (topic : TopicId) (event : Topic.Event PI)
  | scheduleTimer (delay : Nat) (timer : Timer PI)
  | disconnectPeer (peer : PI)
  | peerData (peer : PI) (data : PeerData)
deriving DecidableEq

/-- `Outbox`. -/
abbrev Outbox (PI : Type) := List (OutEvent PI)

/-- `InEventMapped`: an event for every topic, or for one. -/
inductive InEventMapped (PI : Type) where
  | all (event : Topic.InEvent PI)
  | topicEvent (topic : TopicId) (event : Topic.InEvent PI)

/-- `From<InEvent> for InEventMapped`. -/
def InEvent.mapped {PI : Type} : InEvent PI → InEventMapped PI
  | .recvMessage sender ⟨topic, message⟩ => .topicEvent topic (.recvMessage sender message)
  | .command topic cmd => .topicEvent topic (.command cmd)
  | .timerExpired ⟨topic, timer⟩ => .topicEvent topic (.timerExpired timer)
  | .peerDisconnected peer => .all (.peerDisconnected peer)
  | .updatePeerData data => .all (.updatePeerData data)

/-- `ConnsMap`: for each peer, the topics that use the connection to it. -/
abbrev ConnsMap (PI : Type) := AList fun _ : PI => List TopicId

/-- `State`; the outbox is drained at the end of every call. -/
structure State (PI RG : Type) where
  me : PI
  meData : PeerData
  config : Config
  rng : RG
  states : AList fun _ : TopicId => Topic.State PI RG
  peerTopics : ConnsMap PI

section
variable {PI RG : Type} [DecidableEq PI]

/-- `handle_out_event`: tag a topic's event with the topic; a disconnect only
forgets the topic for the peer, and closes the connection when that was the last
topic using it. -/
def handleOutEvent (topic : TopicId) (conns : ConnsMap PI) (outbox : Outbox PI) :
    Topic.OutEvent PI → ConnsMap PI × Outbox PI
  | .sendMessage peer message => (conns, outbox ++ [.sendMessage peer ⟨topic, message⟩])
  | .emitEvent event => (conns, outbox ++ [.emitEvent topic event])
  | .scheduleTimer delay timer => (conns, outbox ++ [.scheduleTimer delay ⟨topic, timer⟩])
  | .disconnectPeer peer =>
    match conns.lookup peer with
    | some list =>
      -- `list.remove(&topic) && list.is_empty()`, on the set in the map
      let conns := conns.insert peer (list.erase topic)
      if topic ∈ list ∧ list.erase topic = [] then (conns.erase peer, outbox ++ [.disconnectPeer peer])
      else (conns, outbox)
    | none => (conns, outbox)
  | .peerData peer data => (conns, outbox ++ [.peerData peer data])

/-- `handle_out_event` for each event of a topic's outbox, in order. -/
def handleOutEvents (topic : TopicId) : List (Topic.OutEvent PI) → ConnsMap PI → Outbox PI →
    ConnsMap PI × Outbox PI
  | [], conns, outbox => (conns, outbox)
  | event :: events, conns, outbox =>
    let (conns, outbox) := handleOutEvent topic conns outbox event
    handleOutEvents topic events conns outbox

variable (R : Rng RG) (fromContent : List UInt8 → Plumtree.MessageId)

namespace State

/-- The topics a message from the peer notes for it (`entry(from).or_default().insert(topic)`). -/
def notePeerTopic (conns : ConnsMap PI) (peer : PI) (topic : TopicId) : ConnsMap PI :=
  conns.insert peer (((conns.lookup peer).getD []).insert topic)

/-- The event for one topic: a join creates the topic's state if there is none, the
state handles the event, and a quit drops the state after its last event. -/
def handleTopic (s : State PI RG) (topic : TopicId) (event : Topic.InEvent PI) (now : Nat) :
    Except Panic (State PI RG × Outbox PI) :=
  let s := match event with
    | .command (.join _) =>
      if s.states.lookup topic = none then
        { s with states := s.states.insert topic (.withRng s.me (some s.meData) s.config s.rng) }
      else s
    | _ => s
  let quit := decide (event = .command .quit)
  let dropIfQuit (s : State PI RG) : State PI RG :=
    if quit then { s with states := s.states.erase topic } else s
  match s.states.lookup topic with
  | some state =>
    let peerTopics := match event with
      | .recvMessage sender _ => notePeerTopic s.peerTopics sender topic
      | _ => s.peerTopics
    match state.handle R fromContent event now with
    | .error e => .error e
    | .ok (state, out) =>
      let (peerTopics, outbox) := handleOutEvents topic out peerTopics []
      .ok (dropIfQuit { s with states := s.states.insert topic state, peerTopics }, outbox)
  | none => .ok (dropIfQuit s, [])

/-- The event for every topic: each topic's state in turn. -/
def handleAll (event : Topic.InEvent PI) (now : Nat) :
    List TopicId → State PI RG → Outbox PI → Except Panic (State PI RG × Outbox PI)
  | [], s, outbox => .ok (s, outbox)
  | topic :: topics, s, outbox =>
    match s.states.lookup topic with
    | some state =>
      match state.handle R fromContent event now with
      | .error e => .error e
      | .ok (state, out) =>
        let (peerTopics, outbox) := handleOutEvents topic out s.peerTopics outbox
        handleAll event now topics { s with states := s.states.insert topic state, peerTopics } outbox
    | none => handleAll event now topics s outbox

/-- `State::handle`. -/
def handle (s : State PI RG) (event : InEvent PI) (now : Nat) : Except Panic (State PI RG × Outbox PI) :=
  match event.mapped with
  | .topicEvent topic event => s.handleTopic R fromContent topic event now
  | .all event =>
    let s := match event with
      | .updatePeerData data => { s with meData := data }
      | _ => s
    handleAll R fromContent event now s.states.keys s []

/-- `State::new`. -/
def new (me : PI) (meData : PeerData) (config : Config) (rng : RG) : State PI RG :=
  ⟨me, meData, config, rng, ∅, ∅⟩

end State

/-! ### When a connection is closed -/

end

/-! ### A shared connection closed under a neighbor link -/

/-- The first topic of the run. -/
def topicA : TopicId := ⟨List.replicate 32 1, rfl⟩

/-- The second topic of the run. -/
def topicB : TopicId := ⟨List.replicate 32 2, rfl⟩

/-- Node 0 is in two topics. Peer 1 joins it in topic A; peer 2's join walk for
peer 1 ends at node 0 in topic B, which takes 1 into its active view without any
message from 1. When node 0 quits topic A, the connection to 1 is closed, though 1
is still in topic B's active view. -/
theorem quit_closes_shared_link :
    let R : Rng Unit := ⟨fun g _ => (0, g), fun _ _ h => h⟩
    ∃ s out s' out', Machine.run (fun s e => s.handle R (fun _ => 0) e 0) (State.new 0 ⟨[]⟩ .default ())
        [.command topicA (.join []), .recvMessage 1 ⟨topicA, .swarm (.join none)⟩,
          .command topicB (.join []), .recvMessage 2 ⟨topicB, .swarm (.forwardJoin ⟨1, none⟩ ⟨0⟩)⟩] =
        .ok (s, out) ∧
      s.handle R (fun _ => 0) (.command topicA .quit) 0 = .ok (s', out') ∧
      OutEvent.disconnectPeer 1 ∈ out' ∧
      ∃ state, s.states.lookup topicB = some state ∧ 1 ∈ state.swarm.activeView ∧
        s'.states.lookup topicB = some state := by
  intro R
  exact ⟨_, _, _, _, rfl, rfl, by decide, _, rfl, by decide, rfl⟩

end Iroh.Gossip.Proto
