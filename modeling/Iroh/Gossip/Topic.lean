import Iroh.Gossip.Plumtree

/-! The protocol state of one topic (`proto/topic.rs`): HyParView for the membership
of the swarm and Plumtree for the broadcast over it.

`handle` runs the event through the layer it is for, into an outbox; then it feeds
the `NeighborUp` and `NeighborDown` events of the outbox, in order, to Plumtree as
its inputs of the same name, and appends what Plumtree emits on them (on the first
event Plumtree sees, the eviction timer). The outbox is drained at the end of every
call, so it is no part of the state here. Statistics are not modelled, and neither
is the maximum message size of the configuration, which `handle` does not read. -/

namespace Iroh.Gossip.Topic

open Plumtree (MessageId GossipEvent Scope)

/-- `Message`: a message of either layer. -/
inductive Message (PI : Type) where
  | swarm (message : Hyparview.Message PI)
  | gossip (message : Plumtree.Message)
deriving DecidableEq, Repr

/-- `Event`. -/
inductive Event (PI : Type) where
  | neighborUp (peer : PI)
  | neighborDown (peer : PI)
  | received (event : GossipEvent PI)
deriving DecidableEq, Repr

/-- `Timer`: a timer of either layer. -/
inductive Timer (PI : Type) where
  | swarm (timer : Hyparview.Timer PI)
  | gossip (timer : Plumtree.Timer)
deriving DecidableEq, Repr

/-- `Command`. -/
inductive Command (PI : Type) where
  | join (peers : List PI)
  | broadcast (data : List UInt8) (scope : Scope)
  | quit
deriving DecidableEq, Repr

/-- `InEvent`. -/
inductive InEvent (PI : Type) where
  | recvMessage (sender : PI) (message : Message PI)
  | command (command : Command PI)
  | timerExpired (timer : Timer PI)
  | peerDisconnected (peer : PI)
  | updatePeerData (data : PeerData)
deriving DecidableEq, Repr

/-- `OutEvent`. -/
inductive OutEvent (PI : Type) where
  | sendMessage (peer : PI) (message : Message PI)
  | emitEvent (event : Event PI)
  | scheduleTimer (delay : Nat) (timer : Timer PI)
  | disconnectPeer (peer : PI)
  | peerData (peer : PI) (data : PeerData)
deriving DecidableEq, Repr

/-- The events pushed to the outbox, in order. -/
abbrev Outbox (PI : Type) := List (OutEvent PI)

/-- `From<hyparview::OutEvent>`. -/
def OutEvent.ofSwarm {PI : Type} : Hyparview.OutEvent PI → OutEvent PI
  | .sendMessage peer message => .sendMessage peer (.swarm message)
  | .scheduleTimer delay timer => .scheduleTimer delay (.swarm timer)
  | .disconnectPeer peer => .disconnectPeer peer
  | .emitEvent (.neighborUp peer) => .emitEvent (.neighborUp peer)
  | .emitEvent (.neighborDown peer) => .emitEvent (.neighborDown peer)
  | .peerData peer data => .peerData peer data

/-- `From<plumtree::OutEvent>`. -/
def OutEvent.ofGossip {PI : Type} : Plumtree.OutEvent PI → OutEvent PI
  | .sendMessage peer message => .sendMessage peer (.gossip message)
  | .scheduleTimer delay timer => .scheduleTimer delay (.gossip timer)
  | .emitEvent (.received event) => .emitEvent (.received event)

/-- The Plumtree input a neighbor event of the outbox is forwarded as. -/
def OutEvent.neighborInput {PI : Type} : OutEvent PI → Option (Plumtree.InEvent PI)
  | .emitEvent (.neighborUp peer) => some (.neighborUp peer)
  | .emitEvent (.neighborDown peer) => some (.neighborDown peer)
  | _ => none

/-- `Config`, without the maximum message size. -/
structure Config where
  membership : Hyparview.Config
  broadcast : Plumtree.Config
deriving DecidableEq, Repr

/-- `Config::default`. -/
def Config.default : Config := ⟨.default, .default⟩

/-- `State`. -/
structure State (PI RG : Type) where
  me : PI
  swarm : Hyparview.State PI RG
  gossip : Plumtree.State PI

namespace State

variable {PI RG : Type} [DecidableEq PI] (R : Rng RG) (fromContent : List UInt8 → MessageId)

/-- `State::with_rng`. -/
def withRng (me : PI) (meData : Option PeerData) (config : Config) (rng : RG) : State PI RG where
  me := me
  swarm := .new me meData config.membership rng
  gossip := .new me config.broadcast

/-- `self.swarm.handle(event, now, io)`: HyParView pushes its events into the outbox. -/
def swarmHandle (s : State PI RG) (event : Hyparview.InEvent PI) (io : Outbox PI) :
    Except Panic (State PI RG × Outbox PI) :=
  match s.swarm.handle R event [] with
  | .error e => .error e
  | .ok (swarm, out) => .ok ({ s with swarm }, io ++ out.map OutEvent.ofSwarm)

/-- `self.gossip.handle(event, now, io)`: Plumtree pushes its events into the outbox. -/
def gossipHandle (s : State PI RG) (event : Plumtree.InEvent PI) (now : Nat) (io : Outbox PI) :
    Except Panic (State PI RG × Outbox PI) :=
  match s.gossip.handle fromContent event now [] with
  | .error e => .error e
  | .ok (gossip, out) => .ok ({ s with gossip }, io ++ out.map OutEvent.ofGossip)

/-- `Command::Join`: a `RequestJoin` for every peer. -/
def joinAll (s : State PI RG) : List PI → Outbox PI → Except Panic (State PI RG × Outbox PI)
  | [], io => .ok (s, io)
  | peer :: peers, io =>
    match s.swarmHandle R (.requestJoin peer) io with
    | .error e => .error e
    | .ok (s, io) => s.joinAll peers io

/-- The first part of `handle`: run the event through its layer, into the outbox. -/
def process (s : State PI RG) (event : InEvent PI) (now : Nat) :
    Except Panic (State PI RG × Outbox PI) :=
  match event with
  | .command (.join peers) => s.joinAll R peers []
  | .command (.broadcast data scope) => s.gossipHandle fromContent (.broadcast data scope) now []
  | .command .quit => s.swarmHandle R .quit []
  | .recvMessage sender (.swarm message) => s.swarmHandle R (.recvMessage sender message) []
  | .recvMessage sender (.gossip message) =>
    s.gossipHandle fromContent (.recvMessage sender message) now []
  | .timerExpired (.swarm timer) => s.swarmHandle R (.timerExpired timer) []
  | .timerExpired (.gossip timer) => s.gossipHandle fromContent (.timerExpired timer) now []
  | .peerDisconnected peer =>
    -- the peer is gone from HyParView, and from Plumtree even if it was no neighbor
    match s.swarmHandle R (.peerDisconnected peer) [] with
    | .error e => .error e
    | .ok (s, io) => s.gossipHandle fromContent (.neighborDown peer) now io
  | .updatePeerData data => s.swarmHandle R (.updatePeerData data) []

/-- The forwarding loop of `handle`: Plumtree handles the neighbor events of the outbox. -/
def forwardNeighborEvents (gossip : Plumtree.State PI) (now : Nat) :
    Outbox PI → Plumtree.Outbox PI → Except Panic (Plumtree.State PI × Plumtree.Outbox PI)
  | [], io => .ok (gossip, io)
  | event :: outbox, io =>
    match event.neighborInput with
    | some input =>
      match gossip.handle fromContent input now io with
      | .error e => .error e
      | .ok (gossip, io) => forwardNeighborEvents gossip now outbox io
    | none => forwardNeighborEvents gossip now outbox io

/-- `handle`: process the event, forward the neighbor events to Plumtree, and return
the outbox. -/
def handle (s : State PI RG) (event : InEvent PI) (now : Nat) :
    Except Panic (State PI RG × Outbox PI) :=
  match s.process R fromContent event now with
  | .error e => .error e
  | .ok (s, outbox) =>
    match forwardNeighborEvents fromContent s.gossip now outbox [] with
    | .error e => .error e
    | .ok (gossip, io) => .ok ({ s with gossip }, outbox ++ io.map OutEvent.ofGossip)

end State

end Iroh.Gossip.Topic
