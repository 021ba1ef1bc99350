import Iroh.Net.RelayCodec

/-! The relay server (`relay/server/actor.rs`, `clients.rs`, `client_conn.rs`).

A client connects and, once its key is known, `ClientConnHandler::accept` hands the
server actor a `ClientConnBuilder` with a fresh connection number. The actor owns the
map of registered clients (`Clients`): `register` builds the connection, whose io loop
(`ClientConnIo`) then runs by itself, and replaces any client of the same key. The io
loop hands the actor every packet its client sends, stamped with its own key, and writes
to its client what the actor queues for it on three bounded channels: packets, disco
packets and `PeerGone` notes. When the loop ends, its channels lose their receiver and
it asks the actor to remove it (`RemoveClient`, with its number). The actor forwards a
packet to the registered client of its destination, notes whom the sender sent to, and
on removing a client tells those peers it is gone; a channel found closed removes its
client as well, which may in turn tell its peers (`unregister`).

The server is one state (`State`): the actor's map, the connections by number with their
channels (which the clients' senders reach), the server channel, and a record of the
packets handed to the server (`handed`), which no step reads. Each scheduler event
(`Event`) is one step: a connection accepted, the actor taking one message, a
connection's io loop reading a frame, writing one queued item or a keep-alive, or
ending, and the server asked to shut down. An event that cannot happen leaves the state
as it is, so every interleaving is a list of events (`run`).

The recursion of `unregister` through `process_result` has fuel, the number of clients,
which it never runs out of (`unregisterGo_eq_of_le`). Statistics, metrics, the
`ClientCounter` (which only feeds them), write timeouts and the `preferred` flag are not
modelled; the server channel is unbounded, since its senders wait rather than drop. The
order in which `unregister` walks `sent_to`, a `HashSet`, is the order of first sends
here. -/

namespace Iroh.Net.Relay.Server

/-- `RETRIES`. -/
def RETRIES : Nat := 3

/-- `PER_CLIENT_SEND_QUEUE_DEPTH`. -/
def PER_CLIENT_SEND_QUEUE_DEPTH : Nat := 512

/-- `PROTOCOL_VERSION`. -/
def PROTOCOL_VERSION : Nat := 3

/-- `disco::MAGIC`, `"TS💬"`. -/
def MAGIC : List UInt8 := [0x54, 0x53, 0xf0, 0x9f, 0x92, 0xac]

/-- `disco::MESSAGE_HEADER_LEN`: the magic and a key. -/
def MESSAGE_HEADER_LEN : Nat := MAGIC.length + publicKeyLength

/-- `disco::looks_like_disco_wrapper`. -/
def looksLikeDiscoWrapper (p : List UInt8) : Bool :=
  if p.length < MESSAGE_HEADER_LEN then false else p.take MAGIC.length == MAGIC

/-- `Packet`. -/
structure Packet (K : Type) where
  src : K
  bytes : List UInt8
deriving DecidableEq

/-- The sending side of a bounded `mpsc` channel and what is queued in it, which the
receiver takes from the front. A closed channel has lost its receiver, and what was
queued went with it. -/
structure Channel (α : Type) where
  queue : List α
  capacity : Nat
  closed : Bool

/-- `mpsc::error::TrySendError`. -/
inductive TrySendError where
  | full
  | closed

/-- `SendError`. -/
inductive SendError where
  | packetDropped
  | senderClosed

namespace Channel

variable {α : Type}

/-- `mpsc::channel(capacity)`. -/
def new (capacity : Nat) : Channel α := ⟨[], capacity, false⟩

/-- `Sender::try_send`. -/
def trySend (ch : Channel α) (msg : α) : Except TrySendError (Channel α) :=
  if ch.closed then .error .closed
  else if ch.queue.length < ch.capacity then .ok { ch with queue := ch.queue ++ [msg] }
  else .error .full

/-- The receiver is dropped. -/
def close (ch : Channel α) : Channel α := ⟨[], ch.capacity, true⟩

end Channel

/-- `try_send` of `clients.rs`: try again while the channel is full, `RETRIES` times. -/
def trySend {α : Type} (ch : Channel α) (msg : α) : Except SendError (Channel α) :=
  go RETRIES
where
  go : Nat → Except SendError (Channel α)
    | 0 => .error .packetDropped
    | n + 1 =>
      match ch.trySend msg with
      | .ok ch => .ok ch
      | .error .full => go n
      | .error .closed => .error .senderClosed

/-- `ClientChannels`: the packets, the disco packets and the `PeerGone` notes queued for
a client. -/
structure ClientChannels (K : Type) where
  sendQueue : Channel (Packet K)
  discoSendQueue : Channel (Packet K)
  peerGone : Channel K

/-- The three channels of `ClientConnManager::new`, each of `channel_capacity`. -/
def ClientChannels.new {K : Type} (capacity : Nat) : ClientChannels K :=
  ⟨.new capacity, .new capacity, .new capacity⟩

/-- All three channels lose their receiver. -/
def ClientChannels.close {K : Type} (c : ClientChannels K) : ClientChannels K :=
  ⟨c.sendQueue.close, c.discoSendQueue.close, c.peerGone.close⟩

/-- One of a client's channels: how to read it out of the three and put it back. -/
structure ChannelOf (K α : Type) where
  get : ClientChannels K → Channel α
  set : ClientChannels K → Channel α → ClientChannels K

/-- `send_queue`. -/
def sendQueueOf (K : Type) : ChannelOf K (Packet K) := ⟨(·.sendQueue), fun c q => { c with sendQueue := q }⟩

/-- `disco_send_queue`. -/
def discoSendQueueOf (K : Type) : ChannelOf K (Packet K) :=
  ⟨(·.discoSendQueue), fun c q => { c with discoSendQueue := q }⟩

/-- `peer_gone`. -/
def peerGoneOf (K : Type) : ChannelOf K K := ⟨(·.peerGone), fun c q => { c with peerGone := q }⟩

/-- A connection's io loop (`ClientConnIo`): its client's key, the receiving ends of its
channels, whether it still runs, and the frames it wrote to its client, oldest first. -/
structure Conn (K : Type) where
  key : K
  channels : ClientChannels K
  live : Bool
  written : List (Frame K)

/-- `Client`: its connection, by number, and the peers it sent packets to. -/
structure Client (K : Type) where
  connNum : Nat
  sentTo : List K

/-- `ClientConnBuilder`: what the actor needs to build a connection. -/
structure ClientConnBuilder (K : Type) where
  key : K
  connNum : Nat
  channelCapacity : Nat

/-- `ServerMessage`. -/
inductive ServerMessage (K : Type) where
  | sendPacket (key : K) (packet : Packet K)
  | sendDiscoPacket (key : K) (packet : Packet K)
  | createClient (builder : ClientConnBuilder K)
  | removeClient (key : K) (connNum : Nat)
  | shutdown

variable {K : Type} [DecidableEq K]

/-- `Clients`: the map of registered clients (`inner`), and the connections their senders
reach, by number. -/
structure Clients (K : Type) [DecidableEq K] where
  inner : AList fun _ : K => Client K
  conns : Nat → Option (Conn K)

namespace Clients

/-- `Client::send_packet`, `send_disco_packet` and `send_peer_gone`: `try_send` on one of
the client's channels. A connection that is not there has no receiver. -/
def sendOn {α : Type} (cs : Clients K) (client : Client K) (ch : ChannelOf K α) (msg : α) :
    Except SendError (Clients K) :=
  match cs.conns client.connNum with
  | none => .error .senderClosed
  | some conn =>
    (trySend (ch.get conn.channels) msg).map fun q =>
      { cs with conns :=
          Function.update cs.conns client.connNum (some { conn with channels := ch.set conn.channels q }) }

/-- `Clients::process_result`, with the `unregister` it calls on a closed channel; the flag
is whether the send went through. -/
def processResult (unregister : Clients K → K → Clients K) (cs : Clients K) (key : K) :
    Except SendError (Clients K) → Clients K × Bool
  | .ok cs => (cs, true)
  | .error .packetDropped => (cs, false)
  | .error .senderClosed => (unregister cs key, false)

/-- `Clients::send_peer_gone`, with the `unregister` it calls. -/
def sendPeerGoneWith (unregister : Clients K → K → Clients K) (cs : Clients K) (key peer : K) :
    Clients K :=
  match cs.inner.lookup key with
  | none => cs
  | some client => (processResult unregister cs key (cs.sendOn client (peerGoneOf K) peer)).1

/-- `Clients::unregister` with `fuel` rounds of recursion left: remove the client, then
tell each peer it sent to that it is gone. -/
def unregisterGo : Nat → Clients K → K → Clients K
  | 0, cs, _ => cs
  | fuel + 1, cs, peer =>
    match cs.inner.lookup peer with
    | none => cs
    | some client =>
      client.sentTo.foldl (fun cs key => sendPeerGoneWith (unregisterGo fuel) cs key peer)
        { cs with inner := cs.inner.erase peer }

/-- `Clients::unregister`, with as many rounds as there are clients. -/
def unregister (cs : Clients K) (peer : K) : Clients K :=
  unregisterGo cs.inner.keys.length cs peer

/-- `Clients::send_peer_gone`. -/
def sendPeerGone (cs : Clients K) (key peer : K) : Clients K :=
  sendPeerGoneWith unregister cs key peer

/-- `Clients::send_packet` and `send_disco_packet`: send on one channel of the client of
`key`, if there is one. -/
def sendWith (ch : ChannelOf K (Packet K)) (cs : Clients K) (key : K) (packet : Packet K) :
    Clients K × Bool :=
  match cs.inner.lookup key with
  | none => (cs, false)
  | some client => processResult unregister cs key (cs.sendOn client ch packet)

/-- `Clients::send_packet`. -/
def sendPacket (cs : Clients K) (key : K) (packet : Packet K) : Clients K × Bool :=
  sendWith (sendQueueOf K) cs key packet

/-- `Clients::send_disco_packet`. -/
def sendDiscoPacket (cs : Clients K) (key : K) (packet : Packet K) : Clients K × Bool :=
  sendWith (discoSendQueueOf K) cs key packet

/-- `Clients::record_send`: `src` sent to `dst`. -/
def recordSend (cs : Clients K) (src dst : K) : Clients K :=
  match cs.inner.lookup src with
  | none => cs
  | some client =>
    let sentTo := if dst ∈ client.sentTo then client.sentTo else client.sentTo ++ [dst]
    { cs with inner := cs.inner.insert src { client with sentTo } }

/-- `Clients::has_client`. -/
def hasClient (cs : Clients K) (key : K) (connNum : Nat) : Bool :=
  match cs.inner.lookup key with
  | none => false
  | some client => client.connNum == connNum

/-- `Clients::register`: build the connection, whose io loop starts with fresh channels,
and replace any client of the key. The old client's `shutdown` cancels its loop, which
then ends by itself (`Event.ended`). -/
def register (cs : Clients K) (builder : ClientConnBuilder K) : Clients K :=
  { inner := cs.inner.insert builder.key ⟨builder.connNum, []⟩
    conns := Function.update cs.conns builder.connNum
      (some ⟨builder.key, .new builder.channelCapacity, true, []⟩) }

/-- `Clients::shutdown`: every client is drained from the map and its connection shut
down, awaiting the end of its io loop. -/
def shutdown (cs : Clients K) : Clients K :=
  { inner := ∅
    conns := fun n => (cs.conns n).map fun conn =>
      if cs.inner.entries.any (·.2.connNum == n) then
        { conn with live := false, channels := conn.channels.close }
      else conn }

end Clients

/-- A packet a connection handed to the server: its client's key, the destination and
the content. -/
structure Handed (K : Type) where
  src : K
  dst : K
  content : List UInt8
deriving DecidableEq

/-- The relay server: the actor's clients and the connections, the server channel, whether
the actor still runs, the next connection number (`CONN_NUM`), and the packets handed to
the server so far. -/
structure State (K : Type) [DecidableEq K] where
  clients : Clients K
  channel : List (ServerMessage K)
  running : Bool
  connCounter : Nat
  handed : List (Handed K)

/-- Which of a connection's channels its io loop takes from. -/
inductive Queue where
  | peerGone
  | send
  | disco

/-- A scheduler event. -/
inductive Event (K : Type) where
  /-- `ClientConnHandler::accept`: a client with this key and protocol version. -/
  | accept (key : K) (version : Nat)
  /-- The actor takes the next message of the server channel. -/
  | actor
  /-- A connection's io loop reads a frame from its client. -/
  | read (connNum : Nat) (frame : Frame K)
  /-- A connection's io loop writes the next item of one of its channels. -/
  | write (connNum : Nat) (queue : Queue)
  /-- A connection's io loop writes a keep-alive. -/
  | keepAlive (connNum : Nat)
  /-- A connection's io loop ends, by error or cancellation. -/
  | ended (connNum : Nat)
  /-- `ServerActorTask::close`. -/
  | close

namespace ServerActor

/-- The loop of `ServerActor::run` on one message: the clients after it, and whether the
loop goes on. -/
def handle (cs : Clients K) : ServerMessage K → Clients K × Bool
  | .sendPacket key packet =>
    if (cs.inner.lookup key).isSome then
      let (cs, ok) := cs.sendPacket key packet
      (if ok then cs.recordSend packet.src key else cs, true)
    else (cs, true)
  | .sendDiscoPacket key packet =>
    if (cs.inner.lookup key).isSome then
      let (cs, ok) := cs.sendDiscoPacket key packet
      (if ok then cs.recordSend packet.src key else cs, true)
    else (cs, true)
  | .createClient builder => (cs.register builder, true)
  | .removeClient key connNum => (if cs.hasClient key connNum then cs.unregister key else cs, true)
  | .shutdown => (cs.shutdown, false)

end ServerActor

namespace State

/-- A server that has not accepted a connection yet. -/
def new : State K := ⟨⟨∅, fun _ => none⟩, [], true, 1, []⟩

/-- Change the connection of a number, if there is one. -/
def modifyConn (r : State K) (connNum : Nat) (f : Conn K → Conn K) : State K :=
  { r with clients := { r.clients with
      conns := Function.update r.clients.conns connNum ((r.clients.conns connNum).map f) } }

/-- The io loop of a connection ends: its channels close, and it asks the actor to
remove it, if the actor still listens. -/
def endConn (r : State K) (connNum : Nat) (conn : Conn K) : State K :=
  let r := r.modifyConn connNum fun c => { c with live := false, channels := c.channels.close }
  if r.running then { r with channel := r.channel ++ [.removeClient conn.key connNum] } else r

/-- `ClientConnIo::handle_read`: a packet goes to the server stamped with the client's
key, on the disco route if it looks like one (`transfer_packet`); a ping is answered. If
the server is gone, handing it a packet ends the loop. -/
def readFrame (r : State K) (connNum : Nat) (conn : Conn K) : Frame K → State K
  | .sendPacket dst packet =>
    if r.running then
      let msg : ServerMessage K :=
        if looksLikeDiscoWrapper packet then .sendDiscoPacket dst ⟨conn.key, packet⟩
        else .sendPacket dst ⟨conn.key, packet⟩
      { r with channel := r.channel ++ [msg], handed := r.handed ++ [⟨conn.key, dst, packet⟩] }
    else r.endConn connNum conn
  | .ping data => r.modifyConn connNum fun c => { c with written := c.written ++ [.pong data] }
  | _ => r

/-- The io loop takes the next item of one of its channels and writes it as a frame. -/
def writeNext (r : State K) (connNum : Nat) (conn : Conn K) : Queue → State K
  | .peerGone =>
    match conn.channels.peerGone.queue with
    | [] => r
    | peer :: rest => r.modifyConn connNum fun c =>
      { c with channels := { c.channels with peerGone := { c.channels.peerGone with queue := rest } },
               written := c.written ++ [.peerGone peer] }
  | .send =>
    match conn.channels.sendQueue.queue with
    | [] => r
    | packet :: rest => r.modifyConn connNum fun c =>
      { c with channels := { c.channels with sendQueue := { c.channels.sendQueue with queue := rest } },
               written := c.written ++ [.recvPacket packet.src packet.bytes] }
  | .disco =>
    match conn.channels.discoSendQueue.queue with
    | [] => r
    | packet :: rest => r.modifyConn connNum fun c =>
      { c with channels := { c.channels with discoSendQueue := { c.channels.discoSendQueue with queue := rest } },
               written := c.written ++ [.recvPacket packet.src packet.bytes] }

/-- One scheduler event. -/
def step (r : State K) : Event K → State K
  | .accept key version =>
    if version ≠ PROTOCOL_VERSION then r
    else
      let builder : ClientConnBuilder K := ⟨key, r.connCounter, PER_CLIENT_SEND_QUEUE_DEPTH⟩
      let r := { r with connCounter := r.connCounter + 1 }
      if r.running then { r with channel := r.channel ++ [.createClient builder] } else r
  | .actor =>
    if r.running then
      match r.channel with
      | [] => r
      | msg :: rest =>
        let (clients, running) := ServerActor.handle r.clients msg
        -- once the loop returns, its receiver is gone, with what was queued
        { r with clients, running, channel := if running then rest else [] }
    else r
  | .read connNum frame =>
    match r.clients.conns connNum with
    | some conn => if conn.live then r.readFrame connNum conn frame else r
    | none => r
  | .write connNum queue =>
    match r.clients.conns connNum with
    | some conn => if conn.live then r.writeNext connNum conn queue else r
    | none => r
  | .keepAlive connNum =>
    match r.clients.conns connNum with
    | some conn =>
      if conn.live then r.modifyConn connNum fun c => { c with written := c.written ++ [.keepAlive] }
      else r
    | none => r
  | .ended connNum =>
    match r.clients.conns connNum with
    | some conn => if conn.live then r.endConn connNum conn else r
    | none => r
  | .close => if r.running then { r with channel := r.channel ++ [.shutdown] } else r

/-- The server after a sequence of events. -/
def run (r : State K) (events : List (Event K)) : State K := events.foldl step r

end State

end Iroh.Net.Relay.Server
