import Iroh.Net.RelayServer.Unregister

/-! Runs of the relay server: what holds in every state it reaches, over any interleaving of
its actor, its connections' io loops and the accepting of clients.

`Moves` says once what a scheduler event can do (`step_moves`); every invariant is proved
for the new server, kept by each move, and carried along `run`. `Wf` is the bookkeeping
the others stand on: connection numbers are fresh when a client is built, a registered
client's connection carries its key, a connection's channels are closed exactly when its
loop has ended, and a `RemoveClient` in the server channel names a connection that ended.

On it rest three properties of the relay:
* packets are never invented, duplicated or reordered: per sender and per route (plain or
  disco), what a connection writes to its client is a subsequence of what that sender
  handed the server for the client's key (`Ordered`);
* a registered client whose connection still runs loses its place only to a newer
  connection of its key, or when the server shuts down: a stale `RemoveClient` or a
  failed send never removes it;
* a client is told that a peer is gone only if that peer had sent it a packet
  (`Discreet`). -/

namespace Iroh.Net.Relay

/-- A frame's packet, as its sender and content, if it carries one to the client. -/
def Frame.recvd {K : Type} : Frame K → Option (K × List UInt8)
  | .recvPacket src content => some (src, content)
  | _ => none

/-- The peer a `PeerGone` frame names. -/
def Frame.gone {K : Type} : Frame K → Option K
  | .peerGone peer => some peer
  | _ => none

end Iroh.Net.Relay

namespace Iroh.Net.Relay.Server

open Relation Clients

variable {K : Type}

/-- A packet as its sender and content. -/
def Packet.view (p : Packet K) : K × List UInt8 := (p.src, p.bytes)

/-- What a connection hands the server for a packet its client sent (`transfer_packet`). -/
def toServer (src dst : K) (packet : List UInt8) : ServerMessage K :=
  if looksLikeDiscoWrapper packet then .sendDiscoPacket dst ⟨src, packet⟩
  else .sendPacket dst ⟨src, packet⟩

namespace Conn

/-- The packets the connection wrote to its client, oldest first. -/
def received (conn : Conn K) : List (K × List UInt8) := conn.written.filterMap Frame.recvd

/-- What the connection wrote to its client and what waits in its two packet channels. -/
def pipeline (conn : Conn K) : List (K × List UInt8) :=
  conn.received ++ conn.channels.sendQueue.queue.map Packet.view ++
    conn.channels.discoSendQueue.queue.map Packet.view

/-- The peers the connection told its client, or will tell it, are gone. -/
def notes (conn : Conn K) : List K :=
  conn.written.filterMap Frame.gone ++ conn.channels.peerGone.queue

/-- The io loop ends: its channels lose their receiver. -/
def stop (conn : Conn K) : Conn K := { conn with live := false, channels := conn.channels.close }

/-- What of a connection only its own loop's end changes: its key, whether it runs, and
whether each of its channels is closed. -/
def shape (conn : Conn K) : K × Bool × Bool × Bool × Bool :=
  (conn.key, conn.live, conn.channels.sendQueue.closed, conn.channels.discoSendQueue.closed,
    conn.channels.peerGone.closed)

/-- A connection's channels are closed exactly when its loop has ended. -/
def ClosedAsLive (conn : Conn K) : Prop :=
  conn.channels.sendQueue.closed = !conn.live ∧ conn.channels.discoSendQueue.closed = !conn.live ∧
    conn.channels.peerGone.closed = !conn.live

/-- The io loop writes the next item of one of its channels, or a frame of its own. -/
inductive Writes : Conn K → Conn K → Prop
  | frame (conn : Conn K) (w : Frame K) : w.recvd = none → w.gone = none →
      Writes conn { conn with written := conn.written ++ [w] }
  | peerGone (conn : Conn K) (peer : K) (rest : List K) :
      conn.channels.peerGone.queue = peer :: rest →
      Writes conn { conn with
        channels := { conn.channels with peerGone := { conn.channels.peerGone with queue := rest } }
        written := conn.written ++ [.peerGone peer] }
  | send (conn : Conn K) (packet : Packet K) (rest : List (Packet K)) :
      conn.channels.sendQueue.queue = packet :: rest →
      Writes conn { conn with
        channels := { conn.channels with sendQueue := { conn.channels.sendQueue with queue := rest } }
        written := conn.written ++ [.recvPacket packet.src packet.bytes] }
  | disco (conn : Conn K) (packet : Packet K) (rest : List (Packet K)) :
      conn.channels.discoSendQueue.queue = packet :: rest →
      Writes conn { conn with
        channels := { conn.channels with
          discoSendQueue := { conn.channels.discoSendQueue with queue := rest } }
        written := conn.written ++ [.recvPacket packet.src packet.bytes] }

@[simp] theorem stop_key (conn : Conn K) : conn.stop.key = conn.key := rfl

@[simp] theorem stop_live (conn : Conn K) : conn.stop.live = false := rfl

theorem stop_closedAsLive (conn : Conn K) : conn.stop.ClosedAsLive := ⟨rfl, rfl, rfl⟩

theorem closedAsLive_of_shape {conn conn' : Conn K} (h : conn'.shape = conn.shape)
    (hc : conn.ClosedAsLive) : conn'.ClosedAsLive := by
  simp only [shape, Prod.mk.injEq] at h
  obtain ⟨-, hl, hs, hd, hp⟩ := h
  obtain ⟨hs', hd', hp'⟩ := hc
  exact ⟨by rw [hs, hs', hl], by rw [hd, hd', hl], by rw [hp, hp', hl]⟩

theorem push_shape_sendQueueOf (conn : Conn K) (p : Packet K) :
    (conn.push (sendQueueOf K) p).shape = conn.shape := rfl

theorem push_shape_discoSendQueueOf (conn : Conn K) (p : Packet K) :
    (conn.push (discoSendQueueOf K) p).shape = conn.shape := rfl

theorem push_shape_peerGoneOf (conn : Conn K) (gone : K) :
    (conn.push (peerGoneOf K) gone).shape = conn.shape := rfl

/-- A loop writing to its client leaves what the server sees of the connection. -/
theorem Writes.shape_eq {conn conn' : Conn K} (h : conn.Writes conn') : conn'.shape = conn.shape := by
  cases h <;> rfl

/-- Replacing a connection by one with the same view leaves the view of every number. -/
theorem map_update_eq {β : Type} (f : Conn K → β) {conns : Nat → Option (Conn K)} {n : Nat}
    {conn conn' : Conn K} (h : conns n = some conn) (hf : f conn' = f conn) (m : Nat) :
    (Function.update conns n (some conn') m).map f = (conns m).map f := by
  by_cases hm : m = n
  · subst hm
    simp [h, hf]
  · simp [Function.update_of_ne hm]

end Conn

/-- The connection number a `CreateClient` carries. -/
def ServerMessage.created : ServerMessage K → Option Nat
  | .createClient builder => some builder.connNum
  | _ => none

/-- The packet a message carries, as handed to the server. -/
def ServerMessage.handed : ServerMessage K → Option (Handed K)
  | .sendPacket key packet => some ⟨packet.src, key, packet.bytes⟩
  | .sendDiscoPacket key packet => some ⟨packet.src, key, packet.bytes⟩
  | _ => none

/-- The packets waiting in the server channel. -/
def pending (channel : List (ServerMessage K)) : List (Handed K) :=
  channel.filterMap ServerMessage.handed

@[simp] theorem pending_nil : pending ([] : List (ServerMessage K)) = [] := rfl

@[simp] theorem pending_append (c c' : List (ServerMessage K)) :
    pending (c ++ c') = pending c ++ pending c' := List.filterMap_append

@[simp] theorem pending_cons (msg : ServerMessage K) (c : List (ServerMessage K)) :
    pending (msg :: c) = (msg.handed.toList ++ pending c) := by
  cases h : msg.handed <;> simp [pending, h]

theorem toServer_handed (src dst : K) (packet : List UInt8) :
    (toServer src dst packet).handed = some ⟨src, dst, packet⟩ := by
  unfold toServer
  split <;> rfl

theorem toServer_created (src dst : K) (packet : List UInt8) :
    (toServer src dst packet).created = none := by
  unfold toServer
  split <;> rfl

variable [DecidableEq K]

namespace State

/-- The server with one connection replaced. -/
def setConn (r : State K) (n : Nat) (conn : Conn K) : State K :=
  { r with clients := { r.clients with conns := Function.update r.clients.conns n (some conn) } }

theorem modifyConn_of_eq {r : State K} {n : Nat} {conn : Conn K} (h : r.clients.conns n = some conn)
    (f : Conn K → Conn K) : r.modifyConn n f = r.setConn n (f conn) := by
  simp only [modifyConn, setConn, h, Option.map_some]

/-- What a scheduler event that changes the server does. -/
inductive Moves (r : State K) : State K → Prop
  /-- A client is accepted and gets the next number. -/
  | accept (key : K) : Moves r
      (if r.running then
        { r with
          connCounter := r.connCounter + 1
          channel := r.channel ++ [.createClient ⟨key, r.connCounter, PER_CLIENT_SEND_QUEUE_DEPTH⟩] }
      else { r with connCounter := r.connCounter + 1 })
  /-- The actor handles the next message. -/
  | actor (msg : ServerMessage K) (rest : List (ServerMessage K)) (clients : Clients K) (running : Bool) :
      r.running = true → r.channel = msg :: rest → ServerActor.handle r.clients msg = (clients, running) →
      Moves r { r with clients, running, channel := if running then rest else [] }
  /-- A connection hands the server a packet of its client. -/
  | handOver (n : Nat) (conn : Conn K) (dst : K) (packet : List UInt8) :
      r.clients.conns n = some conn → conn.live = true → r.running = true →
      Moves r { r with
        channel := r.channel ++ [toServer conn.key dst packet]
        handed := r.handed ++ [⟨conn.key, dst, packet⟩] }
  /-- A connection writes to its client. -/
  | write (n : Nat) (conn conn' : Conn K) :
      r.clients.conns n = some conn → conn.live = true → conn.Writes conn' → Moves r (r.setConn n conn')
  /-- A connection's loop ends and asks the actor to remove it. -/
  | ended (n : Nat) (conn : Conn K) :
      r.clients.conns n = some conn → conn.live = true →
      Moves r (if r.running then
        { r.setConn n conn.stop with channel := r.channel ++ [.removeClient conn.key n] }
      else r.setConn n conn.stop)
  /-- The server is asked to shut down. -/
  | close : r.running = true → Moves r { r with channel := r.channel ++ [.shutdown] }

theorem endConn_moves {r : State K} {n : Nat} {conn : Conn K} (h : r.clients.conns n = some conn)
    (hl : conn.live = true) : Moves r (r.endConn n conn) := by
  unfold endConn
  rw [modifyConn_of_eq h]
  exact .ended n conn h hl

theorem modifyConn_moves {r : State K} {n : Nat} {conn : Conn K}
    (h : r.clients.conns n = some conn) (hl : conn.live = true) {f : Conn K → Conn K}
    (hw : conn.Writes (f conn)) : Moves r (r.modifyConn n f) := by
  rw [modifyConn_of_eq h]
  exact .write n conn _ h hl hw

theorem writeNext_moves {r : State K} {n : Nat} {conn : Conn K} (h : r.clients.conns n = some conn)
    (hl : conn.live = true) (q : Queue) : r.writeNext n conn q = r ∨ Moves r (r.writeNext n conn q) := by
  cases q with
  | peerGone =>
    rcases hq : conn.channels.peerGone.queue with _ | ⟨peer, rest⟩
    · left
      simp only [writeNext, hq]
    · right
      simp only [writeNext, hq]
      exact modifyConn_moves h hl (.peerGone conn peer rest hq)
  | send =>
    rcases hq : conn.channels.sendQueue.queue with _ | ⟨packet, rest⟩
    · left
      simp only [writeNext, hq]
    · right
      simp only [writeNext, hq]
      exact modifyConn_moves h hl (.send conn packet rest hq)
  | disco =>
    rcases hq : conn.channels.discoSendQueue.queue with _ | ⟨packet, rest⟩
    · left
      simp only [writeNext, hq]
    · right
      simp only [writeNext, hq]
      exact modifyConn_moves h hl (.disco conn packet rest hq)

theorem readFrame_moves {r : State K} {n : Nat} {conn : Conn K} (h : r.clients.conns n = some conn)
    (hl : conn.live = true) (frame : Frame K) :
    r.readFrame n conn frame = r ∨ Moves r (r.readFrame n conn frame) := by
  unfold readFrame
  split
  · rename_i dst packet
    split
    · rename_i hr
      exact .inr (.handOver n conn dst packet h hl hr)
    · exact .inr (endConn_moves h hl)
  · rename_i data
    exact .inr (modifyConn_moves h hl (.frame conn (.pong data) rfl rfl))
  · exact .inl rfl

/-- Every scheduler event leaves the server as it is or is one of its `Moves`. -/
theorem step_moves (r : State K) (e : Event K) : r.step e = r ∨ Moves r (r.step e) := by
  cases e with
  | accept key version =>
    by_cases hv : version = PROTOCOL_VERSION
    · subst hv
      exact .inr (.accept key)
    · simp [step, hv]
  | actor =>
    by_cases hr : r.running = true
    · rcases hc : r.channel with _ | ⟨msg, rest⟩
      · left
        simp [step, hr, hc]
      · rcases hh : ServerActor.handle r.clients msg with ⟨clients, running⟩
        right
        simp only [step, hr, hc, hh, if_true]
        exact .actor msg rest clients running hr hc hh
    · left
      simp [step, hr]
  | read n frame =>
    rcases h : r.clients.conns n with _ | conn
    · left
      simp [step, h]
    · by_cases hl : conn.live = true
      · simp only [step, h, hl, if_true]
        exact readFrame_moves h hl frame
      · left
        simp [step, h, hl]
  | write n q =>
    rcases h : r.clients.conns n with _ | conn
    · left
      simp [step, h]
    · by_cases hl : conn.live = true
      · simp only [step, h, hl, if_true]
        exact writeNext_moves h hl q
      · left
        simp [step, h, hl]
  | keepAlive n =>
    rcases h : r.clients.conns n with _ | conn
    · left
      simp [step, h]
    · by_cases hl : conn.live = true
      · simp only [step, h, hl, if_true]
        exact .inr (modifyConn_moves h hl (.frame conn .keepAlive rfl rfl))
      · left
        simp [step, h, hl]
  | ended n =>
    rcases h : r.clients.conns n with _ | conn
    · left
      simp [step, h]
    · by_cases hl : conn.live = true
      · simp only [step, h, hl, if_true]
        exact .inr (endConn_moves h hl)
      · left
        simp [step, h, hl]
  | close =>
    by_cases hr : r.running = true
    · simp only [step]
      rw [if_pos hr]
      exact .inr (.close hr)
    · left
      simp [step, hr]

/-- A property of servers that holds of the new one and that every move keeps holds after
any sequence of events. -/
theorem run_induction (P : State K → Prop) (h₀ : P new) (hmove : ∀ r r', P r → Moves r r' → P r')
    (events : List (Event K)) : P (new.run events) := by
  unfold run
  induction events using List.reverseRecOn with
  | nil => exact h₀
  | append_singleton events e ih =>
    rw [List.foldl_append, List.foldl_cons, List.foldl_nil]
    rcases step_moves (events.foldl step new) e with h | h
    · rw [h]
      exact ih
    · exact hmove _ _ ih h

end State

namespace Clients

/-- The registry after an actor step that registers nobody: no client was added or moved to
another connection, and every connection keeps its shape. -/
def Keeps (cs cs' : Clients K) : Prop :=
  (∀ k c', cs'.inner.lookup k = some c' → ∃ c, cs.inner.lookup k = some c ∧ c.connNum = c'.connNum) ∧
    ∀ n, (cs'.conns n).map Conn.shape = (cs.conns n).map Conn.shape

theorem Keeps.refl (cs : Clients K) : Keeps cs cs := ⟨fun _ c h => ⟨c, h, rfl⟩, fun _ => rfl⟩

theorem Keeps.trans {cs₁ cs₂ cs₃ : Clients K} (h₁₂ : Keeps cs₁ cs₂) (h₂₃ : Keeps cs₂ cs₃) :
    Keeps cs₁ cs₃ := by
  refine ⟨fun k c₃ h => ?_, fun n => (h₂₃.2 n).trans (h₁₂.2 n)⟩
  obtain ⟨c₂, h₂, e₂⟩ := h₂₃.1 k c₃ h
  obtain ⟨c₁, h₁, e₁⟩ := h₁₂.1 k c₂ h₂
  exact ⟨c₁, h₁, e₁.trans e₂⟩

theorem Keeps.conns_none {cs cs' : Clients K} (h : Keeps cs cs') {n : Nat} (hn : cs.conns n = none) :
    cs'.conns n = none := by
  have hmap := h.2 n
  rwa [hn, Option.map_none, Option.map_eq_none_iff] at hmap

theorem Keeps.conns_some {cs cs' : Clients K} (h : Keeps cs cs') {n : Nat} {conn' : Conn K}
    (hn : cs'.conns n = some conn') : ∃ conn, cs.conns n = some conn ∧ conn'.shape = conn.shape := by
  have hmap := h.2 n
  rw [hn, Option.map_some] at hmap
  obtain ⟨conn, hc, hs⟩ := Option.map_eq_some_iff.mp hmap.symm
  exact ⟨conn, hc, hs.symm⟩

theorem Keeps.conns_some' {cs cs' : Clients K} (h : Keeps cs cs') {n : Nat} {conn : Conn K}
    (hn : cs.conns n = some conn) : ∃ conn', cs'.conns n = some conn' ∧ conn'.shape = conn.shape := by
  have hmap := h.2 n
  rw [hn, Option.map_some] at hmap
  obtain ⟨conn', hc, hs⟩ := Option.map_eq_some_iff.mp hmap
  exact ⟨conn', hc, hs⟩

theorem keeps_update {cs : Clients K} {n : Nat} {conn conn' : Conn K} (h : cs.conns n = some conn)
    (hs : conn'.shape = conn.shape) :
    Keeps cs { cs with conns := Function.update cs.conns n (some conn') } :=
  ⟨fun _ c' hc => ⟨c', hc, rfl⟩, Conn.map_update_eq Conn.shape h hs⟩

theorem keeps_erase (cs : Clients K) (key : K) : Keeps cs { cs with inner := cs.inner.erase key } :=
  ⟨fun _ c' hc => ⟨c', AList.lookup_of_lookup_erase hc, rfl⟩, fun _ => rfl⟩

theorem Cascade.keeps {J : K → K → Prop} {peer : K} {cs cs' : Clients K}
    (h : ReflTransGen (UnregStep J peer) cs cs') : Keeps cs cs' :=
  Cascade.induction (fun cs' => Keeps cs cs')
    (fun cs₁ key _ _ _ hk => hk.trans (keeps_erase cs₁ key))
    (fun _ _ gone _ conn _ _ hconn _ hk => hk.trans (keeps_update hconn (conn.push_shape_peerGoneOf gone)))
    h (Keeps.refl cs)

theorem keeps_unregister (cs : Clients K) (peer : K) : Keeps cs (cs.unregister peer) :=
  Cascade.keeps (J := fun _ _ => True)
    (unregisterGo_steps (fun _ _ _ _ _ => trivial) _ cs peer .refl fun _ _ => .inl rfl)

theorem keeps_recordSend (cs : Clients K) (src dst : K) : Keeps cs (cs.recordSend src dst) := by
  unfold recordSend
  split
  · exact .refl cs
  · rename_i client hclient
    refine ⟨fun k c' hc => ?_, fun _ => rfl⟩
    by_cases hk : k = src
    · subst hk
      simp only [AList.lookup_insert, Option.some.injEq] at hc
      exact ⟨client, hclient, by rw [← hc]⟩
    · rw [AList.lookup_insert_ne hk] at hc
      exact ⟨c', hc, rfl⟩

theorem keeps_sendOn {α : Type} {ch : ChannelOf K α}
    (hch : ∀ (conn : Conn K) x, (conn.push ch x).shape = conn.shape) {cs cs' : Clients K}
    {client : Client K} {msg : α} (h : cs.sendOn client ch msg = .ok cs') : Keeps cs cs' := by
  obtain ⟨conn, hconn, -, -, rfl⟩ := sendOn_ok h
  exact keeps_update hconn (hch conn msg)

theorem sendWith_keeps {ch : ChannelOf K (Packet K)}
    (hch : ∀ (conn : Conn K) x, (conn.push ch x).shape = conn.shape) (cs : Clients K) (key : K)
    (packet : Packet K) : Keeps cs (cs.sendWith ch key packet).1 := by
  unfold sendWith
  split
  · exact .refl cs
  · rename_i client _
    rcases hs : cs.sendOn client ch packet with e | cs'
    · cases e with
      | packetDropped => exact .refl cs
      | senderClosed => exact keeps_unregister cs key
    · exact keeps_sendOn hch hs

/-- The actor's handling of a packet for `key` on channel `ch` (`SendPacket`,
`SendDiscoPacket`): sent if `key` has a client, and noted in `sent_to` if it went through. -/
def forward (ch : ChannelOf K (Packet K)) (cs : Clients K) (key : K) (packet : Packet K) :
    Clients K :=
  if (cs.inner.lookup key).isSome then
    let (cs, ok) := cs.sendWith ch key packet
    if ok then cs.recordSend packet.src key else cs
  else cs

theorem forward_keeps {ch : ChannelOf K (Packet K)}
    (hch : ∀ (conn : Conn K) x, (conn.push ch x).shape = conn.shape) (cs : Clients K) (key : K)
    (packet : Packet K) : Keeps cs (forward ch cs key packet) := by
  unfold forward
  split
  · rcases hs : cs.sendWith ch key packet with ⟨cs', ok⟩
    have hk := sendWith_keeps hch cs key packet
    rw [hs] at hk
    cases ok
    · exact hk
    · exact hk.trans (keeps_recordSend cs' packet.src key)
  · exact .refl cs

end Clients

namespace ServerActor

theorem handle_sendPacket (cs : Clients K) (key : K) (packet : Packet K) :
    handle cs (.sendPacket key packet) = (Clients.forward (sendQueueOf K) cs key packet, true) := by
  simp only [handle, Clients.forward, Clients.sendPacket]
  by_cases hc : (cs.inner.lookup key).isSome = true
  · rw [if_pos hc, if_pos hc]
    rfl
  · rw [if_neg hc, if_neg hc]

theorem handle_sendDiscoPacket (cs : Clients K) (key : K) (packet : Packet K) :
    handle cs (.sendDiscoPacket key packet) =
      (Clients.forward (discoSendQueueOf K) cs key packet, true) := by
  simp only [handle, Clients.forward, Clients.sendDiscoPacket]
  by_cases hc : (cs.inner.lookup key).isSome = true
  · rw [if_pos hc, if_pos hc]
    rfl
  · rw [if_neg hc, if_neg hc]

end ServerActor

namespace State

/-- The bookkeeping every reachable server keeps. -/
structure Wf (r : State K) : Prop where
  /-- Numbers from the counter on are not used yet. -/
  fresh : ∀ n, r.connCounter ≤ n → r.clients.conns n = none
  /-- A client waiting to be built has a number below the counter that is not used yet, -/
  creates : ∀ b, .createClient b ∈ r.channel →
    b.connNum < r.connCounter ∧ r.clients.conns b.connNum = none
  /-- and no two of them share one. -/
  createsNodup : (r.channel.filterMap ServerMessage.created).Nodup
  /-- A `RemoveClient` names a connection whose loop has ended. -/
  removes : ∀ k n, .removeClient k n ∈ r.channel →
    ∃ conn, r.clients.conns n = some conn ∧ conn.live = false
  /-- A registered client's connection carries its key. -/
  registered : ∀ k c, r.clients.inner.lookup k = some c →
    ∃ conn, r.clients.conns c.connNum = some conn ∧ conn.key = k
  /-- Channels are closed exactly when their loop has ended. -/
  closed : ∀ n conn, r.clients.conns n = some conn → conn.ClosedAsLive
  /-- The packets in the server channel are the last ones handed to it, in order. -/
  pendingHanded : List.Sublist (pending r.channel) r.handed

namespace Wf

variable {r : State K}

theorem init : Wf (new : State K) where
  fresh _ _ := rfl
  creates _ h := by simp [new] at h
  createsNodup := List.nodup_nil
  removes _ _ h := by simp [new] at h
  registered _ _ h := by simp [new] at h
  closed _ _ h := by simp [new] at h
  pendingHanded := List.nil_sublist _

theorem with_running (hw : Wf r) (running : Bool) : Wf { r with running } :=
  ⟨hw.fresh, hw.creates, hw.createsNodup, hw.removes, hw.registered, hw.closed, hw.pendingHanded⟩

theorem conns_lt (hw : Wf r) {n : Nat} {conn : Conn K} (h : r.clients.conns n = some conn) :
    n < r.connCounter := by
  by_contra hn
  rw [hw.fresh n (Nat.le_of_not_lt hn)] at h
  cases h

/-- Dropping messages from the server channel keeps the bookkeeping. -/
theorem sublist (hw : Wf r) {channel : List (ServerMessage K)} (hs : List.Sublist channel r.channel) :
    Wf { r with channel } where
  fresh := hw.fresh
  creates b hb := hw.creates b (hs.subset hb)
  createsNodup := hw.createsNodup.sublist (hs.filterMap _)
  removes k n hm := hw.removes k n (hs.subset hm)
  registered := hw.registered
  closed := hw.closed
  pendingHanded := (hs.filterMap _).trans hw.pendingHanded

/-- An actor step that registers nobody keeps the bookkeeping. -/
theorem keeps (hw : Wf r) {cs : Clients K} (hk : Keeps r.clients cs) : Wf { r with clients := cs } where
  fresh n hn := hk.conns_none (hw.fresh n hn)
  creates b hb := ⟨(hw.creates b hb).1, hk.conns_none (hw.creates b hb).2⟩
  createsNodup := hw.createsNodup
  removes k n hm := by
    obtain ⟨conn, hc, hl⟩ := hw.removes k n hm
    obtain ⟨conn', hc', hs⟩ := hk.conns_some' hc
    refine ⟨conn', hc', ?_⟩
    simp only [Conn.shape, Prod.mk.injEq] at hs
    rw [hs.2.1, hl]
  registered k c' hc' := by
    obtain ⟨c, hc, hn⟩ := hk.1 k c' hc'
    obtain ⟨conn, hconn, hkey⟩ := hw.registered k c hc
    obtain ⟨conn', hconn', hs⟩ := hk.conns_some' hconn
    refine ⟨conn', hn ▸ hconn', ?_⟩
    simp only [Conn.shape, Prod.mk.injEq] at hs
    rw [hs.1, hkey]
  closed n conn' hc' := by
    obtain ⟨conn, hc, hs⟩ := hk.conns_some hc'
    exact Conn.closedAsLive_of_shape hs (hw.closed n conn hc)
  pendingHanded := hw.pendingHanded

/-- A connection replaced by one of its key, not revived, with its channels closed as its
loop runs. -/
theorem setConn (hw : Wf r) {n : Nat} {conn conn' : Conn K} (h : r.clients.conns n = some conn)
    (hkey : conn'.key = conn.key) (hlive : conn.live = false → conn'.live = false)
    (hc : conn'.ClosedAsLive) : Wf (r.setConn n conn') where
  fresh m hm := by
    have hm' : r.connCounter ≤ m := hm
    have hne : m ≠ n := fun e => by have := hw.conns_lt h; omega
    simp only [State.setConn, Function.update_of_ne hne]
    exact hw.fresh m hm
  creates b hb := by
    obtain ⟨hlt, hnone⟩ := hw.creates b hb
    have hne : b.connNum ≠ n := fun e => by rw [e, h] at hnone; cases hnone
    simp only [State.setConn, Function.update_of_ne hne]
    exact ⟨hlt, hnone⟩
  createsNodup := hw.createsNodup
  removes k m hm := by
    obtain ⟨c, hcm, hl⟩ := hw.removes k m hm
    by_cases hmn : m = n
    · subst hmn
      rw [h, Option.some.injEq] at hcm
      subst hcm
      exact ⟨conn', by simp [State.setConn], hlive hl⟩
    · simp only [State.setConn, Function.update_of_ne hmn]
      exact ⟨c, hcm, hl⟩
  registered k c hk := by
    obtain ⟨c₀, hc₀, hkey₀⟩ := hw.registered k c hk
    by_cases hmn : c.connNum = n
    · rw [hmn, h, Option.some.injEq] at hc₀
      subst hc₀
      exact ⟨conn', by simp [State.setConn, hmn], hkey.trans hkey₀⟩
    · simp only [State.setConn, Function.update_of_ne hmn]
      exact ⟨c₀, hc₀, hkey₀⟩
  closed m c hcm := by
    by_cases hmn : m = n
    · subst hmn
      simp only [State.setConn, Function.update_self, Option.some.injEq] at hcm
      exact hcm ▸ hc
    · simp only [State.setConn, Function.update_of_ne hmn] at hcm
      exact hw.closed m c hcm
  pendingHanded := hw.pendingHanded

/-- A message other than `CreateClient` and `RemoveClient` appended to the server channel,
with its packet handed. -/
theorem push (hw : Wf r) (msg : ServerMessage K) (hcreate : msg.created = none)
    (hremove : ∀ k n, msg ≠ .removeClient k n) {handed : List (Handed K)}
    (hh : List.Sublist (pending r.channel ++ msg.handed.toList) handed) :
    Wf { r with channel := r.channel ++ [msg], handed } where
  fresh := hw.fresh
  creates b hb := by
    rcases List.mem_append.mp hb with hb | hb
    · exact hw.creates b hb
    · rw [List.mem_singleton] at hb
      rw [← hb] at hcreate
      cases hcreate
  createsNodup := by simpa [List.filterMap_append, hcreate] using hw.createsNodup
  removes k n hm := by
    rcases List.mem_append.mp hm with hm | hm
    · exact hw.removes k n hm
    · exact absurd (List.mem_singleton.mp hm).symm (hremove k n)
  registered := hw.registered
  closed := hw.closed
  pendingHanded := by simpa using hh

/-- A connection that ended appended for removal. -/
theorem remove (hw : Wf r) {k : K} {n : Nat} {conn : Conn K} (h : r.clients.conns n = some conn)
    (hl : conn.live = false) : Wf { r with channel := r.channel ++ [.removeClient k n] } where
  fresh := hw.fresh
  creates b hb := by
    rcases List.mem_append.mp hb with hb | hb
    · exact hw.creates b hb
    · simp at hb
  createsNodup := by
    simpa [List.filterMap_append, List.filterMap_cons, ServerMessage.created] using hw.createsNodup
  removes k' n' hm := by
    rcases List.mem_append.mp hm with hm | hm
    · exact hw.removes k' n' hm
    · simp only [List.mem_singleton, ServerMessage.removeClient.injEq] at hm
      obtain ⟨-, rfl⟩ := hm
      exact ⟨conn, h, hl⟩
  registered := hw.registered
  closed := hw.closed
  pendingHanded := by simpa [ServerMessage.handed] using hw.pendingHanded

/-- The actor builds the client at the head of the channel. -/
theorem register (hw : Wf r) (b : ClientConnBuilder K) (hnone : r.clients.conns b.connNum = none)
    (hlt : b.connNum < r.connCounter) (hnot : b.connNum ∉ r.channel.filterMap ServerMessage.created) :
    Wf { r with clients := r.clients.register b } where
  fresh m hm := by
    have hm' : r.connCounter ≤ m := hm
    have hne : m ≠ b.connNum := by omega
    simp only [Clients.register, Function.update_of_ne hne]
    exact hw.fresh m hm
  creates b' hb' := by
    obtain ⟨hlt', hnone'⟩ := hw.creates b' hb'
    have hne : b'.connNum ≠ b.connNum := fun e =>
      hnot (e ▸ List.mem_filterMap.mpr ⟨_, hb', rfl⟩)
    simp only [Clients.register, Function.update_of_ne hne]
    exact ⟨hlt', hnone'⟩
  createsNodup := hw.createsNodup
  removes k n hm := by
    obtain ⟨c, hc, hl⟩ := hw.removes k n hm
    have hne : n ≠ b.connNum := fun e => by rw [e, hnone] at hc; cases hc
    simp only [Clients.register, Function.update_of_ne hne]
    exact ⟨c, hc, hl⟩
  registered k c hk := by
    simp only [Clients.register] at hk ⊢
    by_cases hkb : k = b.key
    · subst hkb
      simp only [AList.lookup_insert, Option.some.injEq] at hk
      subst hk
      exact ⟨_, Function.update_self _ _ _, rfl⟩
    · rw [AList.lookup_insert_ne hkb] at hk
      obtain ⟨conn, hconn, hkey⟩ := hw.registered k c hk
      have hne : c.connNum ≠ b.connNum := fun e => by rw [e, hnone] at hconn; cases hconn
      rw [Function.update_of_ne hne]
      exact ⟨conn, hconn, hkey⟩
  closed m c hcm := by
    simp only [Clients.register] at hcm
    by_cases hmb : m = b.connNum
    · subst hmb
      simp only [Function.update_self, Option.some.injEq] at hcm
      subst hcm
      exact ⟨rfl, rfl, rfl⟩
    · rw [Function.update_of_ne hmb] at hcm
      exact hw.closed m c hcm
  pendingHanded := hw.pendingHanded

/-- The actor shuts the registry down and stops taking messages. -/
theorem shutdown (hw : Wf r) : Wf { r with clients := r.clients.shutdown, channel := [] } where
  fresh n hn := by simp [Clients.shutdown, hw.fresh n hn]
  creates _ h := by simp at h
  createsNodup := List.nodup_nil
  removes _ _ h := by simp at h
  registered _ _ h := by simp [Clients.shutdown] at h
  closed n c hc := by
    simp only [Clients.shutdown, Option.map_eq_some_iff] at hc
    obtain ⟨conn, hconn, rfl⟩ := hc
    split
    · exact Conn.stop_closedAsLive conn
    · exact hw.closed n conn hconn
  pendingHanded := List.nil_sublist _

/-- A client accepted gets the counter's number, which no one uses yet. -/
theorem accept (hw : Wf r) (key : K) :
    Wf (if r.running then
        { r with
          connCounter := r.connCounter + 1
          channel := r.channel ++ [.createClient ⟨key, r.connCounter, PER_CLIENT_SEND_QUEUE_DEPTH⟩] }
      else { r with connCounter := r.connCounter + 1 }) := by
  have hbelow : ∀ n ∈ r.channel.filterMap ServerMessage.created, n < r.connCounter := by
    intro n hn
    obtain ⟨msg, hmsg, hn⟩ := List.mem_filterMap.mp hn
    cases msg <;> simp only [ServerMessage.created, Option.some.injEq, reduceCtorEq] at hn
    exact hn ▸ (hw.creates _ hmsg).1
  split
  · exact {
      fresh := fun m hm => hw.fresh m (by simp only at hm; omega)
      creates := fun b hb => by
        rcases List.mem_append.mp hb with hb | hb
        · have := hw.creates b hb
          exact ⟨by simp only; omega, this.2⟩
        · simp only [List.mem_singleton, ServerMessage.createClient.injEq] at hb
          subst hb
          exact ⟨Nat.lt_succ_self _, hw.fresh _ le_rfl⟩
      createsNodup := by
        simp only [List.filterMap_append, List.filterMap_cons, ServerMessage.created,
          List.filterMap_nil]
        exact List.nodup_append.mpr ⟨hw.createsNodup, List.nodup_singleton _,
          fun a ha b hb => by rw [List.mem_singleton] at hb; have := hbelow a ha; omega⟩
      removes := fun k n hm => by
        rcases List.mem_append.mp hm with hm | hm
        · exact hw.removes k n hm
        · simp at hm
      registered := hw.registered
      closed := hw.closed
      pendingHanded := by simpa [ServerMessage.handed] using hw.pendingHanded }
  · exact {
      fresh := fun m hm => hw.fresh m (by simp only at hm; omega)
      creates := fun b hb => ⟨by have := (hw.creates b hb).1; simp only; omega, (hw.creates b hb).2⟩
      createsNodup := hw.createsNodup
      removes := hw.removes
      registered := hw.registered
      closed := hw.closed
      pendingHanded := hw.pendingHanded }

/-- The actor's step keeps the bookkeeping. -/
theorem actor (hw : Wf r) {msg : ServerMessage K} {rest : List (ServerMessage K)} {cs : Clients K}
    {running : Bool} (hc : r.channel = msg :: rest)
    (hh : ServerActor.handle r.clients msg = (cs, running)) :
    Wf { r with clients := cs, running, channel := if running then rest else [] } := by
  have htail : Wf { r with channel := rest } := hw.sublist (hc ▸ List.sublist_cons_self msg rest)
  cases msg with
  | sendPacket key packet =>
    rw [ServerActor.handle_sendPacket, Prod.mk.injEq] at hh
    obtain ⟨rfl, rfl⟩ := hh
    exact (htail.keeps (forward_keeps Conn.push_shape_sendQueueOf _ _ _)).with_running true
  | sendDiscoPacket key packet =>
    rw [ServerActor.handle_sendDiscoPacket, Prod.mk.injEq] at hh
    obtain ⟨rfl, rfl⟩ := hh
    exact (htail.keeps (forward_keeps Conn.push_shape_discoSendQueueOf _ _ _)).with_running true
  | createClient b =>
    simp only [ServerActor.handle, Prod.mk.injEq] at hh
    obtain ⟨rfl, rfl⟩ := hh
    obtain ⟨hlt, hnone⟩ := hw.creates b (by rw [hc]; exact List.mem_cons_self)
    have hnot : b.connNum ∉ rest.filterMap ServerMessage.created := by
      have hnd := hw.createsNodup
      rw [hc, List.filterMap_cons] at hnd
      exact (List.nodup_cons.mp hnd).1
    exact (htail.register b hnone hlt hnot).with_running true
  | removeClient key n =>
    simp only [ServerActor.handle, Prod.mk.injEq] at hh
    obtain ⟨rfl, rfl⟩ := hh
    split
    · exact (htail.keeps (keeps_unregister _ _)).with_running true
    · exact (htail.keeps (Keeps.refl _)).with_running true
  | shutdown =>
    simp only [ServerActor.handle, Prod.mk.injEq] at hh
    obtain ⟨rfl, rfl⟩ := hh
    exact hw.shutdown.with_running false

/-- Every move keeps the bookkeeping. -/
theorem move (hw : Wf r) {r' : State K} (hm : Moves r r') : Wf r' := by
  cases hm with
  | accept key => exact hw.accept key
  | actor msg rest cs running _ hc hh => exact hw.actor hc hh
  | handOver n conn dst packet _ _ _ =>
    refine hw.push _ (toServer_created _ _ _) (fun k n h => ?_) ?_
    · unfold toServer at h
      split at h <;> cases h
    · rw [toServer_handed]
      exact hw.pendingHanded.append (.refl _)
  | write n conn conn' h hl hw' =>
    have hs := hw'.shape_eq
    exact hw.setConn h (congrArg Prod.fst hs) (fun hl' => (congrArg (·.2.1) hs).trans hl')
      (Conn.closedAsLive_of_shape hs (hw.closed n conn h))
  | ended n conn h hl =>
    have hstop : Wf (r.setConn n conn.stop) :=
      hw.setConn h rfl (fun _ => rfl) (Conn.stop_closedAsLive conn)
    split
    · have hn : (r.setConn n conn.stop).clients.conns n = some conn.stop := by simp [State.setConn]
      exact hstop.remove hn rfl
    · exact hstop
  | close hr =>
    exact hw.push .shutdown rfl (fun _ _ h => by cases h) (by simpa [ServerMessage.handed] using hw.pendingHanded)

end Wf

theorem wf_run (events : List (Event K)) : Wf (new.run events) :=
  run_induction Wf Wf.init (fun _ _ hw hm => hw.move hm) events

theorem endConn_inner (r : State K) (n : Nat) (conn : Conn K) :
    (r.endConn n conn).clients.inner = r.clients.inner := by
  unfold endConn
  dsimp only
  split <;> rfl

theorem readFrame_inner (r : State K) (n : Nat) (conn : Conn K) (frame : Frame K) :
    (r.readFrame n conn frame).clients.inner = r.clients.inner := by
  unfold readFrame
  split
  · split
    · rfl
    · exact endConn_inner r n conn
  · rfl
  · rfl

theorem writeNext_inner (r : State K) (n : Nat) (conn : Conn K) (q : Queue) :
    (r.writeNext n conn q).clients.inner = r.clients.inner := by
  cases q <;> simp only [writeNext] <;> split <;> rfl

/-- Only the actor changes the map of registered clients. -/
theorem step_inner (r : State K) {e : Event K} (he : e ≠ .actor) :
    (r.step e).clients.inner = r.clients.inner := by
  cases e with
  | accept key version =>
    simp only [step]
    split
    · rfl
    · split <;> rfl
  | actor => exact absurd rfl he
  | read n frame =>
    simp only [step]
    split
    · split
      · exact readFrame_inner r n _ frame
      · rfl
    · rfl
  | write n q =>
    simp only [step]
    split
    · split
      · exact writeNext_inner r n _ q
      · rfl
    · rfl
  | keepAlive n =>
    simp only [step]
    split
    · split <;> rfl
    · rfl
  | ended n =>
    simp only [step]
    split
    · split
      · exact endConn_inner r n _
      · rfl
    · rfl
  | close =>
    simp only [step]
    split <;> rfl

end State

namespace Clients

/-- A cascade of `unregister` never takes out a client, other than the one asked for,
whose connection can still be told that a peer is gone. -/
theorem Cascade.lookup_open {J : K → K → Prop} {peer : K} {cs cs' : Clients K}
    (h : ReflTransGen (UnregStep J peer) cs cs') {k : K} {c : Client K} (hkp : k ≠ peer)
    (hk : cs.inner.lookup k = some c) {conn : Conn K} (hconn : cs.conns c.connNum = some conn)
    (hopen : conn.channels.peerGone.closed = false) : cs'.inner.lookup k = some c := by
  refine (Cascade.induction (fun cs' => cs'.inner.lookup k = some c ∧
      ∃ conn, cs'.conns c.connNum = some conn ∧ conn.channels.peerGone.closed = false)
    (fun cs₁ key client hkey hwhy hP => ?_) (fun cs₁ key gone client conn₁ _ _ hconn₁ _ hP => ?_)
    h ⟨hk, conn, hconn, hopen⟩).1
  · obtain ⟨hk₁, conn₁, hc₁, ho₁⟩ := hP
    have hne : k ≠ key := by
      rintro rfl
      rw [hk₁, Option.some.injEq] at hkey
      subst hkey
      rcases hwhy with rfl | hdead
      · exact hkp rfl
      · rw [hdead conn₁ hc₁] at ho₁
        cases ho₁
    exact ⟨by rwa [AList.lookup_erase_ne hne], conn₁, hc₁, ho₁⟩
  · obtain ⟨hk₁, conn₂, hc₂, ho₂⟩ := hP
    refine ⟨hk₁, ?_⟩
    by_cases hn : c.connNum = client.connNum
    · rw [hn, hconn₁, Option.some.injEq] at hc₂
      subst hc₂
      exact ⟨conn₁.push (peerGoneOf K) gone, by simp [hn], by simpa using ho₂⟩
    · exact ⟨conn₂, by simpa [Function.update_of_ne hn] using hc₂, ho₂⟩

theorem unregister_lookup_open (cs : Clients K) {peer k : K} {c : Client K} (hkp : k ≠ peer)
    (hk : cs.inner.lookup k = some c) {conn : Conn K} (hconn : cs.conns c.connNum = some conn)
    (hopen : conn.channels.peerGone.closed = false) : (cs.unregister peer).inner.lookup k = some c :=
  Cascade.lookup_open (J := fun _ _ => True)
    (unregisterGo_steps (fun _ _ _ _ _ => trivial) _ cs peer .refl fun _ _ => .inl rfl)
    hkp hk hconn hopen

/-- A send keeps every client whose connection has both that channel and its `PeerGone`
channel open. -/
theorem sendWith_lookup_open {ch : ChannelOf K (Packet K)} (cs : Clients K) (key : K)
    (packet : Packet K) {k : K} {c : Client K} (hk : cs.inner.lookup k = some c) {conn : Conn K}
    (hconn : cs.conns c.connNum = some conn) (hch : (ch.get conn.channels).closed = false)
    (hopen : conn.channels.peerGone.closed = false) :
    (cs.sendWith ch key packet).1.inner.lookup k = some c := by
  unfold sendWith
  split
  · exact hk
  · rename_i client hclient
    rcases hs : cs.sendOn client ch packet with e | cs'
    · cases e with
      | packetDropped => exact hk
      | senderClosed =>
        have hne : k ≠ key := by
          rintro rfl
          rw [hk, Option.some.injEq] at hclient
          subst hclient
          rw [sendOn_senderClosed hs conn hconn] at hch
          cases hch
        exact unregister_lookup_open cs hne hk hconn hopen
    · rw [← hk]
      exact congrArg (·.lookup k) (sendOn_inner hs)

theorem recordSend_lookup (cs : Clients K) (src dst : K) {k : K} {c : Client K}
    (hk : cs.inner.lookup k = some c) :
    ((cs.recordSend src dst).inner.lookup k).map Client.connNum = some c.connNum := by
  obtain ⟨c', hc', hn⟩ : ∃ c', (cs.recordSend src dst).inner.lookup k = some c' ∧
      c'.connNum = c.connNum := by
    unfold recordSend
    split
    · exact ⟨c, hk, rfl⟩
    · rename_i client hclient
      by_cases hks : k = src
      · subst hks
        rw [hk, Option.some.injEq] at hclient
        subst hclient
        exact ⟨_, AList.lookup_insert _, rfl⟩
      · exact ⟨c, by rw [AList.lookup_insert_ne hks]; exact hk, rfl⟩
  rw [hc', Option.map_some, hn]

theorem forward_lookup_open {ch : ChannelOf K (Packet K)} (cs : Clients K) (key : K)
    (packet : Packet K) {k : K} {c : Client K} (hk : cs.inner.lookup k = some c) {conn : Conn K}
    (hconn : cs.conns c.connNum = some conn) (hch : (ch.get conn.channels).closed = false)
    (hopen : conn.channels.peerGone.closed = false) :
    ((forward ch cs key packet).inner.lookup k).map Client.connNum = some c.connNum := by
  unfold forward
  split
  · have hsend := sendWith_lookup_open cs key packet hk hconn hch hopen
    rcases hs : cs.sendWith ch key packet with ⟨cs', ok⟩
    rw [hs] at hsend
    cases ok
    · simp [hsend]
    · exact recordSend_lookup cs' packet.src key hsend
  · simp [hk]

end Clients

namespace State

/-- A registered client whose connection runs keeps its place through any step, except the
actor building a newer connection of its key or shutting down: no failed send, cascade of
`unregister` or stale `RemoveClient` takes it out. -/
theorem registered_until_replaced (events : List (Event K)) (e : Event K) {k : K} {c : Client K}
    {conn : Conn K} (hk : (new.run events).clients.inner.lookup k = some c)
    (hconn : (new.run events).clients.conns c.connNum = some conn) (hlive : conn.live = true) :
    (((new.run events).step e).clients.inner.lookup k).map Client.connNum = some c.connNum ∨
      e = .actor ∧ (new.run events).running = true ∧ ∃ rest,
        (∃ b : ClientConnBuilder K, (new.run events).channel = .createClient b :: rest ∧ b.key = k) ∨
          (new.run events).channel = .shutdown :: rest := by
  have hw := wf_run events
  generalize new.run events = r at hw hk hconn ⊢
  obtain ⟨hsend, hdisco, hgone⟩ := hw.closed _ conn hconn
  rw [hlive] at hsend hdisco hgone
  by_cases he : e = .actor
  swap
  · left
    rw [step_inner r he, hk]
    rfl
  subst he
  by_cases hr : r.running = true
  swap
  · left
    simp [step, hr, hk]
  rcases hc : r.channel with _ | ⟨msg, rest⟩
  · left
    simp [step, hr, hc, hk]
  rcases hh : ServerActor.handle r.clients msg with ⟨cs, running⟩
  have hstep : (r.step .actor).clients = cs := by simp [step, hr, hc, hh]
  rw [hstep]
  cases msg with
  | sendPacket key packet =>
    rw [ServerActor.handle_sendPacket, Prod.mk.injEq] at hh
    obtain ⟨rfl, -⟩ := hh
    exact .inl (forward_lookup_open r.clients key packet hk hconn hsend hgone)
  | sendDiscoPacket key packet =>
    rw [ServerActor.handle_sendDiscoPacket, Prod.mk.injEq] at hh
    obtain ⟨rfl, -⟩ := hh
    exact .inl (forward_lookup_open r.clients key packet hk hconn hdisco hgone)
  | createClient b =>
    simp only [ServerActor.handle, Prod.mk.injEq] at hh
    obtain ⟨rfl, -⟩ := hh
    by_cases hb : b.key = k
    · exact .inr ⟨rfl, hr, rest, .inl ⟨b, rfl, hb⟩⟩
    · left
      simp only [Clients.register]
      rw [AList.lookup_insert_ne (Ne.symm hb), hk]
      rfl
  | removeClient key n =>
    simp only [ServerActor.handle, Prod.mk.injEq] at hh
    obtain ⟨rfl, -⟩ := hh
    left
    split
    · rename_i hhas
      have hne : k ≠ key := by
        rintro rfl
        simp only [hasClient, hk, beq_iff_eq] at hhas
        obtain ⟨conn', hconn', hl'⟩ := hw.removes k n (by rw [hc]; exact List.mem_cons_self)
        rw [← hhas, hconn, Option.some.injEq] at hconn'
        rw [← hconn', hlive] at hl'
        cases hl'
      rw [unregister_lookup_open r.clients hne hk hconn hgone]
      rfl
    · rw [hk]
      rfl
  | shutdown => exact .inr ⟨rfl, hr, rest, .inr rfl⟩

/-- A client connects twice; its first connection ends after the second replaced it, and the
actor then takes the stale `RemoveClient` of the first: the second stays registered. -/
theorem registered_until_replaced_stale :
    ((((new : State Nat).run [.accept 1 3, .actor, .accept 1 3, .actor, .ended 1]).step
        .actor).clients.inner.lookup 1).map Client.connNum = some 2 ∨
      (Event.actor : Event Nat) = .actor ∧
        ((new : State Nat).run [.accept 1 3, .actor, .accept 1 3, .actor, .ended 1]).running = true ∧
        ∃ rest, (∃ b : ClientConnBuilder Nat,
          ((new : State Nat).run [.accept 1 3, .actor, .accept 1 3, .actor, .ended 1]).channel =
            .createClient b :: rest ∧ b.key = 1) ∨
          ((new : State Nat).run [.accept 1 3, .actor, .accept 1 3, .actor, .ended 1]).channel =
            .shutdown :: rest :=
  @registered_until_replaced Nat _ [.accept 1 3, .actor, .accept 1 3, .actor, .ended 1] .actor 1
    ⟨2, []⟩ ⟨1, .new PER_CLIENT_SEND_QUEUE_DEPTH, true, []⟩ rfl rfl rfl

end State

end Iroh.Net.Relay.Server
