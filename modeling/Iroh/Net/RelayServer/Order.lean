import Iroh.Net.RelayServer.Runs

/-! What the relay delivers: packets in order, or not at all.

A connection's `pipeline` is what it wrote to its client followed by what waits in its two
packet channels. `Ordered` says that, per route (disco or plain), the pipeline followed by
the packets for its key still in the server channel is a subsequence of the packets handed
to the server for that key. The two routes are separate channels, so only within a route
does order survive: the disco channel never holds a plain packet nor the packet channel a
disco one, and the server channel routes each packet by what it looks like
(`transfer_packet`). Forwarding moves a packet from the server channel to the end of one
pipeline, writing moves it within its pipeline, and a loop that ends drops what it held;
none of these breaks the subsequence. -/

namespace Iroh.Net.Relay.Server

open Relation Clients

variable {K : Type}

/-- Packets of one route: disco (`true`) or plain (`false`). -/
def route (disco : Bool) (x : K × List UInt8) : Bool := looksLikeDiscoWrapper x.2 == disco

/-- Moving an item past items a filter drops, or that the filter itself drops, does not change
what the filter keeps. -/
theorem filter_move {α : Type} (f : α → Bool) (A B C : List α) (x : α)
    (h : f x = false ∨ ∀ y ∈ B, f y = false) :
    (A ++ [x] ++ B ++ C).filter f = (A ++ B ++ x :: C).filter f := by
  rcases h with h | h
  · simp [List.filter_append, h]
  · have hB : B.filter f = [] := List.filter_eq_nil_iff.mpr fun y hy => by simp [h y hy]
    cases hx : f x <;> simp [List.filter_append, hB, hx]

/-- Packets of the other route than `x`'s are dropped by `x`'s route, and `x` by theirs. -/
theorem route_apart {x : Packet K} {B : List (Packet K)} {c : Bool}
    (hx : looksLikeDiscoWrapper x.bytes = c) (hB : ∀ p ∈ B, looksLikeDiscoWrapper p.bytes = !c)
    (disco : Bool) : route disco x.view = false ∨ ∀ y ∈ B.map Packet.view, route disco y = false := by
  by_cases hc : c = disco
  · subst hc
    right
    intro y hy
    obtain ⟨p, hp, rfl⟩ := List.mem_map.mp hy
    simp [route, Packet.view, hB p hp]
  · left
    simp [route, Packet.view, hx, hc]

namespace Conn

/-- What of a connection the packet order depends on: its key, what it wrote, and its two
packet channels. -/
def packets (conn : Conn K) : K × List (Frame K) × List (Packet K) × List (Packet K) :=
  (conn.key, conn.written, conn.channels.sendQueue.queue, conn.channels.discoSendQueue.queue)

theorem push_packets_peerGoneOf (conn : Conn K) (gone : K) :
    (conn.push (peerGoneOf K) gone).packets = conn.packets := rfl

@[simp] theorem received_append (conn : Conn K) (w : List (Frame K)) :
    ({ conn with written := conn.written ++ w } : Conn K).received =
      conn.received ++ w.filterMap Frame.recvd := List.filterMap_append

theorem pipeline_push_sendQueueOf (conn : Conn K) (p : Packet K) :
    (conn.push (sendQueueOf K) p).pipeline =
      conn.received ++ conn.channels.sendQueue.queue.map Packet.view ++ [p.view] ++
        conn.channels.discoSendQueue.queue.map Packet.view := by
  simp [pipeline, received]

theorem pipeline_push_discoSendQueueOf (conn : Conn K) (p : Packet K) :
    (conn.push (discoSendQueueOf K) p).pipeline = conn.pipeline ++ [p.view] := by
  simp [pipeline, received]

theorem pipeline_stop (conn : Conn K) : conn.stop.pipeline = conn.received := by
  simp [pipeline, stop, received, ClientChannels.close, Channel.close]

theorem received_sublist_pipeline (conn : Conn K) : List.Sublist conn.received conn.pipeline := by
  unfold pipeline
  rw [List.append_assoc]
  exact List.sublist_append_left _ _

theorem Writes.sendQueue_subset {conn conn' : Conn K} (hw : conn.Writes conn') {p : Packet K}
    (hp : p ∈ conn'.channels.sendQueue.queue) : p ∈ conn.channels.sendQueue.queue := by
  cases hw with
  | send packet rest hq =>
    rw [hq]
    exact List.mem_cons_of_mem _ hp
  | _ => exact hp

theorem Writes.disco_subset {conn conn' : Conn K} (hw : conn.Writes conn') {p : Packet K}
    (hp : p ∈ conn'.channels.discoSendQueue.queue) : p ∈ conn.channels.discoSendQueue.queue := by
  cases hw with
  | disco packet rest hq =>
    rw [hq]
    exact List.mem_cons_of_mem _ hp
  | _ => exact hp

/-- Writing keeps each route of the pipeline, followed by anything, when the channels hold
their routes' packets: a written disco packet passes the plain channel, which its route
drops. -/
theorem Writes.pipeline_filter {conn conn' : Conn K} (hw : conn.Writes conn')
    (hplain : ∀ p ∈ conn.channels.sendQueue.queue, looksLikeDiscoWrapper p.bytes = false)
    (hdisco : ∀ p ∈ conn.channels.discoSendQueue.queue, looksLikeDiscoWrapper p.bytes = true)
    {T : List (K × List UInt8)} (b : Bool) :
    (conn'.pipeline ++ T).filter (route b) = (conn.pipeline ++ T).filter (route b) := by
  cases hw with
  | frame w hr _ => simp [pipeline, hr]
  | peerGone peer rest _ => simp [pipeline, received, Frame.recvd]
  | send packet rest hq => simp [pipeline, received, Frame.recvd, hq, Packet.view]
  | disco packet rest hq =>
    have hmove := filter_move (route b) conn.received
      (conn.channels.sendQueue.queue.map Packet.view) (rest.map Packet.view ++ T) packet.view
      (route_apart (hdisco packet (by rw [hq]; exact List.mem_cons_self)) hplain b)
    simpa [pipeline, received, Frame.recvd, hq, Packet.view] using hmove

end Conn

theorem conn_of_map_eq {β : Type} {f : Conn K → β} {o o' : Option (Conn K)}
    (h : o'.map f = o.map f) {conn' : Conn K} (hc : o' = some conn') :
    ∃ conn, o = some conn ∧ f conn' = f conn := by
  rw [hc, Option.map_some] at h
  obtain ⟨conn, ho, hf⟩ := Option.map_eq_some_iff.mp h.symm
  exact ⟨conn, ho, hf.symm⟩

variable [DecidableEq K]

/-- The packets of a list handed to the server for `dst`, as sender and content. -/
def toKey (dst : K) (hs : List (Handed K)) : List (K × List UInt8) :=
  (hs.filter fun h => h.dst = dst).map fun h => (h.src, h.content)

theorem toKey_sublist (dst : K) {hs hs' : List (Handed K)} (h : List.Sublist hs hs') :
    List.Sublist (toKey dst hs) (toKey dst hs') :=
  (h.filter _).map _

@[simp] theorem toKey_append (dst : K) (hs hs' : List (Handed K)) :
    toKey dst (hs ++ hs') = toKey dst hs ++ toKey dst hs' := by
  simp [toKey, List.filter_append]

theorem toKey_pending_forward (key : K) (p : Packet K) (rest : List (ServerMessage K)) :
    toKey key (pending (.sendPacket key p :: rest)) = p.view :: toKey key (pending rest) := by
  simp [toKey, ServerMessage.handed, Packet.view]

theorem toKey_pending_forwardDisco (key : K) (p : Packet K) (rest : List (ServerMessage K)) :
    toKey key (pending (.sendDiscoPacket key p :: rest)) = p.view :: toKey key (pending rest) := by
  simp [toKey, ServerMessage.handed, Packet.view]

/-- What `Ordered` asks of one connection, given the server channel and the packets handed:
its channels hold their route's packets, and per route its pipeline, followed by what waits
for its key, is a subsequence of what was handed for its key. -/
structure Conn.Ordered (conn : Conn K) (channel : List (ServerMessage K))
    (handed : List (Handed K)) : Prop where
  plain : ∀ p ∈ conn.channels.sendQueue.queue, looksLikeDiscoWrapper p.bytes = false
  disco : ∀ p ∈ conn.channels.discoSendQueue.queue, looksLikeDiscoWrapper p.bytes = true
  order : ∀ b, List.Sublist ((conn.pipeline ++ toKey conn.key (pending channel)).filter (route b))
    ((toKey conn.key handed).filter (route b))

namespace Conn.Ordered

variable {conn : Conn K} {channel : List (ServerMessage K)} {handed : List (Handed K)}

theorem of_packets (h : conn.Ordered channel handed) {conn' : Conn K}
    (hp : conn'.packets = conn.packets) : conn'.Ordered channel handed := by
  simp only [Conn.packets, Prod.mk.injEq] at hp
  obtain ⟨hkey, hwritten, hsend, hdisco⟩ := hp
  have hpipe : conn'.pipeline = conn.pipeline := by
    simp only [Conn.pipeline, Conn.received, hwritten, hsend, hdisco]
  exact ⟨hsend ▸ h.plain, hdisco ▸ h.disco, hkey ▸ hpipe ▸ h.order⟩

/-- Fewer packets waiting in the server channel. -/
theorem pending_sublist (h : conn.Ordered channel handed) {channel' : List (ServerMessage K)}
    (hs : List.Sublist (pending channel') (pending channel)) : conn.Ordered channel' handed :=
  ⟨h.plain, h.disco, fun b =>
    (((List.Sublist.refl _).append (toKey_sublist _ hs)).filter _).trans (h.order b)⟩

/-- A packet handed to the server, at the end of its channel. -/
theorem append (h : conn.Ordered channel handed) (msg : ServerMessage K) :
    conn.Ordered (channel ++ [msg]) (handed ++ msg.handed.toList) := by
  refine ⟨h.plain, h.disco, fun b => ?_⟩
  have hsub := (h.order b).append (List.Sublist.refl ((toKey conn.key msg.handed.toList).filter (route b)))
  simpa [List.filter_append, List.append_assoc] using hsub

/-- The loop ends and its channels drop what they held. -/
theorem stop (h : conn.Ordered channel handed) : conn.stop.Ordered channel handed := by
  refine ⟨fun p hp => by simp [Conn.stop, ClientChannels.close, Channel.close] at hp,
    fun p hp => by simp [Conn.stop, ClientChannels.close, Channel.close] at hp, fun b => ?_⟩
  rw [Conn.pipeline_stop, Conn.stop_key]
  refine List.Sublist.trans (List.Sublist.filter _ ?_) (h.order b)
  exact (conn.received_sublist_pipeline).append (List.Sublist.refl _)

/-- The loop writes the next item of a channel, or a frame of its own. -/
theorem writes (h : conn.Ordered channel handed) {conn' : Conn K} (hw : conn.Writes conn') :
    conn'.Ordered channel handed := by
  refine ⟨fun p hp => h.plain p (hw.sendQueue_subset hp), fun p hp => h.disco p (hw.disco_subset hp),
    fun b => ?_⟩
  have hkey : conn'.key = conn.key := congrArg Prod.fst hw.shape_eq
  rw [hw.pipeline_filter h.plain h.disco, hkey]
  exact h.order b

/-- Messages that carry no packet appended to the server channel. -/
theorem append_none (h : conn.Ordered channel handed) {msg : ServerMessage K}
    (hm : msg.handed = none) : conn.Ordered (channel ++ [msg]) handed :=
  h.pending_sublist (by simp [hm])

/-- A connection just built: nothing written, nothing queued. -/
theorem fresh (hs : List.Sublist (pending channel) handed) (key : K) (capacity : Nat) :
    (⟨key, .new capacity, true, []⟩ : Conn K).Ordered channel handed := by
  refine ⟨fun _ hp => by simp [ClientChannels.new, Channel.new] at hp,
    fun _ hp => by simp [ClientChannels.new, Channel.new] at hp, fun b => ?_⟩
  simpa [Conn.pipeline, Conn.received, ClientChannels.new, Channel.new] using
    (toKey_sublist key hs).filter (route b)

/-- A plain packet for the connection's key, taken from the head of the server channel and
queued. -/
theorem forward {p : Packet K} {rest : List (ServerMessage K)}
    (h : conn.Ordered (.sendPacket conn.key p :: rest) handed)
    (hp : looksLikeDiscoWrapper p.bytes = false) :
    (conn.push (sendQueueOf K) p).Ordered rest handed := by
  refine ⟨fun q hq => ?_, h.disco, fun b => ?_⟩
  · simp only [Conn.push_sendQueueOf_channels, List.mem_append, List.mem_singleton] at hq
    rcases hq with hq | rfl
    · exact h.plain q hq
    · exact hp
  · have hold := h.order b
    rw [toKey_pending_forward] at hold
    unfold Conn.pipeline at hold
    have hmove := filter_move (route b)
      (conn.received ++ conn.channels.sendQueue.queue.map Packet.view)
      (conn.channels.discoSendQueue.queue.map Packet.view) (toKey conn.key (pending rest)) p.view
      (route_apart hp h.disco b)
    rw [Conn.pipeline_push_sendQueueOf, Conn.push_key, hmove]
    exact hold

/-- A disco packet for the connection's key, taken from the head of the server channel and
queued. -/
theorem forwardDisco {p : Packet K} {rest : List (ServerMessage K)}
    (h : conn.Ordered (.sendDiscoPacket conn.key p :: rest) handed)
    (hp : looksLikeDiscoWrapper p.bytes = true) :
    (conn.push (discoSendQueueOf K) p).Ordered rest handed := by
  refine ⟨h.plain, fun q hq => ?_, fun b => ?_⟩
  · simp only [Conn.push_discoSendQueueOf_channels, List.mem_append, List.mem_singleton] at hq
    rcases hq with hq | rfl
    · exact h.disco q hq
    · exact hp
  · have hold := h.order b
    rw [toKey_pending_forwardDisco] at hold
    rw [Conn.pipeline_push_discoSendQueueOf, Conn.push_key, List.append_assoc, List.singleton_append]
    exact hold

end Conn.Ordered

namespace Clients

theorem Cascade.packets {J : K → K → Prop} {peer : K} {cs cs' : Clients K}
    (h : ReflTransGen (UnregStep J peer) cs cs') :
    ∀ m, (cs'.conns m).map Conn.packets = (cs.conns m).map Conn.packets :=
  Cascade.induction (fun cs' => ∀ m, (cs'.conns m).map Conn.packets = (cs.conns m).map Conn.packets)
    (fun _ _ _ _ _ hP => hP)
    (fun _ _ gone _ conn _ _ hconn _ hP m =>
      (Conn.map_update_eq Conn.packets hconn (conn.push_packets_peerGoneOf gone) m).trans (hP m))
    h fun _ => rfl

theorem unregister_packets (cs : Clients K) (peer : K) :
    ∀ m, ((cs.unregister peer).conns m).map Conn.packets = (cs.conns m).map Conn.packets :=
  Cascade.packets (J := fun _ _ => True)
    (unregisterGo_steps (fun _ _ _ _ _ => trivial) _ cs peer .refl fun _ _ => .inl rfl)

theorem recordSend_conns (cs : Clients K) (src dst : K) : (cs.recordSend src dst).conns = cs.conns := by
  unfold recordSend
  split <;> rfl

/-- What a send does to the connections' packets: nothing, or the packet queued on the
channel of the connection of the client of `key`. -/
theorem sendWith_packets (ch : ChannelOf K (Packet K)) (cs : Clients K) (key : K)
    (packet : Packet K) :
    (∀ m, ((cs.sendWith ch key packet).1.conns m).map Conn.packets = (cs.conns m).map Conn.packets) ∨
      ∃ client conn, cs.inner.lookup key = some client ∧ cs.conns client.connNum = some conn ∧
        (cs.sendWith ch key packet).1.conns =
          Function.update cs.conns client.connNum (some (conn.push ch packet)) := by
  unfold sendWith
  split
  · exact .inl fun _ => rfl
  · rename_i client hclient
    rcases hs : cs.sendOn client ch packet with e | cs'
    · cases e with
      | packetDropped => exact .inl fun _ => rfl
      | senderClosed => exact .inl (unregister_packets cs key)
    · obtain ⟨conn, hconn, -, -, rfl⟩ := sendOn_ok hs
      exact .inr ⟨client, conn, hclient, hconn, rfl⟩

theorem forward_packets (ch : ChannelOf K (Packet K)) (cs : Clients K) (key : K)
    (packet : Packet K) :
    (∀ m, ((forward ch cs key packet).conns m).map Conn.packets = (cs.conns m).map Conn.packets) ∨
      ∃ client conn, cs.inner.lookup key = some client ∧ cs.conns client.connNum = some conn ∧
        (forward ch cs key packet).conns =
          Function.update cs.conns client.connNum (some (conn.push ch packet)) := by
  unfold forward
  split
  · have h := sendWith_packets ch cs key packet
    rcases hs : cs.sendWith ch key packet with ⟨cs', ok⟩
    rw [hs] at h
    cases ok
    · exact h
    · simpa only [if_true, recordSend_conns] using h
  · exact .inl fun _ => rfl

end Clients

namespace State

/-- Packets are delivered in order: every connection is `Ordered`, and the server channel
routes each packet by what it looks like. -/
structure Ordered (r : State K) : Prop where
  conns : ∀ n conn, r.clients.conns n = some conn → conn.Ordered r.channel r.handed
  routed : ∀ key p, .sendPacket key p ∈ r.channel → looksLikeDiscoWrapper p.bytes = false
  routedDisco : ∀ key p, .sendDiscoPacket key p ∈ r.channel → looksLikeDiscoWrapper p.bytes = true

namespace Ordered

variable {r : State K}

theorem init : Ordered (new : State K) where
  conns _ _ h := by simp [new] at h
  routed _ _ h := by simp [new] at h
  routedDisco _ _ h := by simp [new] at h

/-- A message that carries no packet appended to the server channel. -/
theorem push (ho : Ordered r) {msg : ServerMessage K} (hm : msg.handed = none) :
    Ordered { r with channel := r.channel ++ [msg] } where
  conns n conn h := (ho.conns n conn h).append_none hm
  routed key p hp := by
    rcases List.mem_append.mp hp with hp | hp
    · exact ho.routed key p hp
    · rw [List.mem_singleton] at hp
      rw [← hp] at hm
      cases hm
  routedDisco key p hp := by
    rcases List.mem_append.mp hp with hp | hp
    · exact ho.routedDisco key p hp
    · rw [List.mem_singleton] at hp
      rw [← hp] at hm
      cases hm

theorem setConn (ho : Ordered r) {n : Nat} {conn' : Conn K}
    (hc : conn'.Ordered r.channel r.handed) : Ordered (r.setConn n conn') where
  conns m c hm := by
    by_cases hmn : m = n
    · subst hmn
      simp only [State.setConn, Function.update_self, Option.some.injEq] at hm
      exact hm ▸ hc
    · simp only [State.setConn, Function.update_of_ne hmn] at hm
      exact ho.conns m c hm
  routed := ho.routed
  routedDisco := ho.routedDisco

/-- A connection hands the server a packet, routed by what it looks like. -/
theorem handOver (ho : Ordered r) (src dst : K) (packet : List UInt8) :
    Ordered { r with
      channel := r.channel ++ [toServer src dst packet]
      handed := r.handed ++ [⟨src, dst, packet⟩] } where
  conns n c h := by
    have hc := (ho.conns n c h).append (toServer src dst packet)
    rwa [toServer_handed] at hc
  routed key p hp := by
    rcases List.mem_append.mp hp with hp | hp
    · exact ho.routed key p hp
    · simp only [toServer, List.mem_singleton] at hp
      split at hp
      · cases hp
      · rename_i hl
        simp only [ServerMessage.sendPacket.injEq] at hp
        obtain ⟨-, rfl⟩ := hp
        simpa using hl
  routedDisco key p hp := by
    rcases List.mem_append.mp hp with hp | hp
    · exact ho.routedDisco key p hp
    · simp only [toServer, List.mem_singleton] at hp
      split at hp
      · rename_i hl
        simp only [ServerMessage.sendDiscoPacket.injEq] at hp
        obtain ⟨-, rfl⟩ := hp
        exact hl
      · cases hp

/-- The actor took the head of the server channel, and every connection after it is
`Ordered` for the rest. -/
theorem tail (ho : Ordered r) {msg : ServerMessage K} {rest : List (ServerMessage K)}
    (hc : r.channel = msg :: rest) {cs : Clients K}
    (hconns : ∀ n conn', cs.conns n = some conn' → conn'.Ordered rest r.handed) (running : Bool) :
    Ordered { r with clients := cs, running, channel := if running then rest else [] } where
  conns n conn' h := by
    have hrest := hconns n conn' h
    split
    · exact hrest
    · exact hrest.pending_sublist (List.nil_sublist _)
  routed key p hp := by
    split at hp
    · exact ho.routed key p (by rw [hc]; exact List.mem_cons_of_mem _ hp)
    · cases hp
  routedDisco key p hp := by
    split at hp
    · exact ho.routedDisco key p (by rw [hc]; exact List.mem_cons_of_mem _ hp)
    · cases hp

/-- A connection unchanged in its packets by the actor's step stays `Ordered`. -/
theorem kept (ho : Ordered r) {msg : ServerMessage K} {rest : List (ServerMessage K)}
    (hc : r.channel = msg :: rest) {cs : Clients K} {n : Nat}
    (hmap : (cs.conns n).map Conn.packets = (r.clients.conns n).map Conn.packets)
    {conn' : Conn K} (h : cs.conns n = some conn') : conn'.Ordered rest r.handed := by
  obtain ⟨conn, hconn, hp⟩ := conn_of_map_eq hmap h
  have hold := ho.conns n conn hconn
  rw [hc] at hold
  exact (hold.of_packets hp).pending_sublist (by rw [pending_cons]; exact List.sublist_append_right _ _)

/-- The actor forwards the packet at the head of the server channel. -/
theorem forward (ho : Ordered r) (hw : Wf r) {ch : ChannelOf K (Packet K)} {key : K}
    {packet : Packet K} {rest : List (ServerMessage K)} (hc : r.channel = msg :: rest)
    (hpush : ∀ conn : Conn K, conn.key = key → conn.Ordered (msg :: rest) r.handed →
      (conn.push ch packet).Ordered rest r.handed) (n : Nat) (conn' : Conn K)
    (h : (forward ch r.clients key packet).conns n = some conn') : conn'.Ordered rest r.handed := by
  rcases forward_packets ch r.clients key packet with hmap | ⟨client, conn, hclient, hconn, hconns⟩
  · exact ho.kept hc (hmap n) h
  · by_cases hn : n = client.connNum
    · subst hn
      rw [hconns, Function.update_self, Option.some.injEq] at h
      subst h
      obtain ⟨conn₀, hconn₀, hkey⟩ := hw.registered key client hclient
      rw [hconn, Option.some.injEq] at hconn₀
      subst hconn₀
      exact hpush conn hkey (hc ▸ ho.conns _ conn hconn)
    · rw [hconns, Function.update_of_ne hn] at h
      exact ho.kept hc rfl h

/-- The actor's step keeps packets in order. -/
theorem actor (ho : Ordered r) (hw : Wf r) {msg : ServerMessage K} {rest : List (ServerMessage K)}
    {cs : Clients K} {running : Bool} (hc : r.channel = msg :: rest)
    (hh : ServerActor.handle r.clients msg = (cs, running)) :
    Ordered { r with clients := cs, running, channel := if running then rest else [] } := by
  refine ho.tail hc (fun n conn' h => ?_) running
  cases msg with
  | sendPacket key packet =>
    rw [ServerActor.handle_sendPacket, Prod.mk.injEq] at hh
    obtain ⟨rfl, -⟩ := hh
    have hp := ho.routed key packet (by rw [hc]; exact List.mem_cons_self)
    exact ho.forward hw hc (fun conn hkey hold => (hkey ▸ hold).forward hp) n conn' h
  | sendDiscoPacket key packet =>
    rw [ServerActor.handle_sendDiscoPacket, Prod.mk.injEq] at hh
    obtain ⟨rfl, -⟩ := hh
    have hp := ho.routedDisco key packet (by rw [hc]; exact List.mem_cons_self)
    exact ho.forward hw hc (fun conn hkey hold => (hkey ▸ hold).forwardDisco hp) n conn' h
  | createClient b =>
    simp only [ServerActor.handle, Prod.mk.injEq] at hh
    obtain ⟨rfl, -⟩ := hh
    by_cases hn : n = b.connNum
    · subst hn
      simp only [Clients.register, Function.update_self, Option.some.injEq] at h
      subst h
      have hs := (List.sublist_cons_self _ _).filterMap ServerMessage.handed |>.trans (hc ▸ hw.pendingHanded)
      exact Conn.Ordered.fresh hs b.key b.channelCapacity
    · simp only [Clients.register, Function.update_of_ne hn] at h
      exact ho.kept hc rfl h
  | removeClient key n' =>
    simp only [ServerActor.handle, Prod.mk.injEq] at hh
    obtain ⟨rfl, -⟩ := hh
    split at h
    · exact ho.kept hc (unregister_packets _ _ n) h
    · exact ho.kept hc rfl h
  | shutdown =>
    simp only [ServerActor.handle, Prod.mk.injEq] at hh
    obtain ⟨rfl, -⟩ := hh
    simp only [Clients.shutdown, Option.map_eq_some_iff] at h
    obtain ⟨conn, hconn, rfl⟩ := h
    have hold := ho.kept hc rfl hconn
    split
    · exact hold.stop
    · exact hold

/-- Every move keeps packets in order. -/
theorem move (ho : Ordered r) (hw : Wf r) {r' : State K} (hm : Moves r r') : Ordered r' := by
  cases hm with
  | accept key =>
    split
    · have hp : Ordered { r with
          channel := r.channel ++ [.createClient ⟨key, r.connCounter, PER_CLIENT_SEND_QUEUE_DEPTH⟩] } :=
        ho.push rfl
      exact ⟨hp.conns, hp.routed, hp.routedDisco⟩
    · exact ⟨ho.conns, ho.routed, ho.routedDisco⟩
  | actor msg rest cs running _ hc hh => exact ho.actor hw hc hh
  | handOver n conn dst packet _ _ _ => exact ho.handOver conn.key dst packet
  | write n conn conn' h _ hw' => exact ho.setConn ((ho.conns n conn h).writes hw')
  | ended n conn h _ =>
    have hstop : Ordered (r.setConn n conn.stop) := ho.setConn (ho.conns n conn h).stop
    split
    · exact hstop.push rfl
    · exact hstop
  | close _ => exact ho.push rfl

end Ordered

theorem ordered_run (events : List (Event K)) : Ordered (new.run events) :=
  (run_induction (fun r => Wf r ∧ Ordered r) ⟨Wf.init, Ordered.init⟩
    (fun _ _ h hm => ⟨h.1.move hm, h.2.move h.1 hm⟩) events).2

/-- Per sender and per route, the contents a connection wrote to its client are a subsequence
of the packets that sender handed the server for the client's key: the relay may drop
packets, but never invents, duplicates or reorders them. -/
theorem received_in_order (events : List (Event K)) {n : Nat} {conn : Conn K}
    (h : (new.run events).clients.conns n = some conn) (src : K) (disco : Bool) :
    List.Sublist
      ((conn.received.filter fun x => x.1 = src ∧ looksLikeDiscoWrapper x.2 = disco).map Prod.snd)
      (((new.run events).handed.filter fun h =>
        h.src = src ∧ h.dst = conn.key ∧ looksLikeDiscoWrapper h.content = disco).map
          Handed.content) := by
  have hord := ((ordered_run events).conns n conn h).order disco
  have hrecv : List.Sublist (conn.received.filter (route disco))
      ((toKey conn.key (new.run events).handed).filter (route disco)) :=
    ((conn.received_sublist_pipeline.trans (List.sublist_append_left _ _)).filter _).trans hord
  have hsrc := (hrecv.filter fun x => x.1 = src).map Prod.snd
  simpa [toKey, route, List.filter_filter, List.filter_map, Function.comp_def, Bool.beq_eq_decide_eq,
    Bool.and_comm, Bool.and_left_comm] using hsrc

/-- Client 1 sends client 2 a packet, which the actor forwards and client 2's loop writes. -/
theorem received_in_order_forwarded :
    List.Sublist
      (((⟨2, ⟨⟨[], 512, false⟩, ⟨[], 512, false⟩, ⟨[], 512, false⟩⟩, true, [.recvPacket 1 [7]]⟩ :
          Conn Nat).received.filter fun x => x.1 = 1 ∧ looksLikeDiscoWrapper x.2 = false).map
        Prod.snd)
      ((((new : State Nat).run [.accept 1 3, .accept 2 3, .actor, .actor, .read 1 (.sendPacket 2 [7]),
          .actor, .write 2 .send]).handed.filter fun h =>
        h.src = 1 ∧ h.dst = 2 ∧ looksLikeDiscoWrapper h.content = false).map Handed.content) :=
  @received_in_order Nat _ [.accept 1 3, .accept 2 3, .actor, .actor, .read 1 (.sendPacket 2 [7]),
    .actor, .write 2 .send] 2 _ rfl 1 false

end State

end Iroh.Net.Relay.Server
