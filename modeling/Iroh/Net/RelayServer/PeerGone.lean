import Iroh.Net.RelayServer.Runs

/-! Who hears that a peer is gone.

When a client is removed, `unregister` tells every peer in its `sent_to` that it is gone,
and a failed note may remove that peer in turn. `Discreet` says that no client learns of a
peer this way unless that peer had sent it a packet through the server: `sent_to` holds
only clients a packet was handed for (`record_send` runs after a packet for them was taken
from the server channel), and every note, queued or written, names a peer that sent to the
note's client. The cascade keeps this move by move (`Clients.Discreet.cascade`); the
actor's other steps and the io loops keep it or only drop notes. -/

namespace Iroh.Net.Relay.Server

open Relation Clients

variable {K : Type}

/-- The peers a connection told its client are gone, or will tell it. -/
theorem Conn.notes_push_peerGoneOf (conn : Conn K) (gone : K) :
    (conn.push (peerGoneOf K) gone).notes = conn.notes ++ [gone] := by
  simp [Conn.notes]

theorem Conn.notes_push_sendQueueOf (conn : Conn K) (p : Packet K) :
    (conn.push (sendQueueOf K) p).notes = conn.notes := rfl

theorem Conn.notes_push_discoSendQueueOf (conn : Conn K) (p : Packet K) :
    (conn.push (discoSendQueueOf K) p).notes = conn.notes := rfl

theorem Conn.notes_stop (conn : Conn K) :
    conn.stop.notes = conn.written.filterMap Frame.gone := by
  simp [Conn.notes, Conn.stop, ClientChannels.close, Channel.close]

/-- Writing moves a note from the channel to what was written, or writes no note. -/
theorem Conn.Writes.notes_eq {conn conn' : Conn K} (hw : conn.Writes conn') :
    conn'.notes = conn.notes := by
  cases hw with
  | frame w _ hg => simp [Conn.notes, hg]
  | peerGone peer rest hq => simp [Conn.notes, Frame.gone, hq]
  | send packet rest _ => simp [Conn.notes, Frame.gone]
  | disco packet rest _ => simp [Conn.notes, Frame.gone]

/-- `gone` handed the server a packet for `key`. -/
def Sent (handed : List (Handed K)) (gone key : K) : Prop :=
  ∃ h ∈ handed, h.src = gone ∧ h.dst = key

theorem Sent.mono {handed handed' : List (Handed K)} (hs : ∀ h ∈ handed, h ∈ handed') {gone key : K}
    (h : Sent handed gone key) : Sent handed' gone key := by
  obtain ⟨p, hp, hsrc, hdst⟩ := h
  exact ⟨p, hs p hp, hsrc, hdst⟩

variable [DecidableEq K]

/-- The registry tells a client that a peer is gone only if that peer handed the server a
packet for it: so does every `sent_to`, and every note. -/
structure Clients.Discreet (handed : List (Handed K)) (cs : Clients K) : Prop where
  sentTo : ∀ p c q, cs.inner.lookup p = some c → q ∈ c.sentTo → Sent handed p q
  notes : ∀ n conn, cs.conns n = some conn → ∀ q ∈ conn.notes, Sent handed q conn.key

namespace Clients.Discreet

variable {handed : List (Handed K)} {cs : Clients K}

theorem mono (hd : cs.Discreet handed) {handed' : List (Handed K)}
    (hs : ∀ h ∈ handed, h ∈ handed') : cs.Discreet handed' :=
  ⟨fun p c q hp hq => (hd.sentTo p c q hp hq).mono hs,
    fun n conn h q hq => (hd.notes n conn h q hq).mono hs⟩

/-- A connection replaced by one of its key with no more notes. -/
theorem update (hd : cs.Discreet handed) {n : Nat} {conn conn' : Conn K}
    (h : cs.conns n = some conn) (hkey : conn'.key = conn.key)
    (hnotes : ∀ q ∈ conn'.notes, q ∈ conn.notes) :
    ({ cs with conns := Function.update cs.conns n (some conn') } : Clients K).Discreet handed where
  sentTo := hd.sentTo
  notes m c hm q hq := by
    by_cases hmn : m = n
    · subst hmn
      simp only [Function.update_self, Option.some.injEq] at hm
      subst hm
      rw [hkey]
      exact hd.notes m conn h q (hnotes q hq)
    · simp only [Function.update_of_ne hmn] at hm
      exact hd.notes m c hm q hq

/-- The invariant through a cascade of `unregister` whose notes are about peers that sent to
the client told: every move keeps it, with the registry's keys. -/
theorem cascade {peer : K} {cs' : Clients K} (h : ReflTransGen (UnregStep (Sent handed) peer) cs cs')
    (hreg : ∀ k c, cs.inner.lookup k = some c → ∃ conn, cs.conns c.connNum = some conn ∧ conn.key = k)
    (hd : cs.Discreet handed) : cs'.Discreet handed := by
  refine (Cascade.induction (fun cs => (∀ k c, cs.inner.lookup k = some c →
      ∃ conn, cs.conns c.connNum = some conn ∧ conn.key = k) ∧ cs.Discreet handed)
    (fun cs₁ key _ _ _ hP => ?_) (fun cs₁ key gone client conn hk hJ hconn _ hP => ?_) h ⟨hreg, hd⟩).2
  · obtain ⟨hreg₁, hd₁⟩ := hP
    exact ⟨fun k c hc => hreg₁ k c (AList.lookup_of_lookup_erase hc),
      fun p c q hp hq => hd₁.sentTo p c q (AList.lookup_of_lookup_erase hp) hq, hd₁.notes⟩
  · obtain ⟨hreg₁, hd₁⟩ := hP
    obtain ⟨conn₀, hconn₀, hkey⟩ := hreg₁ key client hk
    rw [hconn, Option.some.injEq] at hconn₀
    subst hconn₀
    refine ⟨fun k c hc => ?_, ⟨hd₁.sentTo, fun m c hm q hq => ?_⟩⟩
    · obtain ⟨conn₁, hconn₁, hkey₁⟩ := hreg₁ k c hc
      by_cases hmn : c.connNum = client.connNum
      · refine ⟨conn.push (peerGoneOf K) gone, by simp [hmn], ?_⟩
        rw [hmn, hconn, Option.some.injEq] at hconn₁
        rw [Conn.push_key, hconn₁, hkey₁]
      · exact ⟨conn₁, by simpa [Function.update_of_ne hmn] using hconn₁, hkey₁⟩
    · by_cases hmn : m = client.connNum
      · subst hmn
        simp only [Function.update_self, Option.some.injEq] at hm
        subst hm
        rw [Conn.notes_push_peerGoneOf, List.mem_append, List.mem_singleton] at hq
        rw [Conn.push_key]
        rcases hq with hq | rfl
        · exact hd₁.notes _ conn hconn q hq
        · exact hkey ▸ hJ
      · simp only [Function.update_of_ne hmn] at hm
        exact hd₁.notes m c hm q hq

theorem sendWith (hd : cs.Discreet handed)
    (hreg : ∀ k c, cs.inner.lookup k = some c → ∃ conn, cs.conns c.connNum = some conn ∧ conn.key = k)
    {ch : ChannelOf K (Packet K)} (hch : ∀ (conn : Conn K) x, (conn.push ch x).notes = conn.notes)
    (key : K) (packet : Packet K) : (cs.sendWith ch key packet).1.Discreet handed := by
  unfold Clients.sendWith
  split
  · exact hd
  · rename_i client _
    rcases hs : cs.sendOn client ch packet with e | cs'
    · cases e with
      | packetDropped => exact hd
      | senderClosed =>
        exact hd.cascade (unregisterGo_steps hd.sentTo _ cs key .refl fun _ _ => .inl rfl) hreg
    · obtain ⟨conn, hconn, -, -, rfl⟩ := sendOn_ok hs
      exact hd.update hconn (Conn.push_key ch conn packet) fun q hq => by rwa [hch] at hq

theorem recordSend (hd : cs.Discreet handed) {src dst : K} (hsent : Sent handed src dst) :
    (cs.recordSend src dst).Discreet handed := by
  unfold Clients.recordSend
  split
  · exact hd
  · rename_i client hclient
    refine ⟨fun p c q hp hq => ?_, hd.notes⟩
    by_cases hps : p = src
    · subst hps
      simp only [AList.lookup_insert, Option.some.injEq] at hp
      subst hp
      split at hq
      · exact hd.sentTo p client q hclient hq
      · rcases List.mem_append.mp hq with hq | hq
        · exact hd.sentTo p client q hclient hq
        · rw [List.mem_singleton] at hq
          exact hq ▸ hsent
    · rw [AList.lookup_insert_ne hps] at hp
      exact hd.sentTo p c q hp hq

theorem forward (hd : cs.Discreet handed)
    (hreg : ∀ k c, cs.inner.lookup k = some c → ∃ conn, cs.conns c.connNum = some conn ∧ conn.key = k)
    {ch : ChannelOf K (Packet K)} (hch : ∀ (conn : Conn K) x, (conn.push ch x).notes = conn.notes)
    {key : K} {packet : Packet K} (hsent : Sent handed packet.src key) :
    (forward ch cs key packet).Discreet handed := by
  unfold Clients.forward
  split
  · have h := hd.sendWith hreg hch key packet
    rcases hs : cs.sendWith ch key packet with ⟨cs', ok⟩
    rw [hs] at h
    cases ok
    · exact h
    · exact h.recordSend hsent
  · exact hd

theorem register (hd : cs.Discreet handed) (b : ClientConnBuilder K) :
    (cs.register b).Discreet handed where
  sentTo p c q hp hq := by
    by_cases hpb : p = b.key
    · subst hpb
      simp only [Clients.register, AList.lookup_insert, Option.some.injEq] at hp
      subst hp
      simp at hq
    · rw [Clients.register, AList.lookup_insert_ne hpb] at hp
      exact hd.sentTo p c q hp hq
  notes m c hm q hq := by
    by_cases hmb : m = b.connNum
    · subst hmb
      simp only [Clients.register, Function.update_self, Option.some.injEq] at hm
      subst hm
      simp [Conn.notes, ClientChannels.new, Channel.new] at hq
    · simp only [Clients.register, Function.update_of_ne hmb] at hm
      exact hd.notes m c hm q hq

theorem shutdown (hd : cs.Discreet handed) : cs.shutdown.Discreet handed where
  sentTo p c q hp := by simp [Clients.shutdown] at hp
  notes m c hm q hq := by
    simp only [Clients.shutdown, Option.map_eq_some_iff] at hm
    obtain ⟨conn, hconn, rfl⟩ := hm
    by_cases hany : (cs.inner.entries.any fun x => x.snd.connNum == m) = true
    · simp only [hany, if_true, Conn.notes, ClientChannels.close, Channel.close, List.append_nil]
        at hq ⊢
      exact hd.notes m conn hconn q (List.mem_append_left _ hq)
    · simp only [hany, Bool.false_eq_true, if_false] at hq ⊢
      exact hd.notes m conn hconn q hq

end Clients.Discreet

namespace State

/-- A client hears that a peer is gone only if that peer handed the server a packet for it. -/
def Discreet (r : State K) : Prop := r.clients.Discreet r.handed

namespace Discreet

variable {r : State K}

theorem init : Discreet (new : State K) :=
  ⟨fun _ _ _ h => by simp [new] at h, fun _ _ h => by simp [new] at h⟩

/-- The actor's step: a packet forwarded is noted in its sender's `sent_to`, taken from the
server channel, so it was handed to the server. -/
theorem actor (hd : Discreet r) (hw : Wf r) {msg : ServerMessage K} {rest : List (ServerMessage K)}
    {cs : Clients K} {running : Bool} (hc : r.channel = msg :: rest)
    (hh : ServerActor.handle r.clients msg = (cs, running)) : cs.Discreet r.handed := by
  have hhead : ∀ h, msg.handed = some h → Sent r.handed h.src h.dst := fun h hm =>
    ⟨h, hw.pendingHanded.subset (by rw [hc, pending_cons, hm]; exact List.mem_cons_self), rfl, rfl⟩
  cases msg with
  | sendPacket key packet =>
    rw [ServerActor.handle_sendPacket, Prod.mk.injEq] at hh
    obtain ⟨rfl, -⟩ := hh
    exact Clients.Discreet.forward hd hw.registered Conn.notes_push_sendQueueOf (hhead _ rfl)
  | sendDiscoPacket key packet =>
    rw [ServerActor.handle_sendDiscoPacket, Prod.mk.injEq] at hh
    obtain ⟨rfl, -⟩ := hh
    exact Clients.Discreet.forward hd hw.registered Conn.notes_push_discoSendQueueOf (hhead _ rfl)
  | createClient b =>
    simp only [ServerActor.handle, Prod.mk.injEq] at hh
    obtain ⟨rfl, -⟩ := hh
    exact Clients.Discreet.register hd b
  | removeClient key n =>
    simp only [ServerActor.handle, Prod.mk.injEq] at hh
    obtain ⟨rfl, -⟩ := hh
    split
    · exact Clients.Discreet.cascade
        (unregisterGo_steps hd.sentTo _ r.clients key .refl fun _ _ => .inl rfl) hw.registered hd
    · exact hd
  | shutdown =>
    simp only [ServerActor.handle, Prod.mk.injEq] at hh
    obtain ⟨rfl, -⟩ := hh
    exact Clients.Discreet.shutdown hd

/-- Every move keeps the notes discreet. -/
theorem move (hd : Discreet r) (hw : Wf r) {r' : State K} (hm : Moves r r') : Discreet r' := by
  cases hm with
  | accept key => split <;> exact hd
  | actor msg rest cs running _ hc hh => exact hd.actor hw hc hh
  | handOver n conn dst packet _ _ _ => exact Clients.Discreet.mono hd fun h hh => List.mem_append_left _ hh
  | write n conn conn' h _ hw' =>
    exact Clients.Discreet.update hd h (congrArg Prod.fst hw'.shape_eq) fun q hq => by
      rwa [hw'.notes_eq] at hq
  | ended n conn h _ =>
    have hstop : Discreet (r.setConn n conn.stop) :=
      Clients.Discreet.update hd h (Conn.stop_key conn) fun q hq => by
        rw [Conn.notes_stop] at hq
        exact List.mem_append_left _ hq
    split
    · exact hstop
    · exact hstop
  | close _ => exact hd

end Discreet

/-- A client is told that a peer is gone only if that peer had handed the server a packet
for it. -/
theorem peerGone_only_after_send (events : List (Event K)) {n : Nat} {conn : Conn K}
    (h : (new.run events).clients.conns n = some conn) {peer : K}
    (hg : Frame.peerGone peer ∈ conn.written) :
    ∃ p ∈ (new.run events).handed, p.src = peer ∧ p.dst = conn.key := by
  have hd := (run_induction (fun r => Wf r ∧ Discreet r) ⟨Wf.init, Discreet.init⟩
    (fun _ _ h hm => ⟨h.1.move hm, h.2.move h.1 hm⟩) events).2
  exact hd.notes n conn h peer (List.mem_append_left _ (List.mem_filterMap.mpr ⟨_, hg, rfl⟩))

/-- Client 1 sends client 2 a packet and leaves; client 2's loop writes the `PeerGone` note
before the packet. -/
theorem peerGone_only_after_send_left :
    ∃ p ∈ ((new : State Nat).run [.accept 1 3, .accept 2 3, .actor, .actor,
        .read 1 (.sendPacket 2 [7]), .actor, .ended 1, .actor, .write 2 .peerGone]).handed,
      p.src = 1 ∧ p.dst = 2 :=
  @peerGone_only_after_send Nat _ [.accept 1 3, .accept 2 3, .actor, .actor,
      .read 1 (.sendPacket 2 [7]), .actor, .ended 1, .actor, .write 2 .peerGone] 2
    ⟨2, ⟨⟨[⟨1, [7]⟩], 512, false⟩, ⟨[], 512, false⟩, ⟨[], 512, false⟩⟩, true, [.peerGone 1]⟩
    rfl 1 List.mem_cons_self

end State

end Iroh.Net.Relay.Server
