import Iroh.Lib.AList
import Iroh.Net.RelayServer

/-! How `Clients::unregister` changes the registry.

`unregister` recurses through `send_peer_gone` and `process_result`: telling a peer that a
client left may find that peer's channel closed, which unregisters that peer in turn. The
whole cascade is a sequence of two moves (`UnregStep`): a client taken out of the map,
either the one asked for or one whose `PeerGone` channel has no receiver (`Dead`), and a
`PeerGone` note queued for a registered client, about a client that had sent to it.
`unregisterGo_steps` shows that every cascade is such a sequence, and `Cascade.induction`
turns a fact kept by both moves into a fact about the whole cascade, so that what follows
about `unregister` (and the server's invariants in `Runs`) is proved once per move.

The recursion's fuel, the number of clients in the map, never runs short: every nested call
starts after one more client was erased (`unregisterGo_succ`). -/

namespace Iroh.Net.Relay.Server

open Relation

variable {K : Type}

theorem trySend_go_full {α : Type} {ch : Channel α} {msg : α} (hc : ch.closed = false)
    (hf : ¬ ch.queue.length < ch.capacity) : ∀ n, trySend.go ch msg n = .error .packetDropped
  | 0 => rfl
  | n + 1 => by
    simp only [trySend.go, Channel.trySend, hc, hf, Bool.false_eq_true, if_false]
    exact trySend_go_full hc hf n

/-- The retries of `try_send` see the channel as the first try did: the result is the one
try's, with a full channel reported as a dropped packet. -/
theorem trySend_eq {α : Type} (ch : Channel α) (msg : α) :
    trySend ch msg =
      if ch.closed then .error .senderClosed
      else if ch.queue.length < ch.capacity then .ok { ch with queue := ch.queue ++ [msg] }
      else .error .packetDropped := by
  by_cases hc : ch.closed
  · simp [trySend, RETRIES, trySend.go, Channel.trySend, hc]
  · by_cases hf : ch.queue.length < ch.capacity
    · simp [trySend, RETRIES, trySend.go, Channel.trySend, hc, hf]
    · simp only [hc, hf, Bool.false_eq_true, if_false]
      exact trySend_go_full (by simpa using hc) hf RETRIES

/-- A connection with one more item queued on one of its channels. -/
def Conn.push {α : Type} (ch : ChannelOf K α) (conn : Conn K) (x : α) : Conn K :=
  { conn with
    channels := ch.set conn.channels
      { (ch.get conn.channels) with queue := (ch.get conn.channels).queue ++ [x] } }

@[simp] theorem Conn.push_key {α : Type} (ch : ChannelOf K α) (conn : Conn K) (x : α) :
    (conn.push ch x).key = conn.key := rfl

@[simp] theorem Conn.push_live {α : Type} (ch : ChannelOf K α) (conn : Conn K) (x : α) :
    (conn.push ch x).live = conn.live := rfl

@[simp] theorem Conn.push_written {α : Type} (ch : ChannelOf K α) (conn : Conn K) (x : α) :
    (conn.push ch x).written = conn.written := rfl

@[simp] theorem Conn.push_sendQueueOf_channels (conn : Conn K) (p : Packet K) :
    (conn.push (sendQueueOf K) p).channels = { conn.channels with sendQueue :=
      { conn.channels.sendQueue with queue := conn.channels.sendQueue.queue ++ [p] } } := rfl

@[simp] theorem Conn.push_discoSendQueueOf_channels (conn : Conn K) (p : Packet K) :
    (conn.push (discoSendQueueOf K) p).channels = { conn.channels with discoSendQueue :=
      { conn.channels.discoSendQueue with queue := conn.channels.discoSendQueue.queue ++ [p] } } :=
  rfl

@[simp] theorem Conn.push_peerGoneOf_channels (conn : Conn K) (gone : K) :
    (conn.push (peerGoneOf K) gone).channels = { conn.channels with peerGone :=
      { conn.channels.peerGone with queue := conn.channels.peerGone.queue ++ [gone] } } := rfl

variable [DecidableEq K]

namespace Clients

/-- A send that goes through appends the item to the channel of the client's connection,
which was open and had room; nothing else changes. -/
theorem sendOn_ok {α : Type} {cs cs' : Clients K} {client : Client K} {ch : ChannelOf K α}
    {msg : α} (h : cs.sendOn client ch msg = .ok cs') :
    ∃ conn, cs.conns client.connNum = some conn ∧ (ch.get conn.channels).closed = false ∧
      (ch.get conn.channels).queue.length < (ch.get conn.channels).capacity ∧
      cs' = { cs with conns := Function.update cs.conns client.connNum (some (conn.push ch msg)) } := by
  unfold sendOn at h
  split at h
  · cases h
  · rename_i conn hconn
    rw [trySend_eq] at h
    split_ifs at h with hc hf
    · simp [Except.map] at h
    · simp only [Except.map, Except.ok.injEq] at h
      exact ⟨conn, hconn, by simpa using hc, hf, h.symm⟩
    · simp [Except.map] at h

/-- A send fails with `SenderClosed` only when the connection is gone or that channel has
no receiver. -/
theorem sendOn_senderClosed {α : Type} {cs : Clients K} {client : Client K}
    {ch : ChannelOf K α} {msg : α} (h : cs.sendOn client ch msg = .error .senderClosed) :
    ∀ conn, cs.conns client.connNum = some conn → (ch.get conn.channels).closed = true := by
  intro conn hconn
  simp only [sendOn, hconn, trySend_eq] at h
  split_ifs at h with hc hf
  · exact hc
  · simp [Except.map] at h
  · simp [Except.map] at h

theorem sendOn_inner {α : Type} {cs cs' : Clients K} {client : Client K} {ch : ChannelOf K α}
    {msg : α} (h : cs.sendOn client ch msg = .ok cs') : cs'.inner = cs.inner := by
  obtain ⟨_, _, _, _, rfl⟩ := sendOn_ok h
  rfl

/-- A send to the client finds its `PeerGone` channel without a receiver. -/
def Dead (cs : Clients K) (client : Client K) : Prop :=
  ∀ conn, cs.conns client.connNum = some conn → conn.channels.peerGone.closed = true

/-- One move of `unregister`'s cascade: a client taken out of the map, the one asked for
or one found dead, or a `PeerGone` note about `gone` queued for a registered client, where
`J gone key` says what is known of the pair. -/
inductive UnregStep (J : K → K → Prop) (peer : K) : Clients K → Clients K → Prop
  | erase {cs : Clients K} (key : K) (client : Client K) :
      cs.inner.lookup key = some client → (key = peer ∨ Dead cs client) →
      UnregStep J peer cs { cs with inner := cs.inner.erase key }
  | notify {cs cs' : Clients K} (key gone : K) (client : Client K) :
      cs.inner.lookup key = some client → J gone key →
      cs.sendOn client (peerGoneOf K) gone = .ok cs' → UnregStep J peer cs cs'

section Cascade

variable {J : K → K → Prop} {peer : K}

theorem UnregStep.lookup_of_lookup {cs cs' : Clients K} (h : UnregStep J peer cs cs')
    {key : K} {c : Client K} (hc : cs'.inner.lookup key = some c) :
    cs.inner.lookup key = some c := by
  cases h with
  | erase _ _ _ _ => exact AList.lookup_of_lookup_erase hc
  | notify _ _ _ _ _ hs => rwa [sendOn_inner hs] at hc

theorem UnregStep.length_le {cs cs' : Clients K} (h : UnregStep J peer cs cs') :
    cs'.inner.keys.length ≤ cs.inner.keys.length := by
  cases h with
  | erase k _ _ _ =>
    simp only [AList.keys_erase]
    exact List.length_erase_le
  | notify _ _ _ _ _ hs => rw [sendOn_inner hs]

/-- The invariant rule of the cascade: what both moves keep holds after any cascade. -/
theorem Cascade.induction (P : Clients K → Prop)
    (herase : ∀ cs key client, cs.inner.lookup key = some client → (key = peer ∨ Dead cs client) →
      P cs → P { cs with inner := cs.inner.erase key })
    (hnotify : ∀ cs key gone client conn, cs.inner.lookup key = some client → J gone key →
      cs.conns client.connNum = some conn → conn.channels.peerGone.closed = false → P cs →
      P { cs with conns := Function.update cs.conns client.connNum (some (conn.push (peerGoneOf K) gone)) })
    {cs cs' : Clients K} (h : ReflTransGen (UnregStep J peer) cs cs') (hP : P cs) : P cs' := by
  induction h with
  | refl => exact hP
  | tail _ step ih =>
    cases step with
    | erase key client hk hdead => exact herase _ key client hk hdead ih
    | notify key gone client hk hJ hs =>
      obtain ⟨conn, hconn, hopen, -, rfl⟩ := sendOn_ok hs
      exact hnotify _ key gone client conn hk hJ hconn hopen ih

theorem Cascade.lookup_of_lookup {cs cs' : Clients K} (h : ReflTransGen (UnregStep J peer) cs cs')
    {key : K} {c : Client K} (hc : cs'.inner.lookup key = some c) :
    cs.inner.lookup key = some c := by
  induction h with
  | refl => exact hc
  | tail _ step ih => exact ih (step.lookup_of_lookup hc)

theorem Cascade.length_le {cs cs' : Clients K} (h : ReflTransGen (UnregStep J peer) cs cs') :
    cs'.inner.keys.length ≤ cs.inner.keys.length := by
  induction h with
  | refl => exact le_rfl
  | tail _ step ih => exact step.length_le.trans ih

/-- `send_peer_gone` is at most one move, or a cascade from a dead client. -/
theorem sendPeerGoneWith_steps {unreg : Clients K → K → Clients K} {cs : Clients K}
    {key gone : K}
    (hunreg : ∀ c, cs.inner.lookup key = some c → Dead cs c →
      ReflTransGen (UnregStep J peer) cs (unreg cs key))
    (hJ : J gone key) :
    ReflTransGen (UnregStep J peer) cs (sendPeerGoneWith unreg cs key gone) := by
  unfold sendPeerGoneWith
  split
  · exact .refl
  · rename_i client hclient
    rcases hs : cs.sendOn client (peerGoneOf K) gone with e | cs'
    · cases e with
      | packetDropped => exact .refl
      | senderClosed => exact hunreg client hclient (sendOn_senderClosed hs)
    · exact .single (.notify key gone client hclient hJ hs)

/-- Every cascade of `unregister` is a sequence of moves, given that `J` holds of every
client in the map and every peer it sent to. The client asked for may be taken out; any
other client taken out was found dead. -/
theorem unregisterGo_steps {cs₀ : Clients K}
    (hJ : ∀ p c q, cs₀.inner.lookup p = some c → q ∈ c.sentTo → J p q) (fuel : Nat) :
    ∀ cs key, ReflTransGen (UnregStep J peer) cs₀ cs →
      (∀ c, cs.inner.lookup key = some c → key = peer ∨ Dead cs c) →
      ReflTransGen (UnregStep J peer) cs (unregisterGo fuel cs key) := by
  induction fuel with
  | zero => intro cs _ _ _; exact .refl
  | succ fuel ih =>
    intro cs key hreach hkey
    unfold unregisterGo
    split
    · exact .refl
    · rename_i client hclient
      have herase : UnregStep J peer cs { cs with inner := cs.inner.erase key } :=
        .erase key client hclient (hkey client hclient)
      have hsent : ∀ q ∈ client.sentTo, J key q :=
        fun q hq => hJ key client q (Cascade.lookup_of_lookup hreach hclient) hq
      -- the walk over `sent_to`, from whatever state the cascade has reached
      suffices hfold : ∀ (keys : List K), (∀ q ∈ keys, J key q) → ∀ cs',
          ReflTransGen (UnregStep J peer) cs₀ cs' → ReflTransGen (UnregStep J peer) cs'
            (keys.foldl (fun cs q => sendPeerGoneWith (unregisterGo fuel) cs q key) cs') from
        .head herase (hfold client.sentTo hsent _ (hreach.tail herase))
      intro keys
      induction keys with
      | nil => intro _ cs' _; exact .refl
      | cons q keys ihk =>
        intro hkeys cs' hreach'
        have hone : ReflTransGen (UnregStep J peer) cs'
            (sendPeerGoneWith (unregisterGo fuel) cs' q key) := by
          refine sendPeerGoneWith_steps (fun c hc hdead => ?_) (hkeys q List.mem_cons_self)
          refine ih cs' q hreach' fun c' hc' => .inr ?_
          rw [Option.some.inj (hc'.symm.trans hc)]
          exact hdead
        rw [List.foldl_cons]
        exact hone.trans (ihk (fun q' hq' => hkeys q' (List.mem_cons_of_mem _ hq')) _
          (hreach'.trans hone))

end Cascade

theorem sendPeerGoneWith_length_le (fuel : Nat) (cs : Clients K) (key gone : K) :
    (sendPeerGoneWith (unregisterGo fuel) cs key gone).inner.keys.length ≤
      cs.inner.keys.length := by
  have h : ReflTransGen (UnregStep (fun _ _ : K => True) key) cs
      (sendPeerGoneWith (unregisterGo fuel) cs key gone) :=
    sendPeerGoneWith_steps (fun _ _ _ =>
      unregisterGo_steps (fun _ _ _ _ _ => trivial) fuel cs key .refl fun _ _ => .inl rfl) trivial
  exact Cascade.length_le h

theorem sendPeerGoneWith_congr {u u' : Clients K → K → Clients K} {cs : Clients K} {key : K}
    (h : u cs key = u' cs key) (gone : K) :
    sendPeerGoneWith u cs key gone = sendPeerGoneWith u' cs key gone := by
  unfold sendPeerGoneWith processResult
  rw [h]

/-- One more round of fuel changes nothing once there are at least as many rounds as
clients: the cascade never runs out. -/
theorem unregisterGo_succ (fuel : Nat) :
    ∀ (cs : Clients K) peer, cs.inner.keys.length ≤ fuel →
      unregisterGo (fuel + 1) cs peer = unregisterGo fuel cs peer := by
  induction fuel with
  | zero =>
    intro cs peer h
    have hkeys : cs.inner.keys = [] := List.eq_nil_of_length_eq_zero (by omega)
    have hnone : cs.inner.lookup peer = none := by
      rw [AList.lookup_eq_none, AList.mem_keys, hkeys]
      exact List.not_mem_nil
    simp [unregisterGo, hnone]
  | succ fuel ih =>
    intro cs peer h
    unfold unregisterGo
    split
    · rfl
    · rename_i client hclient
      have hmem : peer ∈ cs.inner.keys := AList.mem_keys.mp (AList.lookup_isSome.mp (by simp [hclient]))
      have herased : ({ cs with inner := cs.inner.erase peer } : Clients K).inner.keys.length ≤ fuel := by
        simp only [AList.keys_erase, List.length_erase_of_mem hmem]
        omega
      generalize ({ cs with inner := cs.inner.erase peer } : Clients K) = cs' at herased ⊢
      induction client.sentTo generalizing cs' with
      | nil => rfl
      | cons q keys ihk =>
        simp only [List.foldl_cons]
        rw [sendPeerGoneWith_congr (ih cs' q herased) peer]
        exact ihk _ ((sendPeerGoneWith_length_le fuel cs' q peer).trans herased)

/-- `unregister` with any fuel beyond the number of clients. -/
theorem unregisterGo_eq_of_le {fuel : Nat} {cs : Clients K} (h : cs.inner.keys.length ≤ fuel)
    (peer : K) : unregisterGo fuel cs peer = cs.unregister peer := by
  unfold unregister
  induction fuel, h using Nat.le_induction with
  | base => rfl
  | succ n hn ihn => rw [unregisterGo_succ n cs peer hn, ihn]

/-- Client 1 had sent to client 2, whose connection is gone: unregistering 1 tells 2, finds no
receiver, and unregisters 2 as well, within the rounds the registry allows. -/
theorem unregisterGo_eq_of_le_cascade :
    let cs : Clients Nat :=
      ⟨((∅ : AList fun _ : Nat => Client Nat).insert 2 ⟨1, []⟩).insert 1 ⟨0, [2]⟩, fun _ => none⟩
    cs.inner.keys.length ≤ 5 ∧ unregisterGo 5 cs 1 = cs.unregister 1 ∧ (cs.unregister 1).inner.keys = [] := by
  intro cs
  have h : cs.inner.keys.length ≤ 5 := by decide
  exact ⟨h, unregisterGo_eq_of_le h 1, by decide⟩

end Clients

end Iroh.Net.Relay.Server
