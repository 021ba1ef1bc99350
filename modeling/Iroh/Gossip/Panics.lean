import Iroh.Gossip.Topic

/-! The network inputs on which a topic panics.

Two handlers trust what a peer sends. `on_forward_join` takes in the joining peer
at the end of its walk, or when at most one peer is active; `add_active` declines
our own id, and the handler then looks for an active peer other than the sender to
forward the join to, which it assumes there is (`unreachable!`). Any state whose
active peers are at most the sender has none, a fresh topic among them.
`on_gossip` computes the next round of a new swarm payload by `u16` addition, so a
valid payload that a peer sends in round `u16::MAX` overflows.

The failure travels up unchanged: each layer returns the first `Err` of the
handlers below it. -/

namespace Iroh.Gossip

namespace Hyparview.State

variable {PI RG : Type} [DecidableEq PI] (R : Rng RG)

@[simp] theorem insertPeerInfo_me (s : State PI RG) (info : PeerInfo PI) (io : Outbox PI) :
    (s.insertPeerInfo info io).1.me = s.me := by
  unfold insertPeerInfo
  split <;> rfl

@[simp] theorem insertPeerInfo_activeView (s : State PI RG) (info : PeerInfo PI) (io : Outbox PI) :
    (s.insertPeerInfo info io).1.activeView = s.activeView := by
  unfold insertPeerInfo
  split <;> rfl

@[simp] theorem insertPeerInfo_rng (s : State PI RG) (info : PeerInfo PI) (io : Outbox PI) :
    (s.insertPeerInfo info io).1.rng = s.rng := by
  unfold insertPeerInfo
  split <;> rfl

/-- `add_active` declines our own id, after recording its data. -/
theorem addActive_self (s : State PI RG) (data : Option PeerData) (priority : Priority)
    (io : Outbox PI) :
    s.addActive R s.me data priority io =
      ((s.insertPeerInfo ⟨s.me, data⟩ io).1, (s.insertPeerInfo ⟨s.me, data⟩ io).2, true) := by
  simp [addActive]

variable {R}

/-- A `ForwardJoin` of our own id, taken in, finds no active peer but the sender to
forward it to. -/
theorem onForwardJoin_self_unreachable {s : State PI RG} {sender : PI} {data : Option PeerData}
    {ttl : Ttl} {io : Outbox PI} (hwalk : ttl.expired = true ∨ s.activeView.len ≤ 1)
    (hme : s.me ∉ s.activeView) (hsender : ∀ p ∈ s.activeView, p = sender) :
    s.onForwardJoin R sender ⟨s.me, data⟩ ttl io = .error .unreachable := by
  have hwalk' : (ttl.expired || decide (s.activeView.len ≤ 1)) = true := by
    simpa using hwalk
  have hnone := IndexSet.pickRandomWithout_of_forall_mem R s.rng
    fun a ha => List.mem_singleton.mpr (hsender a ha)
  unfold onForwardJoin
  simp [hwalk', addActive_self, hme, hnone]

theorem handle_error_of_dispatch {s : State PI RG} {event : InEvent PI} {io : Outbox PI}
    {e : Panic} (h : s.dispatch R io event = .error e) : s.handle R event io = .error e := by
  simp [handle, h]

theorem handleMessage_error_of_dispatchMessage {s : State PI RG} {sender : PI}
    {message : Message PI} {io : Outbox PI} {e : Panic}
    (h : s.dispatchMessage R sender io message = .error e) :
    s.handleMessage R sender message io = .error e := by
  simp [handleMessage, h]

end Hyparview.State

namespace Plumtree.State

variable {PI : Type} [DecidableEq PI] (fromContent : List UInt8 → MessageId)

/-- A valid swarm payload not received before, in round `u16::MAX`: its next round
overflows. -/
theorem onGossip_last_round {s : State PI} {sender : PI} {content : List UInt8} {now : Nat}
    {io : Outbox PI} (hnew : s.receivedMessages.containsKey (fromContent content) = false) :
    s.onGossip fromContent sender ⟨fromContent content, content, .swarm ⟨65535⟩⟩ now io =
      .error .arithmeticOverflow := by
  simp [onGossip, Gossip.validate, hnew, Gossip.nextRound, Round.next]

/-- The first event only adds the eviction timer before the handler runs. -/
theorem handle_error_of_dispatch {s : State PI} {event : InEvent PI} {now : Nat}
    {io : Outbox PI} {e : Panic}
    (h : ∀ (s' : State PI) (io' : Outbox PI), s'.receivedMessages = s.receivedMessages →
      s'.dispatch fromContent event now io' = .error e) :
    s.handle fromContent event now io = .error e := by
  rcases handle_cases fromContent s event now io with ⟨-, he⟩ | ⟨-, he⟩ <;> rw [he]
  · exact h _ _ rfl
  · exact h _ _ rfl

end Plumtree.State

namespace Topic.State

variable {PI RG : Type} [DecidableEq PI] (R : Rng RG) (fromContent : List UInt8 → Plumtree.MessageId)

variable {R fromContent}

theorem handle_error_of_process {s : State PI RG} {event : InEvent PI} {now : Nat} {e : Panic}
    (h : s.process R fromContent event now = .error e) :
    s.handle R fromContent event now = .error e := by
  simp [handle, h]

theorem swarmHandle_error {s : State PI RG} {event : Hyparview.InEvent PI} {io : Outbox PI}
    {e : Panic} (h : s.swarm.handle R event [] = .error e) : s.swarmHandle R event io = .error e := by
  simp [swarmHandle, h]

theorem gossipHandle_error {s : State PI RG} {event : Plumtree.InEvent PI} {now : Nat}
    {io : Outbox PI} {e : Panic} (h : s.gossip.handle fromContent event now [] = .error e) :
    s.gossipHandle fromContent event now io = .error e := by
  simp [gossipHandle, h]

variable (R fromContent)

/-- **A topic panics on two network inputs.** On a fresh topic, whatever its
configuration: a `ForwardJoin` whose walk ends here and that names us reaches
`unreachable!`, and a valid swarm payload in round `u16::MAX` overflows `Round::next`. -/
theorem handle_panics_on_network_input (me sender : PI) (config : Config) (rng : RG)
    (content : List UInt8) (now : Nat) :
    (withRng me none config rng).handle R fromContent
        (.recvMessage sender (.swarm (.forwardJoin ⟨me, none⟩ ⟨0⟩))) now = .error .unreachable ∧
      (withRng me none config rng).handle R fromContent
        (.recvMessage sender (.gossip (.gossip ⟨fromContent content, content, .swarm ⟨65535⟩⟩)))
        now = .error .arithmeticOverflow := by
  constructor
  · -- the walk ends here, and no peer is active
    apply handle_error_of_process
    apply swarmHandle_error
    apply Hyparview.State.handle_error_of_dispatch
    apply Hyparview.State.handleMessage_error_of_dispatchMessage
    show (Hyparview.State.new me none config.membership rng).onForwardJoin R sender ⟨me, none⟩ ⟨0⟩ [] = _
    refine Hyparview.State.onForwardJoin_self_unreachable ?_ ?_ ?_
    · exact .inl rfl
    · exact IndexSet.not_mem_empty _
    · intro p hp
      exact absurd hp (IndexSet.not_mem_empty _)
  · apply handle_error_of_process
    apply gossipHandle_error
    apply Plumtree.State.handle_error_of_dispatch
    intro s' io' hrecv
    show s'.onGossip fromContent sender ⟨fromContent content, content, .swarm ⟨65535⟩⟩ now io' = _
    exact Plumtree.State.onGossip_last_round fromContent (by rw [hrecv]; rfl)

end Topic.State

end Iroh.Gossip
