import Iroh.Gossip.Proto

/-! The message-passing model of the protocol's test simulator (`proto/tests.rs`).

Every node runs `proto::State`. What a node sends travels to its target and is
delivered in order between each pair of nodes, after any delay; a timer a node
schedules fires at any later point. A node that closes a connection
(`DisconnectPeer`) sends the other side the notice `PeerDisconnected`, if the
simulator knew of the connection, which it learns when a message is received over
it. The simulator's own clock and latencies are replaced by the free choice of
the next packet and timer; the clock is advanced by an action of its own.

Active views are not kept symmetric: a node that quits a topic before the answer
to its join arrives leaves the contact with a neighbor that does not know it, and a
second join through the same contact does not repair it
(`stale_neighbor_after_quick_rejoin`). -/

namespace Iroh.Gossip.Simulator

open Proto (TopicId)

/-- What travels from one node to another. -/
inductive Packet (PI : Type) where
  | message (message : Proto.Message PI)
  /-- the sender closed the connection -/
  | disconnected
deriving DecidableEq

/-- The simulator's state. -/
structure Network (PI RG : Type) where
  peers : AList fun _ : PI => Proto.State PI RG
  /-- sender, target and packet, in the order they were sent -/
  transport : List (PI × PI × Packet PI)
  /-- the node and the timer it scheduled, not yet fired -/
  timers : List (PI × Proto.Timer PI)
  /-- the connections the simulator knows of, as unordered pairs -/
  conns : List (PI × PI)
  /-- what the nodes emitted, in order -/
  events : List (PI × TopicId × Topic.Event PI)
  time : Nat

/-- What may happen next. -/
inductive Action (PI : Type) where
  | command (peer : PI) (topic : TopicId) (command : Topic.Command PI)
  /-- deliver the packet at the index, the first between its two nodes -/
  | deliver (index : Nat)
  /-- fire the timer at the index -/
  | fire (index : Nat)
  | advance (delay : Nat)

/-- Whether the action is a node's command. -/
def Action.isCommand {PI : Type} : Action PI → Bool
  | .command .. => true
  | _ => false
namespace Network

variable {PI RG : Type} [DecidableEq PI] (R : Rng RG) (fromContent : List UInt8 → Plumtree.MessageId)

/-- A network of the given nodes, with nothing in flight. -/
def new (peers : List (Proto.State PI RG)) : Network PI RG :=
  ⟨peers.foldl (fun m s => m.insert s.me s) ∅, [], [], [], [], 0⟩

/-- Whether the simulator knows a connection between the two nodes. -/
def connected (net : Network PI RG) (a b : PI) : Bool := net.conns.contains (a, b) || net.conns.contains (b, a)

/-- Route one event a node emitted, as `tick` does; an event for a node the
simulator does not know panics (`peers_by_address.get(&to).unwrap()`). -/
def route (peer : PI) (net : Network PI RG) : Proto.OutEvent PI → Except Panic (Network PI RG)
  | .sendMessage target message =>
    if (net.peers.lookup target).isSome then .ok { net with transport := net.transport ++ [(peer, target, .message message)] }
    else .error .unreachable
  | .scheduleTimer _ timer => .ok { net with timers := net.timers ++ [(peer, timer)] }
  | .disconnectPeer target =>
    if (net.peers.lookup target).isNone then .error .unreachable
    -- the notice is sent only for a connection the simulator knew of
    else if net.connected peer target then
      .ok { net with
        conns := net.conns.filter fun c => c ≠ (peer, target) ∧ c ≠ (target, peer)
        transport := net.transport ++ [(peer, target, .disconnected)] }
    else .ok net
  | .emitEvent topic event => .ok { net with events := net.events ++ [(peer, topic, event)] }
  | .peerData _ _ => .ok net

/-- A node handles an event and its outbox is routed. -/
def handleAt (net : Network PI RG) (peer : PI) (event : Proto.InEvent PI) : Except Panic (Network PI RG) :=
  match net.peers.lookup peer with
  | none => .error .unreachable
  | some state =>
    let net := match event with
      | .recvMessage sender _ => if net.connected sender peer then net else { net with conns := net.conns ++ [(sender, peer)] }
      | _ => net
    match state.handle R fromContent event net.time with
    | .error e => .error e
    | .ok (state, out) => out.foldlM (route peer) { net with peers := net.peers.insert peer state }

/-- Whether the packet at the index is the first in flight between its nodes. -/
def firstOfPair (net : Network PI RG) (index : Nat) : Bool :=
  match net.transport[index]? with
  | some (a, b, _) => (net.transport.take index).all fun p => !(p.1 = a ∧ p.2.1 = b)
  | none => false

/-- One action. A packet that is not first between its nodes, or an index with
nothing at it, is not enabled. -/
def step (net : Network PI RG) : Action PI → Except Panic (Network PI RG)
  | .command peer topic command => net.handleAt R fromContent peer (.command topic command)
  | .deliver index =>
    match net.transport[index]? with
    | some (sender, target, packet) =>
      if net.firstOfPair index then
        let net := { net with transport := net.transport.eraseIdx index }
        match packet with
        | .message message => net.handleAt R fromContent target (.recvMessage sender message)
        | .disconnected => net.handleAt R fromContent target (.peerDisconnected sender)
      else .ok net
    | none => .ok net
  | .fire index =>
    match net.timers[index]? with
    | some (peer, timer) => { net with timers := net.timers.eraseIdx index }.handleAt R fromContent peer (.timerExpired timer)
    | none => .ok net
  | .advance delay => .ok { net with time := net.time + delay }

/-- A run of actions. -/
def run (net : Network PI RG) : List (Action PI) → Except Panic (Network PI RG)
  | [] => .ok net
  | action :: actions =>
    match net.step R fromContent action with
    | .error e => .error e
    | .ok net => run net actions

/-- The state of a node in a topic, if it has joined it. -/
def topicState (net : Network PI RG) (peer : PI) (topic : TopicId) : Option (Topic.State PI RG) :=
  (net.peers.lookup peer).bind fun state => state.states.lookup topic

/-- The payload a node delivered in a topic, if the event is such a delivery. -/
def receivedAt (peer : PI) (topic : TopicId) :
    PI × TopicId × Topic.Event PI → Option (Plumtree.GossipEvent PI)
  | (p, t, .received event) => if p = peer ∧ t = topic then some event else none
  | _ => none

/-- The payloads a node delivered in a topic, in order. -/
def delivered (net : Network PI RG) (peer : PI) (topic : TopicId) :
    List (Plumtree.GossipEvent PI) :=
  net.events.filterMap (receivedAt peer topic)

theorem mem_delivered {net : Network PI RG} {peer : PI} {topic : TopicId}
    {event : Plumtree.GossipEvent PI} :
    event ∈ net.delivered peer topic ↔ (peer, topic, .received event) ∈ net.events := by
  simp only [delivered, List.mem_filterMap]
  constructor
  · rintro ⟨⟨p, t, e⟩, hm, h⟩
    cases e <;>
      simp only [receivedAt, Option.ite_none_right_eq_some, Option.some.injEq, reduceCtorEq] at h
    obtain ⟨⟨rfl, rfl⟩, rfl⟩ := h
    exact hm
  · intro hm
    exact ⟨_, hm, by simp [receivedAt]⟩

/-- A node with a topic state is one of the network's nodes. -/
theorem mem_keys_of_topicState {net : Network PI RG} {peer : PI} {topic : TopicId}
    {state : Topic.State PI RG} (h : net.topicState peer topic = some state) :
    peer ∈ net.peers.keys := by
  obtain ⟨s, hs, -⟩ := Option.bind_eq_some_iff.mp h
  exact AList.mem_keys.mpr (AList.lookup_isSome.mp (by rw [hs]; rfl))

/-- Whether a timer waits for the answer to a neighbor request. -/
def isNeighborRequest : Proto.Timer PI → Bool
  | ⟨_, .swarm (.pendingNeighborRequest _)⟩ => true
  | _ => false

/-- Nothing is in flight that could still change an active view: no packet, and
no neighbor request waiting for its timer. -/
def Quiescent (net : Network PI RG) : Prop :=
  net.transport = [] ∧ ∀ t ∈ net.timers, isNeighborRequest t.2 = false

instance (net : Network PI RG) : Decidable net.Quiescent := by
  unfold Quiescent; infer_instance

/-! ### What a step does

A step hands one node one event: a command, a packet in flight to it, or one of its
timers, and the node's outbox is then routed. `Routed` says what routing can add,
`handleAt_eq_ok` and `step_eq_ok` say once what a step is, and `run_invariant`
carries a property along a run. -/

/-- What routing a node's outbox can add to the network: packets from the node, its
timers and its events, each for an event of the outbox. The nodes and the clock are
left as they are. -/
structure Routed (peer : PI) (out : Proto.Outbox PI) (net net' : Network PI RG) : Prop where
  peers : net'.peers = net.peers
  time : net'.time = net.time
  transport : ∀ p ∈ net'.transport, p ∈ net.transport ∨ p.1 = peer ∧
    ((∃ m, p.2.2 = .message m ∧ .sendMessage p.2.1 m ∈ out) ∨
      p.2.2 = .disconnected ∧ .disconnectPeer p.2.1 ∈ out)
  timers : ∀ t ∈ net'.timers, t ∈ net.timers ∨ t.1 = peer ∧ ∃ d, .scheduleTimer d t.2 ∈ out
  events : ∀ e ∈ net'.events, e ∈ net.events ∨ e.1 = peer ∧ .emitEvent e.2.1 e.2.2 ∈ out

omit [DecidableEq PI] in
theorem Routed.refl (peer : PI) (out : Proto.Outbox PI) (net : Network PI RG) :
    Routed peer out net net :=
  ⟨rfl, rfl, fun _ hp => .inl hp, fun _ ht => .inl ht, fun _ he => .inl he⟩

/-- Routing one more event of the outbox. -/
theorem Routed.of_route {peer : PI} {out : Proto.Outbox PI} {net₀ net net' : Network PI RG}
    {x : Proto.OutEvent PI} (hr : Routed peer out net₀ net) (hx : x ∈ out)
    (h : net.route peer x = .ok net') : Routed peer out net₀ net' := by
  cases x with
  | sendMessage target m =>
    simp only [route] at h
    split at h
    · cases h
      refine ⟨hr.peers, hr.time, fun p hp => ?_, hr.timers, hr.events⟩
      rcases List.mem_append.mp hp with hp | hp
      · exact hr.transport p hp
      · obtain rfl := List.mem_singleton.mp hp
        exact .inr ⟨rfl, .inl ⟨m, rfl, hx⟩⟩
    · cases h
  | scheduleTimer d timer =>
    cases h
    refine ⟨hr.peers, hr.time, hr.transport, fun t ht => ?_, hr.events⟩
    rcases List.mem_append.mp ht with ht | ht
    · exact hr.timers t ht
    · obtain rfl := List.mem_singleton.mp ht
      exact .inr ⟨rfl, d, hx⟩
  | disconnectPeer target =>
    simp only [route] at h
    split at h
    · cases h
    · split at h
      · cases h
        refine ⟨hr.peers, hr.time, fun p hp => ?_, hr.timers, hr.events⟩
        rcases List.mem_append.mp hp with hp | hp
        · exact hr.transport p hp
        · obtain rfl := List.mem_singleton.mp hp
          exact .inr ⟨rfl, .inr ⟨rfl, hx⟩⟩
      · cases h
        exact hr
  | emitEvent topic event =>
    cases h
    refine ⟨hr.peers, hr.time, hr.transport, hr.timers, fun e he => ?_⟩
    rcases List.mem_append.mp he with he | he
    · exact hr.events e he
    · obtain rfl := List.mem_singleton.mp he
      exact .inr ⟨rfl, hx⟩
  | peerData _ _ =>
    cases h
    exact hr

/-- Routing a whole outbox. -/
theorem foldlM_route_routed {peer : PI} {out : Proto.Outbox PI} {net net' : Network PI RG}
    (h : out.foldlM (route peer) net = .ok net') : Routed peer out net net' :=
  Machine.foldlM_except_invariant (Routed peer out net) (fun _ _ _ hx hr hs => hr.of_route hx hs)
    (Routed.refl peer out net) h

/-- The part of `handleAt` after the node is found and the connection learnt: the
connection is nothing that `Routed` reads. -/
theorem handle_route_eq_ok {net net' : Network PI RG} {peer : PI} {event : Proto.InEvent PI}
    {state : Proto.State PI RG}
    (h : (match state.handle R fromContent event net.time with
      | .error e => Except.error e
      | .ok (state, out) => out.foldlM (route peer) { net with peers := net.peers.insert peer state }) =
        .ok net') :
    ∃ state' out, state.handle R fromContent event net.time = .ok (state', out) ∧
      Routed peer out { net with peers := net.peers.insert peer state' } net' := by
  split at h
  · cases h
  · rename_i state' out hhandle
    exact ⟨state', out, hhandle, foldlM_route_routed h⟩

/-- **A node's step**: the node is known, its state handles the event at the
network's time, and its outbox is routed from the network with the new state. -/
theorem handleAt_eq_ok {net net' : Network PI RG} {peer : PI} {event : Proto.InEvent PI}
    (h : net.handleAt R fromContent peer event = .ok net') :
    ∃ state state' out, net.peers.lookup peer = some state ∧
      state.handle R fromContent event net.time = .ok (state', out) ∧
      Routed peer out { net with peers := net.peers.insert peer state' } net' := by
  unfold handleAt at h
  split at h
  · cases h
  · rename_i state hlookup
    split at h
    · split at h
      · obtain ⟨state', out, hh, hr⟩ := handle_route_eq_ok R fromContent h
        exact ⟨state, state', out, hlookup, hh, hr⟩
      · obtain ⟨state', out, hh, hr⟩ := handle_route_eq_ok R fromContent h
        exact ⟨state, state', out, hlookup, hh, hr.peers, hr.time, hr.transport, hr.timers, hr.events⟩
    · obtain ⟨state', out, hh, hr⟩ := handle_route_eq_ok R fromContent h
      exact ⟨state, state', out, hlookup, hh, hr⟩


/-- What a node can be handed by a step other than a command: a packet in flight to
it, or one of its timers. -/
inductive Incoming (net : Network PI RG) (peer : PI) : Proto.InEvent PI → Prop
  | message {sender : PI} {message : Proto.Message PI} :
    (sender, peer, .message message) ∈ net.transport → Incoming net peer (.recvMessage sender message)
  | disconnected {sender : PI} :
    (sender, peer, .disconnected) ∈ net.transport → Incoming net peer (.peerDisconnected sender)
  | timer {timer : Proto.Timer PI} :
    (peer, timer) ∈ net.timers → Incoming net peer (.timerExpired timer)

/-- **What a step other than a command does**: it moves the clock, or it takes a
packet or a timer out of the network and hands it to its node. -/
theorem step_eq_ok {net net' : Network PI RG} {action : Action PI}
    (hc : action.isCommand = false) (h : net.step R fromContent action = .ok net') :
    (∃ delay, net' = { net with time := net.time + delay }) ∨
      ∃ peer event net₁, Incoming net peer event ∧ Routed peer [] net net₁ ∧
        net₁.handleAt R fromContent peer event = .ok net' := by
  cases action with
  | command => cases hc
  | deliver index =>
    simp only [step] at h
    split at h
    · rename_i sender target packet hget
      split at h
      · have hmem : (sender, target, packet) ∈ net.transport := List.mem_of_getElem? hget
        have hsub : Routed target [] net { net with transport := net.transport.eraseIdx index } :=
          ⟨rfl, rfl, fun _ hp => .inl (List.mem_of_mem_eraseIdx hp), fun _ ht => .inl ht,
            fun _ he => .inl he⟩
        cases packet with
        | message m => exact .inr ⟨target, _, _, .message hmem, hsub, h⟩
        | disconnected => exact .inr ⟨target, _, _, .disconnected hmem, hsub, h⟩
      · cases h
        exact .inl ⟨0, rfl⟩
    · cases h
      exact .inl ⟨0, rfl⟩
  | fire index =>
    simp only [step] at h
    split at h
    · rename_i peer timer hget
      have hsub : Routed peer [] net { net with timers := net.timers.eraseIdx index } :=
        ⟨rfl, rfl, fun _ hp => .inl hp, fun _ ht => .inl (List.mem_of_mem_eraseIdx ht),
          fun _ he => .inl he⟩
      exact .inr ⟨peer, _, _, .timer (List.mem_of_getElem? hget), hsub, h⟩
    · cases h
      exact .inl ⟨0, rfl⟩
  | advance delay =>
    cases h
    exact .inl ⟨delay, rfl⟩

/-- **Induction along a run.** A property that every step of an allowed kind keeps
holds after every run of such steps. -/
theorem run_invariant (A : Action PI → Prop) (I : Network PI RG → Prop)
    (hstep : ∀ {net net' action}, A action → I net → net.step R fromContent action = .ok net' → I net')
    {net net' : Network PI RG} {actions : List (Action PI)} (hA : ∀ a ∈ actions, A a)
    (h0 : I net) (h : net.run R fromContent actions = .ok net') : I net' := by
  induction actions generalizing net with
  | nil =>
    cases h
    exact h0
  | cons action actions ih =>
    simp only [run] at h
    split at h
    · cases h
    · rename_i net₁ hs
      exact ih (fun a ha => hA a (List.mem_cons_of_mem _ ha))
        (hstep (hA action List.mem_cons_self) h0 hs) h

/-- A node's topic state, once its state is replaced. -/
theorem topicState_of_peers {net net' : Network PI RG} {peer : PI} {state : Proto.State PI RG}
    (hp : net'.peers = net.peers.insert peer state) (topic : TopicId) :
    net'.topicState peer topic = state.states.lookup topic := by
  simp [topicState, hp]

/-- Another node's topic state is left as it is. -/
theorem topicState_of_peers_ne {net net' : Network PI RG} {peer p : PI} {state : Proto.State PI RG}
    (hp : net'.peers = net.peers.insert peer state) (hne : p ≠ peer) (topic : TopicId) :
    net'.topicState p topic = net.topicState p topic := by
  simp [topicState, hp, AList.lookup_insert_ne hne]

end Network

/-! ### A join that is quit before it is answered -/

/-- Node 1 joins topic A through node 0, which takes 1 into its active view and
answers with a neighbor request. Node 1 quits before the answer arrives: its active
view is still empty, so it tells no one, and the answer finds no topic state. When 1
joins again through 0, node 0 already has 1 in its active view and does nothing.
Once everything is delivered, 0 has 1 as a neighbor and 1 has none. -/
theorem stale_neighbor_after_quick_rejoin :
    let R : Rng Unit := ⟨fun g _ => (0, g), fun _ _ h => h⟩
    ∃ net, (Network.new [.new 0 ⟨[]⟩ .default (), .new 1 ⟨[]⟩ .default ()]).run R (fun _ => 0)
        [.command 0 Proto.topicA (.join []), .command 1 Proto.topicA (.join [0]), .deliver 0,
          .command 1 Proto.topicA .quit, .deliver 0, .command 1 Proto.topicA (.join [0]), .deliver 0] = .ok net ∧
      net.Quiescent ∧
      (∃ state, net.topicState 0 Proto.topicA = some state ∧ 1 ∈ state.swarm.activeView) ∧
      ∃ state, net.topicState 1 Proto.topicA = some state ∧ 0 ∉ state.swarm.activeView := by
  intro R
  exact ⟨_, rfl, by decide, ⟨_, rfl, by decide⟩, _, rfl, by decide⟩

end Iroh.Gossip.Simulator
