import Iroh.Gossip.Simulator
import Iroh.Gossip.Grafts
import Iroh.Gossip.Lift

/-! Lazy recovery in the simulator, and a payload that is never requested.

A node that hears of a payload only through an `IHave` recovers it by a graft: the
first `IHave` for an id puts the id into `graft_timer_scheduled` and arms a
`SendGraft` timer, and each firing of the timer sends a graft to the next announcer
in `missing_messages` and arms the timer again, until the announcers run out. The
id leaves `graft_timer_scheduled` only when the payload arrives; a later `IHave`
for it is recorded and arms nothing.

`Awaiting` is the network's state where a node waits for a payload in this way,
with no graft timer armed for it, while every other member holds it: no packet in
flight carries the payload to the node and none carries a graft for it from the
node. Every step other than a command keeps it (`Awaiting.step`), so it holds after
every run of such steps (`Awaiting.run`), and the node never delivers the payload. -/

namespace Iroh.Gossip.Simulator

open Proto (TopicId)
open Plumtree (MessageId)
open Plumtree.State (Awaits Holds Spares Touches handle_awaits handle_holds)

namespace Network

variable {PI RG : Type} [DecidableEq PI] (R : Rng RG) (fromContent : List UInt8 → MessageId)

omit [DecidableEq PI] in
theorem Incoming.not_join {net : Network PI RG} {peer : PI} {event : Proto.InEvent PI}
    (hin : Incoming net peer event) (topic : TopicId) (peers : List PI) :
    event ≠ .command topic (.join peers) := by
  cases hin <;> nofun

omit [DecidableEq PI] in
/-- What Plumtree is handed, in a topic, of an event that reaches a node: a message
in flight to the node in that topic, a timer of the node in that topic, or the loss
of a neighbor. -/
theorem Incoming.gossipInput {net : Network PI RG} {peer : PI} {event : Proto.InEvent PI}
    {topic : TopicId} {e : Topic.InEvent PI} {g : Plumtree.InEvent PI}
    (hin : Incoming net peer event) (hf : event.forTopic topic = some e)
    (hg : e.gossipInput = some g) :
    (∃ sender m, g = .recvMessage sender m ∧
        (sender, peer, .message ⟨topic, .gossip m⟩) ∈ net.transport) ∨
      (∃ timer, g = .timerExpired timer ∧ (peer, ⟨topic, .gossip timer⟩) ∈ net.timers) ∨
      ∃ sender, g = .neighborDown sender := by
  cases hin with
  | @message sender message hmem =>
    obtain ⟨t, m⟩ := message
    simp only [Proto.InEvent.forTopic, Proto.InEvent.mapped, Option.ite_none_right_eq_some,
      Option.some.injEq] at hf
    obtain ⟨rfl, rfl⟩ := hf
    cases m with
    | swarm m => simp [Topic.InEvent.gossipInput] at hg
    | gossip m =>
      simp only [Topic.InEvent.gossipInput, Option.some.injEq] at hg
      exact .inl ⟨sender, m, hg.symm, hmem⟩
  | @disconnected sender hmem =>
    simp only [Proto.InEvent.forTopic, Proto.InEvent.mapped, Option.some.injEq] at hf
    subst hf
    simp only [Topic.InEvent.gossipInput, Option.some.injEq] at hg
    exact .inr (.inr ⟨sender, hg.symm⟩)
  | @timer timer hmem =>
    obtain ⟨t, tm⟩ := timer
    simp only [Proto.InEvent.forTopic, Proto.InEvent.mapped, Option.ite_none_right_eq_some,
      Option.some.injEq] at hf
    obtain ⟨rfl, rfl⟩ := hf
    cases tm with
    | swarm tm => simp [Topic.InEvent.gossipInput] at hg
    | gossip tm =>
      simp only [Topic.InEvent.gossipInput, Option.some.injEq] at hg
      exact .inr (.inl ⟨tm, hg.symm, hmem⟩)

variable (q : PI) (i : MessageId) (topic : TopicId)

/-- Node `q` waits in `topic` for payload `i`, which every other member holds, and
nothing in the network can still bring it: no graft timer of `q` for it, no packet
with it to `q`, no graft for it from `q`; and `q` has delivered no payload with
that id. -/
structure Awaiting (net : Network PI RG) : Prop where
  waits : ∀ st, net.topicState q topic = some st → Awaits i st.gossip
  holds : ∀ p st, p ≠ q → net.topicState p topic = some st → Holds i st.gossip
  unarmed : (q, ⟨topic, .gossip (.sendGraft i)⟩) ∉ net.timers
  unsent : ∀ sender g, (sender, q, .message ⟨topic, .gossip (.gossip g)⟩) ∈ net.transport →
    g.id ≠ i
  unasked : ∀ target round,
    (q, target, .message ⟨topic, .gossip (.graft ⟨some i, round⟩)⟩) ∉ net.transport
  undelivered : ∀ ev, (q, topic, .received ev) ∈ net.events → fromContent ev.content ≠ i

variable {fromContent q i topic}

/-- With nothing in flight, the state is what the nodes hold and what `q` delivered:
each of these is decidable. -/
theorem Awaiting.of_quiet {net : Network PI RG} (htr : net.transport = [])
    (hw : ∀ st ∈ net.topicState q topic, Awaits i st.gossip)
    (hh : ∀ p ∈ net.peers.keys, p ≠ q → ∀ st ∈ net.topicState p topic, Holds i st.gossip)
    (ht : (q, ⟨topic, .gossip (.sendGraft i)⟩) ∉ net.timers)
    (hd : ∀ ev ∈ net.delivered q topic, fromContent ev.content ≠ i) :
    Awaiting fromContent q i topic net where
  waits := hw
  holds p st hne h := hh p (mem_keys_of_topicState h) hne st h
  unarmed := ht
  unsent _ _ hm := by simp [htr] at hm
  unasked _ _ hm := by simp [htr] at hm
  undelivered ev hm := hd ev (mem_delivered.mpr hm)

/-- Taking a packet or a timer out keeps the state. -/
theorem Awaiting.of_routed_nil {net net₁ : Network PI RG} {peer : PI}
    (ha : Awaiting fromContent q i topic net) (hr : Routed peer [] net net₁) :
    Awaiting fromContent q i topic net₁ := by
  have hts : ∀ p, net₁.topicState p topic = net.topicState p topic := fun p => by
    simp only [topicState, hr.peers]
  refine ⟨fun st h => ha.waits st (hts q ▸ h), fun p st hne h => ha.holds p st hne (hts p ▸ h),
    fun hm => ?_, fun sender g hm => ?_, fun target round hm => ?_, fun ev hm => ?_⟩
  · rcases hr.timers _ hm with hm | ⟨-, d, hd⟩
    · exact ha.unarmed hm
    · simp at hd
  · rcases hr.transport _ hm with hm | ⟨-, ⟨m, -, hd⟩ | ⟨-, hd⟩⟩
    · exact ha.unsent sender g hm
    all_goals simp at hd
  · rcases hr.transport _ hm with hm | ⟨-, ⟨m, -, hd⟩ | ⟨-, hd⟩⟩
    · exact ha.unasked target round hm
    all_goals simp at hd
  · rcases hr.events _ hm with hm | ⟨-, hd⟩
    · exact ha.undelivered ev hm
    · simp at hd

/-- **The waiting node's step.** Under an event that brings Plumtree nothing with the
payload and does not fire its graft timer, the node keeps waiting and emits nothing
about the payload. -/
theorem Awaiting.handleAt_self {net net' : Network PI RG} {event : Proto.InEvent PI}
    (ha : Awaiting fromContent q i topic net)
    (hjoin : ∀ t peers, event ≠ .command t (.join peers))
    (hspares : ∀ e g, event.forTopic topic = some e → e.gossipInput = some g → Spares i g)
    (h : net.handleAt R fromContent q event = .ok net') :
    Awaiting fromContent q i topic net' := by
  obtain ⟨state, state', out, hlookup, hh, hr⟩ := handleAt_eq_ok R fromContent h
  have hts : net.topicState q topic = state.states.lookup topic := by
    simp [topicState, hlookup]
  have hstep : ∀ {t : TopicId} {e : Topic.InEvent PI} {st st' : Topic.State PI RG}
      {o : Topic.Outbox PI}, event.forTopic t = some e → (t = topic → Awaits i st.gossip) →
      st.handle R fromContent e net.time = .ok (st', o) →
      (t = topic → Awaits i st'.gossip) ∧
        ∀ x ∈ o, t = topic → Topic.Lifted (fun y => ¬ Touches fromContent i y) x := by
    intro t e st st' o hf hq hs
    by_cases ht : t = topic
    · subst ht
      obtain ⟨hw, ho⟩ := Topic.State.handle_lift (E := Spares i)
        (fun he hq hr => handle_awaits hr hq he) (fun _ => trivial) (fun _ => trivial)
        (fun g hg => hspares e g hf hg) (hq rfl) hs
      exact ⟨fun _ => hw, fun x hx _ => ho x hx⟩
    · exact ⟨fun h => absurd h ht, fun _ _ h => absurd h ht⟩
  have hq : ∀ t st, state.states.lookup t = some st → t = topic → Awaits i st.gossip := by
    intro t st hst ht
    subst ht
    exact ha.waits st (hts ▸ hst)
  obtain ⟨hq', ho⟩ := Proto.State.handle_lift hjoin hstep hq hh
  have hp : net'.peers = net.peers.insert q state' := hr.peers
  refine ⟨fun st hst => ?_, fun p st hne hst => ?_, fun hm => ?_, fun sender g hm => ?_,
    fun target round hm => ?_, fun ev hm => ?_⟩
  · rw [topicState_of_peers hp] at hst
    exact hq' topic st hst rfl
  · rw [topicState_of_peers_ne hp hne] at hst
    exact ha.holds p st hne hst
  · rcases hr.timers _ hm with hm | ⟨-, d, hd⟩
    · exact ha.unarmed hm
    · exact Proto.lifted_of_tagged ho (z := .scheduleTimer d (.sendGraft i)) hd rfl
  · rcases hr.transport _ hm with hm | ⟨-, ⟨m, hm', hd⟩ | ⟨hd, -⟩⟩
    · exact ha.unsent sender g hm
    · cases hm'
      exact Proto.lifted_of_tagged ho (z := .sendMessage q (.gossip g)) hd
    · cases hd
  · rcases hr.transport _ hm with hm | ⟨-, ⟨m, hm', hd⟩ | ⟨hd, -⟩⟩
    · exact ha.unasked target round hm
    · cases hm'
      exact Proto.lifted_of_tagged ho (z := .sendMessage target (.graft ⟨some i, round⟩)) hd rfl
    · cases hd
  · rcases hr.events _ hm with hm | ⟨-, hd⟩
    · exact ha.undelivered ev hm
    · exact Proto.lifted_of_tagged ho (z := .emitEvent (.received ev)) hd

/-- **Another node's step.** A member holds the payload through every event but a
broadcast and a graft for it from `q`, and sends it to `q` only in answer to one. -/
theorem Awaiting.handleAt_other {net net' : Network PI RG} {peer : PI}
    {event : Proto.InEvent PI} (hne : peer ≠ q) (ha : Awaiting fromContent q i topic net)
    (hjoin : ∀ t peers, event ≠ .command t (.join peers))
    (hasks : ∀ e g, event.forTopic topic = some e → e.gossipInput = some g →
      (∀ content scope, g ≠ .broadcast content scope) ∧
        ∀ round, g ≠ .recvMessage q (.graft ⟨some i, round⟩))
    (h : net.handleAt R fromContent peer event = .ok net') :
    Awaiting fromContent q i topic net' := by
  obtain ⟨state, state', out, hlookup, hh, hr⟩ := handleAt_eq_ok R fromContent h
  have hts : net.topicState peer topic = state.states.lookup topic := by
    simp [topicState, hlookup]
  have hstep : ∀ {t : TopicId} {e : Topic.InEvent PI} {st st' : Topic.State PI RG}
      {o : Topic.Outbox PI}, event.forTopic t = some e → (t = topic → Holds i st.gossip) →
      st.handle R fromContent e net.time = .ok (st', o) →
      (t = topic → Holds i st'.gossip) ∧ ∀ x ∈ o, t = topic →
        Topic.Lifted (fun y => ∀ g, y = .sendMessage q (.gossip g) → g.id ≠ i) x := by
    intro t e st st' o hf hq hs
    by_cases ht : t = topic
    · subst ht
      have hgossip : ∀ {g g' : Plumtree.State PI} {e : Plumtree.InEvent PI} {now : Nat}
          {io io' : Plumtree.Outbox PI},
          ((∀ content scope, e ≠ .broadcast content scope) ∧
            ∀ round, e ≠ .recvMessage q (.graft ⟨some i, round⟩)) →
          Holds i g → g.handle fromContent e now io = .ok (g', io') →
          Holds i g' ∧ ∀ x ∈ io', x ∈ io ∨ ∀ g, x = .sendMessage q (.gossip g) → g.id ≠ i := by
        intro g g' e now io io' he hg hr
        obtain ⟨hh', hx⟩ := handle_holds hr hg he.1
        refine ⟨hh', fun x hx' => (hx x hx').imp_right fun hsend m hxm hid => ?_⟩
        obtain ⟨round, he'⟩ := hsend q m hxm hid
        exact he.2 round he'
      obtain ⟨hw, ho⟩ := Topic.State.handle_lift hgossip (fun _ => ⟨by simp, by simp⟩)
        (fun _ => ⟨by simp, by simp⟩) (fun g hg => hasks e g hf hg) (hq rfl) hs
      exact ⟨fun _ => hw, fun x hx _ => ho x hx⟩
    · exact ⟨fun h => absurd h ht, fun _ _ h => absurd h ht⟩
  have hq : ∀ t st, state.states.lookup t = some st → t = topic → Holds i st.gossip := by
    intro t st hst ht
    subst ht
    exact ha.holds peer st hne (hts ▸ hst)
  obtain ⟨hq', ho⟩ := Proto.State.handle_lift hjoin hstep hq hh
  have hp : net'.peers = net.peers.insert peer state' := hr.peers
  refine ⟨fun st hst => ?_, fun p st hpq hst => ?_, fun hm => ?_, fun sender g hm => ?_,
    fun target round hm => ?_, fun ev hm => ?_⟩
  · rw [topicState_of_peers_ne hp (Ne.symm hne)] at hst
    exact ha.waits st hst
  · by_cases hpp : p = peer
    · subst hpp
      rw [topicState_of_peers hp] at hst
      exact hq' topic st hst rfl
    · rw [topicState_of_peers_ne hp hpp] at hst
      exact ha.holds p st hpq hst
  · rcases hr.timers _ hm with hm | ⟨hpeer, -⟩
    · exact ha.unarmed hm
    · exact hne hpeer.symm
  · rcases hr.transport _ hm with hm | ⟨-, ⟨m, hm', hd⟩ | ⟨hd, -⟩⟩
    · exact ha.unsent sender g hm
    · cases hm'
      exact Proto.lifted_of_tagged ho (z := .sendMessage q (.gossip g)) hd g rfl
    · cases hd
  · rcases hr.transport _ hm with hm | ⟨hpeer, -⟩
    · exact ha.unasked target round hm
    · exact hne hpeer.symm
  · rcases hr.events _ hm with hm | ⟨hpeer, -⟩
    · exact ha.undelivered ev hm
    · exact absurd hpeer.symm hne

/-- **Every step other than a command keeps the state.** The packet or timer a step
hands a node is one the state says nothing brings the payload with. -/
theorem Awaiting.step {net net' : Network PI RG} {action : Action PI}
    (hc : action.isCommand = false) (ha : Awaiting fromContent q i topic net)
    (h : net.step R fromContent action = .ok net') : Awaiting fromContent q i topic net' := by
  rcases step_eq_ok R fromContent hc h with ⟨delay, rfl⟩ | ⟨peer, event, net₁, hin, hr, h⟩
  · exact ⟨ha.waits, ha.holds, ha.unarmed, ha.unsent, ha.unasked, ha.undelivered⟩
  have ha₁ := ha.of_routed_nil hr
  by_cases hpeer : peer = q
  · subst hpeer
    refine ha₁.handleAt_self R hin.not_join (fun e g hf hg => ?_) h
    rcases hin.gossipInput hf hg with ⟨sender, m, rfl, hm⟩ | ⟨timer, rfl, hm⟩ | ⟨sender, rfl⟩
    · cases m with
      | gossip g => exact ha.unsent sender g hm
      | _ => trivial
    · cases timer with
      | sendGraft id =>
        rintro rfl
        exact ha.unarmed hm
      | _ => trivial
    · trivial
  · refine ha₁.handleAt_other R hpeer hin.not_join (fun e g hf hg => ?_) h
    rcases hin.gossipInput hf hg with ⟨sender, m, rfl, hm⟩ | ⟨timer, rfl, -⟩ | ⟨sender, rfl⟩
    · refine ⟨by simp, fun round hg' => ?_⟩
      obtain ⟨rfl, rfl⟩ := Plumtree.InEvent.recvMessage.inj hg'
      exact ha.unasked peer round hm
    all_goals exact ⟨by simp, by simp⟩

/-- **Along every run of steps other than commands**, the state is kept. -/
theorem Awaiting.run {net net' : Network PI RG} {actions : List (Action PI)}
    (hc : ∀ a ∈ actions, a.isCommand = false) (ha : Awaiting fromContent q i topic net)
    (h : net.run R fromContent actions = .ok net') : Awaiting fromContent q i topic net' :=
  run_invariant R fromContent (fun a => a.isCommand = false) (Awaiting fromContent q i topic)
    (fun hc ha h => ha.step R hc h) hc ha h

/-! ### An announcement after the graft timers ran out -/

/-- Four nodes join topic A through node 0, and node 3 through all three others.
Node 0 broadcasts payload 9 and quits, after node 1 has quit; node 3 hears of 9
first by an `IHave` from 0 and grafts 0, which is gone, and its timer chain ends
with 9 still marked as scheduled. Then node 2, which holds 9 and is 3's neighbor,
announces it to 3: the `IHave` is the only packet in flight. Whatever happens
afterwards without a command, node 3 never delivers 9. -/
theorem late_ihave_never_grafted :
    let R : Rng Unit := ⟨fun g _ => (0, g), fun _ _ h => h⟩
    let fromContent : List UInt8 → MessageId := fun c => ⟨(c.headD 0).toNat, by
      have := (c.headD 0).toNat_lt; omega⟩
    let A := Proto.topicA
    ∃ net₁ net, (Network.new [.new 0 ⟨[]⟩ .default (), .new 1 ⟨[]⟩ .default (),
        .new 2 ⟨[]⟩ .default (), .new 3 ⟨[]⟩ .default ()]).run R fromContent
        ([.command 0 A (.join []), .command 1 A (.join [0]), .command 2 A (.join [0]),
            .command 3 A (.join [0, 1, 2])] ++ List.replicate 19 (.deliver 0) ++
          [.command 1 A (.broadcast [5] .swarm), .deliver 0, .deliver 0, .deliver 2, .deliver 1] ++
          List.replicate 7 (.deliver 0) ++ List.replicate 4 (.fire 8) ++ [.command 1 A .quit] ++
          List.replicate 6 (.deliver 0) ++
          [.command 0 A (.broadcast [9] .swarm), .fire 8, .deliver 1, .deliver 0,
            .command 0 A .quit] ++
          List.replicate 5 (.deliver 0) ++ [.fire 8, .fire 8] ++ List.replicate 3 (.deliver 0)) =
        .ok net₁ ∧
      net₁.transport = [(2, 3, .message ⟨A, .gossip (.iHave [⟨fromContent [9], ⟨1⟩⟩])⟩)] ∧
      net₁.step R fromContent (.deliver 0) = .ok net ∧
      (∃ st, net.topicState 2 A = some st ∧ 3 ∈ st.swarm.activeView ∧
        ∃ x ∈ st.gossip.cache.entries, x.2.2.content = [9]) ∧
      (∃ st, net.topicState 3 A = some st ∧ 2 ∈ st.swarm.activeView) ∧
      ∀ actions net', (∀ a ∈ actions, a.isCommand = false) →
        net.run R fromContent actions = .ok net' →
        ∀ ev, (3, A, .received ev) ∈ net'.events → ev.content ≠ [9] := by
  refine ⟨_, _, rfl, rfl, rfl, ⟨_, rfl, by decide, by decide⟩, ⟨_, rfl, by decide⟩, ?_⟩
  intro actions net' hc hrun ev hev hcontent
  refine (Awaiting.run _ hc (Awaiting.of_quiet (q := 3) (i := ⟨9, by decide⟩) ?_ ?_ ?_ ?_ ?_)
    hrun).undelivered ev hev (by rw [hcontent]; rfl)
  all_goals decide

end Network

end Iroh.Gossip.Simulator
