import Iroh.Gossip.Topic
import Iroh.Gossip.Views
import Iroh.Gossip.PushPeers

/-! The neighbors of a topic, and the peers its broadcast layer pushes to.

A topic emits exactly the `NeighborUp` and `NeighborDown` events HyParView emits,
and Plumtree emits none. So, by `Moves.events`, every peer's neighbor events
alternate from `NeighborUp`, and the last one says whether the peer is active
(`NeighborsInv.follows`).

The topic forwards the same events to Plumtree, in order, and Plumtree sets a peer's
membership in its push peers by each of them (`Sets`). So a peer that the events
leave active is a push peer, and one they leave inactive is not. Everything else
Plumtree does to its push peers is `Grows`: it adds the sender of a broadcast-layer
message, or a peer that announced a payload, which was itself the sender of an
`IHave`. A topic accepts broadcast-layer messages from any peer, neighbor or not, so
those senders can stay push peers without being active; every other push peer is
active. On `PeerDisconnected` the topic also tells Plumtree `NeighborDown` itself,
after HyParView has dropped the peer from the active view. -/

namespace Iroh.Gossip

namespace Hyparview.State

variable {PI RG : Type} [DecidableEq PI] {R : Rng RG}

/-- A disconnected peer is not active afterwards. -/
theorem handle_peerDisconnected {s s' : State PI RG} {peer : PI} {io io' : Outbox PI}
    (hr : s.handle R (.peerDisconnected peer) io = .ok (s', io')) : peer ∉ s'.activeView := by
  unfold handle at hr
  split at hr
  · cases hr
  · rename_i s₁ io₁ h₁
    have hout := (onDisconnect_moves (Except.ok.inj h₁)).2
    split at hr <;> cases hr <;> exact hout

end Hyparview.State

namespace Topic

variable {PI : Type}

/-- The sender of a broadcast-layer message. -/
def InEvent.gossipSender : InEvent PI → Option PI
  | .recvMessage sender (.gossip _) => some sender
  | _ => none

/-- The senders of the broadcast-layer messages among the inputs. -/
def gossipSenders (inputs : List (InEvent PI × Nat)) : List PI :=
  inputs.filterMap fun input => input.1.gossipSender

theorem mem_gossipSenders_append {inputs : List (InEvent PI × Nat)} {input : InEvent PI × Nat}
    {p : PI} : p ∈ gossipSenders (inputs ++ [input]) ↔
      p ∈ gossipSenders inputs ∨ input.1.gossipSender = some p := by
  simp [gossipSenders]

variable [DecidableEq PI]

/-- A topic's neighbor events, as HyParView emits them. -/
def OutEvent.swarmNeighbor : OutEvent PI → Option (Hyparview.OutEvent PI)
  | .emitEvent (.neighborUp q) => some (.emitEvent (.neighborUp q))
  | .emitEvent (.neighborDown q) => some (.emitEvent (.neighborDown q))
  | _ => none

/-- A peer's neighbor events among a topic's output, as switch events: `NeighborUp` is on. -/
def neighborFlags (p : PI) (out : Outbox PI) : List Bool :=
  Hyparview.State.neighborFlags p (out.filterMap OutEvent.swarmNeighbor)

@[simp] theorem neighborFlags_append (p : PI) (out₁ out₂ : Outbox PI) :
    neighborFlags p (out₁ ++ out₂) = neighborFlags p out₁ ++ neighborFlags p out₂ := by
  simp [neighborFlags]

@[simp] theorem neighborFlags_nil (p : PI) : neighborFlags p ([] : Outbox PI) = [] := rfl

theorem neighborFlags_cons_neighborUp (p q : PI) (out : Outbox PI) :
    neighborFlags p (.emitEvent (.neighborUp q) :: out) =
      (if q = p then [true] else []) ++ neighborFlags p out := by
  rw [← Hyparview.State.neighborFlags_up, neighborFlags, neighborFlags, ← Hyparview.State.neighborFlags_append]
  rfl

theorem neighborFlags_cons_neighborDown (p q : PI) (out : Outbox PI) :
    neighborFlags p (.emitEvent (.neighborDown q) :: out) =
      (if q = p then [false] else []) ++ neighborFlags p out := by
  rw [← Hyparview.State.neighborFlags_down, neighborFlags, neighborFlags, ← Hyparview.State.neighborFlags_append]
  rfl

theorem neighborFlags_ofSwarm (p : PI) (e : Hyparview.OutEvent PI) :
    neighborFlags p [OutEvent.ofSwarm e] = Hyparview.State.neighborFlags p [e] := by
  match e with
  | .sendMessage _ _ => rfl
  | .scheduleTimer _ _ => rfl
  | .disconnectPeer _ => rfl
  | .emitEvent (.neighborUp _) => rfl
  | .emitEvent (.neighborDown _) => rfl
  | .peerData _ _ => rfl

/-- The topic emits HyParView's neighbor events as they are. -/
@[simp] theorem neighborFlags_map_ofSwarm (p : PI) (out : Hyparview.Outbox PI) :
    neighborFlags p (out.map OutEvent.ofSwarm) = Hyparview.State.neighborFlags p out := by
  induction out with
  | nil => rfl
  | cons e out ih =>
    rw [List.map_cons, ← List.singleton_append, neighborFlags_append, ih, neighborFlags_ofSwarm,
      ← Hyparview.State.neighborFlags_append, List.singleton_append]

/-- Plumtree emits no neighbor events. -/
@[simp] theorem neighborFlags_map_ofGossip (p : PI) (out : Plumtree.Outbox PI) :
    neighborFlags p (out.map OutEvent.ofGossip) = [] := by
  have hnone : out.filterMap (OutEvent.swarmNeighbor ∘ OutEvent.ofGossip) = [] :=
    List.filterMap_eq_nil_iff.mpr fun e _ => by
      match e with
      | .sendMessage _ _ => rfl
      | .scheduleTimer _ _ => rfl
      | .emitEvent (.received _) => rfl
  rw [neighborFlags, List.filterMap_map, hnone]
  rfl

theorem neighborFlags_cons_of_neighborInput {e : OutEvent PI} (h : e.neighborInput = none)
    (p : PI) (out : Outbox PI) : neighborFlags p (e :: out) = neighborFlags p out := by
  have hswarm : e.swarmNeighbor = none := by
    match e, h with
    | .sendMessage _ _, _ => rfl
    | .emitEvent (.received _), _ => rfl
    | .scheduleTimer _ _, _ => rfl
    | .disconnectPeer _, _ => rfl
    | .peerData _ _, _ => rfl
  rw [neighborFlags, List.filterMap_cons_none hswarm]
  rfl

omit [DecidableEq PI] in
/-- The events forwarded to Plumtree are the neighbor events, as the same input. -/
theorem neighborInput_eq_some {e : OutEvent PI} {input : Plumtree.InEvent PI} (h : e.neighborInput = some input) :
    (∃ q, e = .emitEvent (.neighborUp q) ∧ input = .neighborUp q) ∨
      ∃ q, e = .emitEvent (.neighborDown q) ∧ input = .neighborDown q := by
  cases e with
  | emitEvent ev =>
    cases ev with
    | neighborUp q => exact .inl ⟨q, rfl, (Option.some.inj h).symm⟩
    | neighborDown q => exact .inr ⟨q, rfl, (Option.some.inj h).symm⟩
    | received _ => cases h
  | sendMessage _ _ => cases h
  | scheduleTimer _ _ => cases h
  | disconnectPeer _ => cases h
  | peerData _ _ => cases h

namespace State

open Plumtree.State (PushPeer MissingPeer PushDisjoint Grows Sets)

variable {RG : Type} {R : Rng RG} {fromContent : List UInt8 → Plumtree.MessageId}

/-! ### The forwarding loop -/

/-- Plumtree's push peers after the forwarding loop: each peer's membership is set by
its neighbor events in the outbox. -/
theorem forwardNeighborEvents_sets {g g' : Plumtree.State PI} {now : Nat} {outbox : Outbox PI}
    {io io' : Plumtree.Outbox PI}
    (h : forwardNeighborEvents fromContent g now outbox io = .ok (g', io')) :
    Sets g g' fun p => neighborFlags p outbox := by
  induction outbox generalizing g io with
  | nil =>
    cases h
    exact .frame (.refl _)
  | cons e outbox ih =>
    unfold forwardNeighborEvents at h
    split at h
    · rename_i input hin
      split at h
      · cases h
      · rename_i g₁ io₁ h₁
        rcases neighborInput_eq_some hin with ⟨q, rfl, rfl⟩ | ⟨q, rfl, rfl⟩
        · simpa only [neighborFlags_cons_neighborUp] using
            (Plumtree.State.handle_neighborUp h₁).trans (ih h)
        · simpa only [neighborFlags_cons_neighborDown] using
            (Plumtree.State.handle_neighborDown h₁).trans (ih h)
    · rename_i hin
      simpa only [neighborFlags_cons_of_neighborInput hin] using ih h

/-! ### The first part of a step -/

/-- HyParView handlers run into the outbox: the gossip state stays, and the neighbor
events appended flip the active view. -/
structure SwarmMoves (s : State PI RG) (io : Outbox PI) (s₁ : State PI RG) (io₁ : Outbox PI) :
    Prop where
  gossip : s₁.gossip = s.gossip
  events : ∃ new, io₁ = io ++ new ∧ ∀ p,
    Toggle.follow (decide (p ∈ s.swarm.activeView)) (neighborFlags p new) =
      some (decide (p ∈ s₁.swarm.activeView))

theorem SwarmMoves.refl (s : State PI RG) (io : Outbox PI) : SwarmMoves s io s io :=
  ⟨rfl, [], (List.append_nil io).symm, fun _ => rfl⟩

theorem SwarmMoves.trans {s₁ s₂ s₃ : State PI RG} {io₁ io₂ io₃ : Outbox PI}
    (h₁ : SwarmMoves s₁ io₁ s₂ io₂) (h₂ : SwarmMoves s₂ io₂ s₃ io₃) : SwarmMoves s₁ io₁ s₃ io₃ where
  gossip := h₂.gossip.trans h₁.gossip
  events := by
    obtain ⟨new₁, rfl, hf₁⟩ := h₁.events
    obtain ⟨new₂, rfl, hf₂⟩ := h₂.events
    refine ⟨new₁ ++ new₂, List.append_assoc _ _ _, fun p => ?_⟩
    rw [neighborFlags_append]
    exact Toggle.follow_trans (hf₁ p) (hf₂ p)

/-- A HyParView step into the outbox, by `Moves.events`. -/
theorem swarmHandle_moves {s s₁ : State PI RG} {event : Hyparview.InEvent PI} {io io₁ : Outbox PI}
    (h : s.swarmHandle R event io = .ok (s₁, io₁)) : SwarmMoves s io s₁ io₁ := by
  unfold swarmHandle at h
  split at h
  · cases h
  · rename_i swarm out hs
    cases h
    obtain ⟨new, hnew, hf⟩ := (Hyparview.State.handle_moves hs).events
    rw [List.nil_append] at hnew
    subst hnew
    exact ⟨rfl, _, rfl, fun p => by rw [neighborFlags_map_ofSwarm]; exact hf p⟩

theorem swarmHandle_swarm {s s₁ : State PI RG} {event : Hyparview.InEvent PI} {io io₁ : Outbox PI}
    (h : s.swarmHandle R event io = .ok (s₁, io₁)) :
    ∃ out, s.swarm.handle R event [] = .ok (s₁.swarm, out) := by
  unfold swarmHandle at h
  split at h
  · cases h
  · rename_i swarm out hs
    cases h
    exact ⟨out, hs⟩

theorem joinAll_moves {s s₁ : State PI RG} {peers : List PI} {io io₁ : Outbox PI}
    (h : s.joinAll R peers io = .ok (s₁, io₁)) : SwarmMoves s io s₁ io₁ := by
  induction peers generalizing s io with
  | nil =>
    cases h
    exact .refl _ _
  | cons peer peers ih =>
    unfold joinAll at h
    split at h
    · cases h
    · rename_i s₂ io₂ hs
      exact (swarmHandle_moves hs).trans (ih h)

/-- A Plumtree step into the outbox: the swarm stays, and no neighbor events. -/
theorem gossipHandle_spec {s s₁ : State PI RG} {event : Plumtree.InEvent PI} {now : Nat}
    {io io₁ : Outbox PI} (h : s.gossipHandle fromContent event now io = .ok (s₁, io₁)) :
    s₁.swarm = s.swarm ∧ (∀ p, neighborFlags p io₁ = neighborFlags p io) ∧
      ∃ out, s.gossip.handle fromContent event now [] = .ok (s₁.gossip, out) := by
  unfold gossipHandle at h
  split at h
  · cases h
  · rename_i gossip out hg
    cases h
    exact ⟨rfl, fun p => by simp, out, hg⟩

/-- What processing an event does, before the forwarding: the neighbor events flip the
active view; Plumtree's push peers stay disjoint and grow, but a peer that the events
leave alone and that stays active is kept; and the peers added are the sender of a
broadcast-layer message, or peers of missing announcements. -/
structure Processes (s : State PI RG) (event : InEvent PI) (s₁ : State PI RG) (outbox : Outbox PI) :
    Prop where
  emits : ∀ p, Toggle.follow (decide (p ∈ s.swarm.activeView)) (neighborFlags p outbox) =
    some (decide (p ∈ s₁.swarm.activeView))
  disjoint : PushDisjoint s.gossip → PushDisjoint s₁.gossip
  keep : ∀ p, p ∈ s₁.swarm.activeView → neighborFlags p outbox = [] →
    s.gossip.PushPeer p → s₁.gossip.PushPeer p
  added : ∀ p, s₁.gossip.PushPeer p →
    s.gossip.PushPeer p ∨ event.gossipSender = some p ∨ s.gossip.MissingPeer p
  missing : ∀ p, s₁.gossip.MissingPeer p → s.gossip.MissingPeer p ∨ event.gossipSender = some p

/-- A peer without neighbor events in the outbox keeps its place in the active view. -/
theorem Processes.active_of_nil {s s₁ : State PI RG} {event : InEvent PI} {outbox : Outbox PI}
    (h : Processes s event s₁ outbox) {p : PI} (hp : neighborFlags p outbox = []) :
    p ∈ s₁.swarm.activeView ↔ p ∈ s.swarm.activeView := by
  have hf := h.emits p
  rw [hp, Toggle.follow_nil, Option.some.injEq, decide_eq_decide] at hf
  exact hf.symm

/-- An event for HyParView alone. -/
theorem Processes.ofSwarm {s s₁ : State PI RG} {event : InEvent PI} {outbox : Outbox PI}
    (h : SwarmMoves s [] s₁ outbox) : Processes s event s₁ outbox where
  emits p := by
    obtain ⟨new, rfl, hf⟩ := h.events
    exact hf p
  disjoint hd := h.gossip ▸ hd
  keep _ _ _ hp := h.gossip ▸ hp
  added _ hp := .inl (h.gossip ▸ hp)
  missing _ hp := .inl (h.gossip ▸ hp)

/-- An event for Plumtree alone, which is no neighbor event. -/
theorem Processes.ofGossip {s s₁ : State PI RG} {event : InEvent PI} {ev : Plumtree.InEvent PI}
    {now : Nat} {outbox : Outbox PI} (h : s.gossipHandle fromContent ev now [] = .ok (s₁, outbox))
    (hup : ∀ q, ev ≠ .neighborUp q) (hdown : ∀ q, ev ≠ .neighborDown q)
    (hsender : ev.sender = event.gossipSender) : Processes s event s₁ outbox := by
  obtain ⟨hswarm, hflags, out, hg⟩ := gossipHandle_spec h
  have hgrows := Plumtree.State.handle_grows hup hdown hg
  rw [hsender] at hgrows
  refine ⟨fun p => ?_, hgrows.disjoint, fun p _ _ => hgrows.keep p, hgrows.added, fun p hp => ?_⟩
  · rw [hflags p, hswarm]
    rfl
  · rcases hgrows.missing p hp with h | h | h
    · exact .inl h
    · exact .inr h
    · exact .inl h

/-- `PeerDisconnected`: HyParView drops the peer, then Plumtree drops it too. -/
theorem Processes.peerDisconnected {s s₁ : State PI RG} {peer : PI} {now : Nat}
    {outbox : Outbox PI}
    (h : s.process R fromContent (.peerDisconnected peer) now = .ok (s₁, outbox)) :
    Processes s (.peerDisconnected peer) s₁ outbox := by
  dsimp only [process] at h
  split at h
  · cases h
  · rename_i s₂ io₂ hs
    have hm := swarmHandle_moves hs
    have hgone : peer ∉ s₂.swarm.activeView := by
      obtain ⟨_, hsw⟩ := swarmHandle_swarm hs
      exact Hyparview.State.handle_peerDisconnected hsw
    obtain ⟨hswarm, hflags, out, hg⟩ := gossipHandle_spec h
    have hsets := Plumtree.State.handle_neighborDown hg
    rw [hm.gossip] at hsets
    have hother : ∀ p, p ≠ peer → (s₁.gossip.PushPeer p ↔ s.gossip.PushPeer p) := fun p hp =>
      hsets.pushPeer_of_nil (if_neg (Ne.symm hp))
    refine ⟨fun p => ?_, fun hd => hsets.disjoint hd, fun p hp _ hpp => ?_, fun p hp => ?_,
      fun p hp => .inl (hsets.missing p hp)⟩
    · obtain ⟨new, rfl, hf⟩ := hm.events
      rw [hflags p, hswarm]
      exact hf p
    · have hne : p ≠ peer := fun he => hgone (he ▸ hswarm ▸ hp)
      exact (hother p hne).mpr hpp
    · by_cases hne : p = peer
      · subst hne
        have := (hsets.pushPeer_iff p).mp hp
        simp at this
      · exact .inl ((hother p hne).mp hp)

/-- **What processing any event does.** -/
theorem process_processes {s s₁ : State PI RG} {event : InEvent PI} {now : Nat}
    {outbox : Outbox PI} (h : s.process R fromContent event now = .ok (s₁, outbox)) :
    Processes s event s₁ outbox := by
  cases event with
  | recvMessage sender message =>
    cases message with
    | swarm m => exact .ofSwarm (swarmHandle_moves h)
    | gossip m => exact .ofGossip h (fun _ => nofun) (fun _ => nofun) rfl
  | command command =>
    cases command with
    | join peers => exact .ofSwarm (joinAll_moves h)
    | broadcast data scope =>
      have h : s.gossipHandle fromContent (.broadcast data scope) now [] = _ := h
      exact .ofGossip h (fun _ => nofun) (fun _ => nofun) rfl
    | quit => exact .ofSwarm (swarmHandle_moves h)
  | timerExpired timer =>
    cases timer with
    | swarm timer => exact .ofSwarm (swarmHandle_moves h)
    | gossip timer => exact .ofGossip h (fun _ => nofun) (fun _ => nofun) rfl
  | peerDisconnected peer => exact .peerDisconnected h
  | updatePeerData data => exact .ofSwarm (swarmHandle_moves h)

/-- A step of the topic: processing, then the forwarding loop, whose Plumtree outputs
carry no neighbor events. -/
theorem handle_spec {s s' : State PI RG} {event : InEvent PI} {now : Nat} {out : Outbox PI}
    (h : s.handle R fromContent event now = .ok (s', out)) :
    ∃ s₁ outbox g, Processes s event s₁ outbox ∧ Sets s₁.gossip g (fun p => neighborFlags p outbox) ∧
      s' = { s₁ with gossip := g } ∧ ∀ p, neighborFlags p out = neighborFlags p outbox := by
  unfold handle at h
  split at h
  · cases h
  · rename_i s₁ outbox hp
    split at h
    · cases h
    · rename_i g io hf
      cases h
      exact ⟨s₁, outbox, g, process_processes hp, forwardNeighborEvents_sets hf, rfl,
        fun p => by simp⟩

/-! ### The invariant -/

/-- What holds after every run of a topic: each peer's neighbor events alternate from
`NeighborUp` and leave it where the active view has it; the push peers are disjoint,
hold every active peer, and beyond those only senders of broadcast-layer messages; so
do the peers of missing announcements. -/
structure NeighborsInv (inputs : List (InEvent PI × Nat)) (out : Outbox PI) (s : State PI RG) :
    Prop where
  follows : ∀ p, Toggle.follow false (neighborFlags p out) = some (decide (p ∈ s.swarm.activeView))
  disjoint : PushDisjoint s.gossip
  neighbors : ∀ p ∈ s.swarm.activeView, s.gossip.PushPeer p
  senders : ∀ p, s.gossip.PushPeer p → p ∈ s.swarm.activeView ∨ p ∈ gossipSenders inputs
  missing : ∀ p, s.gossip.MissingPeer p → p ∈ gossipSenders inputs

theorem withRng_neighborsInv (me : PI) (meData : Option PeerData) (config : Config) (rng : RG) :
    NeighborsInv [] [] (withRng me meData config rng) where
  follows p := by simp [withRng, Hyparview.State.new]
  disjoint p hp := absurd hp (IndexSet.not_mem_empty p)
  neighbors p hp := absurd hp (IndexSet.not_mem_empty p)
  senders p hp := by simp [withRng, Plumtree.State.new, PushPeer] at hp
  missing p hp := by simp [withRng, Plumtree.State.new, MissingPeer] at hp

/-- **Every step keeps the invariant.** A peer with neighbor events in the step ends, in
both layers, where the last of them sets it; one without keeps its place in the active
view, and its push-peer membership is kept or added by a broadcast-layer message. -/
theorem NeighborsInv.step {inputs : List (InEvent PI × Nat)} {out o : Outbox PI}
    {s s' : State PI RG} {event : InEvent PI} {now : Nat} (hinv : NeighborsInv inputs out s)
    (h : s.handle R fromContent event now = .ok (s', o)) :
    NeighborsInv (inputs ++ [(event, now)]) (out ++ o) s' := by
  obtain ⟨s₁, outbox, g, hp, hsets, rfl, hflags⟩ := handle_spec h
  refine ⟨fun p => ?_, hsets.disjoint (hp.disjoint hinv.disjoint), fun p ha => ?_,
    fun p hpp => ?_, fun p hm => ?_⟩
  · rw [neighborFlags_append, hflags]
    exact Toggle.follow_trans (hinv.follows p) (hp.emits p)
  · by_cases hnil : neighborFlags p outbox = []
    · have hpp := hinv.neighbors p ((hp.active_of_nil hnil).mp ha)
      exact (hsets.pushPeer_of_nil hnil).mpr (hp.keep p ha hnil hpp)
    · exact (hsets.pushPeer_of_follow (hp.emits p) hnil).mpr (decide_eq_true ha)
  · by_cases hnil : neighborFlags p outbox = []
    · rcases hp.added p ((hsets.pushPeer_of_nil hnil).mp hpp) with h₁ | h₁ | h₁
      · rcases hinv.senders p h₁ with h₂ | h₂
        · exact .inl ((hp.active_of_nil hnil).mpr h₂)
        · exact .inr (mem_gossipSenders_append.mpr (.inl h₂))
      · exact .inr (mem_gossipSenders_append.mpr (.inr h₁))
      · exact .inr (mem_gossipSenders_append.mpr (.inl (hinv.missing p h₁)))
    · exact .inl (of_decide_eq_true ((hsets.pushPeer_of_follow (hp.emits p) hnil).mp hpp))
  · rcases hp.missing p (hsets.missing p hm) with h₁ | h₁
    · exact mem_gossipSenders_append.mpr (.inl (hinv.missing p h₁))
    · exact mem_gossipSenders_append.mpr (.inr h₁)

theorem NeighborsInv.run (me : PI) (meData : Option PeerData) (config : Config) (rng : RG)
    {inputs : List (InEvent PI × Nat)} {s : State PI RG} {out : Outbox PI}
    (hrun : Machine.run (fun s e => s.handle R fromContent e.1 e.2) (withRng me meData config rng)
      inputs = .ok (s, out)) : NeighborsInv inputs out s := by
  have h : NeighborsInv ([] ++ inputs) ([] ++ out) s :=
    Machine.run_induction NeighborsInv (fun _ _ _ _ _ _ hinv hs => hinv.step hs)
      (withRng_neighborsInv me meData config rng) hrun
  simpa using h

/-- **Neighbor events mirror the active view; the push peers follow it, but for senders.**
After every run of a topic, for every peer: its `NeighborUp`/`NeighborDown` events
alternate from `NeighborUp`, and it is active iff the last of them is a `NeighborUp`;
an active peer is one of Plumtree's push peers; and a push peer that sent the topic no
broadcast-layer message is active. -/
theorem neighbor_events_mirror_active_view (me : PI) (meData : Option PeerData) (config : Config)
    (rng : RG) (inputs : List (InEvent PI × Nat)) {s : State PI RG} {out : Outbox PI}
    (hrun : Machine.run (fun s e => s.handle R fromContent e.1 e.2) (withRng me meData config rng)
      inputs = .ok (s, out)) (p : PI) :
    Toggle.follow false (neighborFlags p out) = some (decide (p ∈ s.swarm.activeView)) ∧
      (p ∈ s.swarm.activeView → p ∈ s.gossip.eagerPushPeers ∨ p ∈ s.gossip.lazyPushPeers) ∧
      (p ∈ s.gossip.eagerPushPeers ∨ p ∈ s.gossip.lazyPushPeers → p ∉ gossipSenders inputs →
        p ∈ s.swarm.activeView) := by
  have hinv := NeighborsInv.run me meData config rng hrun
  refine ⟨hinv.follows p, hinv.neighbors p, fun hpp hsent => ?_⟩
  exact (hinv.senders p hpp).resolve_right hsent

/-- A `Join` from peer 1, then a `Gossip` from it: it is active and eager. -/
theorem neighbor_events_mirror_active_view_join :
    let R : Rng Unit := ⟨fun g _ => (0, g), fun _ _ h => h⟩
    ∃ s out, Machine.run (fun s e => s.handle R (fun _ => 0) e.1 e.2)
        (withRng 0 none Config.default ())
        [(.recvMessage 1 (.swarm (.join none)), 0),
          (.recvMessage 1 (.gossip (.gossip ⟨0, [7], .swarm ⟨0⟩⟩)), 1)] = .ok (s, out) ∧
      (Toggle.follow false (neighborFlags 1 out) = some (decide (1 ∈ s.swarm.activeView)) ∧
        (1 ∈ s.swarm.activeView → 1 ∈ s.gossip.eagerPushPeers ∨ 1 ∈ s.gossip.lazyPushPeers) ∧
        (1 ∈ s.gossip.eagerPushPeers ∨ 1 ∈ s.gossip.lazyPushPeers →
          1 ∉ gossipSenders [(.recvMessage 1 (.swarm (.join none)), 0),
            (.recvMessage 1 (.gossip (.gossip ⟨0, [7], .swarm ⟨0⟩⟩)), 1)] →
          1 ∈ s.swarm.activeView)) := by
  intro R
  obtain ⟨s, out, h⟩ : ∃ s out, Machine.run (fun s e => s.handle R (fun _ => 0) e.1 e.2)
      (withRng 0 none Config.default ())
      [(.recvMessage 1 (.swarm (.join none)), 0),
        (.recvMessage 1 (.gossip (.gossip ⟨0, [7], .swarm ⟨0⟩⟩)), 1)] = .ok (s, out) :=
    ⟨_, _, rfl⟩
  exact ⟨s, out, h, neighbor_events_mirror_active_view 0 none Config.default () _ h 1⟩

/-- A `Graft` from a peer that is no neighbor makes it eager: Plumtree's peers are not
the active view. -/
theorem graft_from_stranger_makes_eager :
    let R : Rng Unit := ⟨fun g _ => (0, g), fun _ _ h => h⟩
    ∃ s out, Machine.run (fun s e => s.handle R (fun _ => 0) e.1 e.2)
        (withRng 0 none Config.default ())
        [(.recvMessage 1 (.gossip (.graft ⟨none, ⟨0⟩⟩)), 0)] = .ok (s, out) ∧
      1 ∈ s.gossip.eagerPushPeers ∧ 1 ∉ s.swarm.activeView := by
  intro R
  exact ⟨_, _, rfl, by decide, by decide⟩

/-- **Plumtree's push peers stay disjoint, within the neighbors and the senders.** After
every run of a topic, the eager and the lazy push peers are disjoint, and each of them
is active or sent the topic a broadcast-layer message. -/
theorem push_peers_disjoint_within_neighbors (me : PI) (meData : Option PeerData) (config : Config)
    (rng : RG) (inputs : List (InEvent PI × Nat)) {s : State PI RG} {out : Outbox PI}
    (hrun : Machine.run (fun s e => s.handle R fromContent e.1 e.2) (withRng me meData config rng)
      inputs = .ok (s, out)) :
    (∀ p ∈ s.gossip.eagerPushPeers, p ∉ s.gossip.lazyPushPeers) ∧
      ∀ p, p ∈ s.gossip.eagerPushPeers ∨ p ∈ s.gossip.lazyPushPeers →
        p ∈ s.swarm.activeView ∨ p ∈ gossipSenders inputs := by
  have hinv := NeighborsInv.run me meData config rng hrun
  exact ⟨hinv.disjoint, hinv.senders⟩

/-- A `Join` from peer 1, then a `Prune` from peer 2: 1 is eager, 2 lazy. -/
theorem push_peers_disjoint_within_neighbors_prune :
    let R : Rng Unit := ⟨fun g _ => (0, g), fun _ _ h => h⟩
    ∃ s out, Machine.run (fun s e => s.handle R (fun _ => 0) e.1 e.2)
        (withRng 0 none Config.default ())
        [(.recvMessage 1 (.swarm (.join none)), 0), (.recvMessage 2 (.gossip .prune), 1)] =
          .ok (s, out) ∧
      ((∀ p ∈ s.gossip.eagerPushPeers, p ∉ s.gossip.lazyPushPeers) ∧
        ∀ p, p ∈ s.gossip.eagerPushPeers ∨ p ∈ s.gossip.lazyPushPeers →
          p ∈ s.swarm.activeView ∨
            p ∈ gossipSenders [(.recvMessage 1 (.swarm (.join none)), 0),
              (.recvMessage 2 (.gossip .prune), 1)]) := by
  intro R
  obtain ⟨s, out, h⟩ : ∃ s out, Machine.run (fun s e => s.handle R (fun _ => 0) e.1 e.2)
      (withRng 0 none Config.default ())
      [(.recvMessage 1 (.swarm (.join none)), 0), (.recvMessage 2 (.gossip .prune), 1)] =
        .ok (s, out) :=
    ⟨_, _, rfl⟩
  exact ⟨s, out, h, push_peers_disjoint_within_neighbors 0 none Config.default () _ h⟩

/-- A `Prune` from a peer that is no neighbor makes it lazy: the push peers are not
within the active view. -/
theorem prune_from_stranger_makes_lazy :
    let R : Rng Unit := ⟨fun g _ => (0, g), fun _ _ h => h⟩
    ∃ s out, Machine.run (fun s e => s.handle R (fun _ => 0) e.1 e.2)
        (withRng 0 none Config.default ())
        [(.recvMessage 1 (.gossip .prune), 0)] = .ok (s, out) ∧
      1 ∈ s.gossip.lazyPushPeers ∧ 1 ∉ s.swarm.activeView := by
  intro R
  exact ⟨_, _, rfl, by decide, by decide⟩

end State

end Topic

end Iroh.Gossip
