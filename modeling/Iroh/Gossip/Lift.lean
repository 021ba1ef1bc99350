import Iroh.Gossip.Proto
import Iroh.Lib.AList

/-! Facts about Plumtree carried through a topic and a node.

A topic runs its event through HyParView or Plumtree and then hands Plumtree the
neighbor events HyParView emitted (`topic::State::handle`); a node hands each topic
its part of an event and tags the topics' events with the topic (`State::handle`,
`handle_out_event`). A property that every Plumtree step keeps, on the inputs a
topic hands it, therefore holds of a topic's Plumtree state after every event, and
every event the topic emits comes from HyParView or is a Plumtree event with the
property of its outputs (`Topic.State.handle_lift`). In the same way a property of
each topic's state and events holds of a node (`Proto.State.handle_lift`). -/

namespace Iroh.Gossip

namespace Topic

variable {PI RG : Type} [DecidableEq PI] (R : Rng RG)
  (fromContent : List UInt8 → Plumtree.MessageId)

/-- The input an event hands Plumtree, besides the neighbor events. -/
def InEvent.gossipInput : InEvent PI → Option (Plumtree.InEvent PI)
  | .recvMessage sender (.gossip message) => some (.recvMessage sender message)
  | .command (.broadcast data scope) => some (.broadcast data scope)
  | .timerExpired (.gossip timer) => some (.timerExpired timer)
  | .peerDisconnected peer => some (.neighborDown peer)
  | _ => none

/-- An event of a topic that comes from HyParView, or from Plumtree with the property. -/
def Lifted (P : Plumtree.OutEvent PI → Prop) (x : OutEvent PI) : Prop :=
  (∃ y, x = .ofSwarm y) ∨ ∃ y, P y ∧ x = .ofGossip y

omit [DecidableEq PI] in
/-- A Plumtree event that a topic emits has the property: HyParView emits none of it. -/
theorem Lifted.of_ofGossip {P : Plumtree.OutEvent PI → Prop} {y : Plumtree.OutEvent PI}
    (h : Lifted P (.ofGossip y)) : P y := by
  rcases h with ⟨z, hz⟩ | ⟨z, hp, hz⟩
  · rcases y with _ | _ | ⟨_⟩ <;> rcases z with _ | _ | _ | (_ | _) | _ <;> cases hz
  · obtain rfl : y = z := by
      rcases y with _ | _ | ⟨⟨_⟩⟩ <;> rcases z with _ | _ | ⟨⟨_⟩⟩ <;>
        simp_all [Topic.OutEvent.ofGossip]
    exact hp

namespace State

section Lift

variable {R fromContent} {Q : Plumtree.State PI → Prop} {P : Plumtree.OutEvent PI → Prop}
  {E : Plumtree.InEvent PI → Prop}
  (hstep : ∀ {g g' : Plumtree.State PI} {e : Plumtree.InEvent PI} {now : Nat}
    {io io' : Plumtree.Outbox PI}, E e → Q g → g.handle fromContent e now io = .ok (g', io') →
      Q g' ∧ ∀ x ∈ io', x ∈ io ∨ P x)

include hstep

omit hstep in
theorem swarmHandle_lift {s s' : State PI RG} {event : Hyparview.InEvent PI} {io io' : Outbox PI}
    (h : s.swarmHandle R event io = .ok (s', io')) :
    s'.gossip = s.gossip ∧ ∀ x ∈ io', x ∈ io ∨ Lifted P x := by
  unfold swarmHandle at h
  split at h
  · cases h
  · cases h
    refine ⟨rfl, fun x hx => ?_⟩
    rcases List.mem_append.mp hx with hx | hx
    · exact .inl hx
    · obtain ⟨y, -, rfl⟩ := List.mem_map.mp hx
      exact .inr (.inl ⟨y, rfl⟩)

omit hstep in
theorem joinAll_lift {s s' : State PI RG} {peers : List PI} {io io' : Outbox PI}
    (h : s.joinAll R peers io = .ok (s', io')) :
    s'.gossip = s.gossip ∧ ∀ x ∈ io', x ∈ io ∨ Lifted P x := by
  induction peers generalizing s io with
  | nil =>
    cases h
    exact ⟨rfl, fun x hx => .inl hx⟩
  | cons peer peers ih =>
    unfold joinAll at h
    split at h
    · cases h
    · rename_i s₁ io₁ hs
      obtain ⟨hg₁, ho₁⟩ := swarmHandle_lift (P := P) hs
      obtain ⟨hg, ho⟩ := ih h
      refine ⟨hg.trans hg₁, fun x hx => ?_⟩
      rcases ho x hx with hx | hx
      · exact ho₁ x hx
      · exact .inr hx

theorem gossipHandle_lift {s s' : State PI RG} {event : Plumtree.InEvent PI} {now : Nat}
    {io io' : Outbox PI} (he : E event) (hq : Q s.gossip)
    (h : s.gossipHandle fromContent event now io = .ok (s', io')) :
    Q s'.gossip ∧ ∀ x ∈ io', x ∈ io ∨ Lifted P x := by
  unfold gossipHandle at h
  split at h
  · cases h
  · rename_i gossip out hg
    cases h
    obtain ⟨hq', hout⟩ := hstep he hq hg
    refine ⟨hq', fun x hx => ?_⟩
    rcases List.mem_append.mp hx with hx | hx
    · exact .inl hx
    · obtain ⟨y, hy, rfl⟩ := List.mem_map.mp hx
      have hp := (hout y hy).resolve_left List.not_mem_nil
      exact .inr (.inr ⟨y, hp, rfl⟩)

/-- The first part of a step keeps the property, on an event whose Plumtree input has
the input's. -/
theorem process_lift {s s' : State PI RG} {event : InEvent PI} {now : Nat} {outbox : Outbox PI}
    (he : ∀ e, event.gossipInput = some e → E e) (hq : Q s.gossip)
    (h : s.process R fromContent event now = .ok (s', outbox)) :
    Q s'.gossip ∧ ∀ x ∈ outbox, Lifted P x := by
  have hswarm : s'.gossip = s.gossip ∧ (∀ x ∈ outbox, x ∈ ([] : Outbox PI) ∨ Lifted P x) →
      Q s'.gossip ∧ ∀ x ∈ outbox, Lifted P x := fun ⟨hg, ho⟩ =>
    ⟨hg ▸ hq, fun x hx => (ho x hx).resolve_left List.not_mem_nil⟩
  have hgossip : Q s'.gossip ∧ (∀ x ∈ outbox, x ∈ ([] : Outbox PI) ∨ Lifted P x) →
      Q s'.gossip ∧ ∀ x ∈ outbox, Lifted P x := fun ⟨hq', ho⟩ =>
    ⟨hq', fun x hx => (ho x hx).resolve_left List.not_mem_nil⟩
  cases event with
  | recvMessage sender message =>
    cases message with
    | swarm m => exact hswarm (swarmHandle_lift h)
    | gossip m => exact hgossip (gossipHandle_lift hstep (he _ rfl) hq h)
  | command command =>
    cases command with
    | join peers => exact hswarm (joinAll_lift h)
    | broadcast data scope => exact hgossip (gossipHandle_lift hstep (he _ rfl) hq h)
    | quit => exact hswarm (swarmHandle_lift h)
  | timerExpired timer =>
    cases timer with
    | swarm timer => exact hswarm (swarmHandle_lift h)
    | gossip timer => exact hgossip (gossipHandle_lift hstep (he _ rfl) hq h)
  | peerDisconnected peer =>
    dsimp only [process] at h
    split at h
    · cases h
    · rename_i s₁ io₁ hs
      obtain ⟨hg₁, ho₁⟩ := swarmHandle_lift (P := P) hs
      obtain ⟨hq', ho⟩ := gossipHandle_lift hstep (he _ rfl) (hg₁ ▸ hq) h
      refine ⟨hq', fun x hx => ?_⟩
      rcases ho x hx with hx | hx
      · exact (ho₁ x hx).resolve_left List.not_mem_nil
      · exact hx
  | updatePeerData data => exact hswarm (swarmHandle_lift h)

theorem forwardNeighborEvents_lift (hup : ∀ p, E (.neighborUp p)) (hdown : ∀ p, E (.neighborDown p))
    {g g' : Plumtree.State PI} {now : Nat} {outbox : Outbox PI} {io io' : Plumtree.Outbox PI}
    (hq : Q g) (h : forwardNeighborEvents fromContent g now outbox io = .ok (g', io')) :
    Q g' ∧ ∀ x ∈ io', x ∈ io ∨ P x := by
  induction outbox generalizing g io with
  | nil =>
    cases h
    exact ⟨hq, fun x hx => .inl hx⟩
  | cons event outbox ih =>
    unfold forwardNeighborEvents at h
    split at h
    · rename_i input hin
      split at h
      · cases h
      · rename_i g₁ io₁ hg
        have hE : E input := by
          unfold OutEvent.neighborInput at hin
          split at hin <;> cases hin
          · exact hup _
          · exact hdown _
        obtain ⟨hq₁, ho₁⟩ := hstep hE hq hg
        obtain ⟨hq', ho⟩ := ih hq₁ h
        refine ⟨hq', fun x hx => ?_⟩
        rcases ho x hx with hx | hx
        · exact ho₁ x hx
        · exact .inr hx
    · exact ih hq h

/-- **A Plumtree property through a topic step**: it holds of the Plumtree state after
the step, and every event emitted is HyParView's, or Plumtree's with the property. -/
theorem handle_lift (hup : ∀ p, E (.neighborUp p)) (hdown : ∀ p, E (.neighborDown p))
    {s s' : State PI RG} {event : InEvent PI} {now : Nat} {out : Outbox PI}
    (he : ∀ e, event.gossipInput = some e → E e) (hq : Q s.gossip)
    (h : s.handle R fromContent event now = .ok (s', out)) :
    Q s'.gossip ∧ ∀ x ∈ out, Lifted P x := by
  unfold handle at h
  split at h
  · cases h
  · rename_i s₁ outbox hp
    split at h
    · cases h
    · rename_i g io hf
      cases h
      obtain ⟨hq₁, ho₁⟩ := process_lift hstep he hq hp
      obtain ⟨hq', ho⟩ := forwardNeighborEvents_lift hstep hup hdown hq₁ hf
      refine ⟨hq', fun x hx => ?_⟩
      rcases List.mem_append.mp hx with hx | hx
      · exact ho₁ x hx
      · obtain ⟨y, hy, rfl⟩ := List.mem_map.mp hx
        exact .inr ⟨y, (ho y hy).resolve_left List.not_mem_nil, rfl⟩

end Lift

end State

end Topic

namespace Proto

variable {PI RG : Type} [DecidableEq PI] (R : Rng RG)
  (fromContent : List UInt8 → Plumtree.MessageId)

/-- The event an event hands a topic, if any. -/
def InEvent.forTopic (event : InEvent PI) (topic : TopicId) : Option (Topic.InEvent PI) :=
  match event.mapped with
  | .topicEvent t e => if t = topic then some e else none
  | .all e => some e

/-- An event of a topic as `handle_out_event` passes it on, tagged with the topic. -/
def OutEvent.tagged (topic : TopicId) : Topic.OutEvent PI → OutEvent PI
  | .sendMessage peer message => .sendMessage peer ⟨topic, message⟩
  | .emitEvent event => .emitEvent topic event
  | .scheduleTimer delay timer => .scheduleTimer delay ⟨topic, timer⟩
  | .disconnectPeer peer => .disconnectPeer peer
  | .peerData peer data => .peerData peer data

omit [DecidableEq PI] in
/-- A Plumtree event tagged with a topic is that topic's, and no other event of a
topic is tagged the same. -/
theorem OutEvent.tagged_ofGossip_eq {topic t : TopicId} {z : Plumtree.OutEvent PI}
    {x : Topic.OutEvent PI} (h : OutEvent.tagged topic (.ofGossip z) = .tagged t x) :
    t = topic ∧ x = .ofGossip z := by
  rcases z with _ | _ | ⟨_⟩ <;> rcases x with _ | _ | _ | _ | _ <;>
    simp [OutEvent.tagged, Topic.OutEvent.ofGossip] at h ⊢ <;> grind

omit [DecidableEq PI] in
/-- A Plumtree event a node emits for a topic has what the topic's events have. -/
theorem lifted_of_tagged {P : Plumtree.OutEvent PI → Prop} {topic : TopicId} {out : Outbox PI}
    (ho : ∀ y ∈ out, ∃ t x, (t = topic → Topic.Lifted P x) ∧ y = .tagged t x)
    {z : Plumtree.OutEvent PI} (hz : .tagged topic (.ofGossip z) ∈ out) : P z := by
  obtain ⟨t, x, hp, hx⟩ := ho _ hz
  obtain ⟨rfl, rfl⟩ := OutEvent.tagged_ofGossip_eq hx
  exact (hp rfl).of_ofGossip

omit [DecidableEq PI] in
/-- Only a join command is mapped to a join of a topic. -/
theorem InEvent.eq_of_mapped_join {event : InEvent PI} {topic : TopicId} {peers : List PI}
    (h : event.mapped = .topicEvent topic (.command (.join peers))) :
    event = .command topic (.join peers) := by
  cases event with
  | recvMessage sender message => cases h
  | command t command =>
    simp only [InEvent.mapped, InEventMapped.topicEvent.injEq, Topic.InEvent.command.injEq] at h
    rw [h.1, h.2]
  | timerExpired timer => cases h
  | peerDisconnected peer => cases h
  | updatePeerData data => cases h

/-- `handle_out_event` passes the event on, or drops it. -/
theorem handleOutEvent_out (topic : TopicId) (conns : ConnsMap PI) (outbox : Outbox PI)
    (event : Topic.OutEvent PI) :
    (handleOutEvent topic conns outbox event).2 = outbox ∨
      (handleOutEvent topic conns outbox event).2 = outbox ++ [.tagged topic event] := by
  cases event with
  | disconnectPeer peer =>
    simp only [handleOutEvent]
    split
    · split
      · exact .inr rfl
      · exact .inl rfl
    · exact .inl rfl
  | sendMessage => exact .inr rfl
  | emitEvent => exact .inr rfl
  | scheduleTimer => exact .inr rfl
  | peerData => exact .inr rfl

theorem mem_handleOutEvents {topic : TopicId} {events : List (Topic.OutEvent PI)}
    {conns : ConnsMap PI} {outbox : Outbox PI} {y : OutEvent PI}
    (h : y ∈ (handleOutEvents topic events conns outbox).2) :
    y ∈ outbox ∨ ∃ x ∈ events, y = .tagged topic x := by
  induction events generalizing conns outbox with
  | nil => exact .inl h
  | cons event events ih =>
    simp only [handleOutEvents] at h
    rcases hp : handleOutEvent topic conns outbox event with ⟨conns₁, outbox₁⟩
    rw [hp] at h
    rcases ih h with h | ⟨x, hx, rfl⟩
    · have hout := handleOutEvent_out topic conns outbox event
      rw [hp] at hout
      rcases hout with rfl | rfl
      · exact .inl h
      · rcases List.mem_append.mp h with h | h
        · exact .inl h
        · exact .inr ⟨event, List.mem_cons_self, List.mem_singleton.mp h⟩
    · exact .inr ⟨x, List.mem_cons_of_mem _ hx, rfl⟩

namespace State

section Lift

variable {R fromContent} {QT : TopicId → Topic.State PI RG → Prop}
  {PT : TopicId → Topic.OutEvent PI → Prop}

theorem handleTopic_lift {s s' : State PI RG} {topic : TopicId} {event : Topic.InEvent PI}
    {now : Nat} {out : Outbox PI} (hjoin : ∀ peers, event ≠ .command (.join peers))
    (hstep : ∀ {st st' : Topic.State PI RG} {o : Topic.Outbox PI}, QT topic st →
      st.handle R fromContent event now = .ok (st', o) → QT topic st' ∧ ∀ x ∈ o, PT topic x)
    (hq : ∀ t st, s.states.lookup t = some st → QT t st)
    (h : s.handleTopic R fromContent topic event now = .ok (s', out)) :
    (∀ t st, s'.states.lookup t = some st → QT t st) ∧
      ∀ y ∈ out, ∃ x, PT topic x ∧ y = .tagged topic x := by
  have hdrop : ∀ (quit : Bool) (s₁ : State PI RG), (∀ t st, s₁.states.lookup t = some st → QT t st) →
      ∀ t st, (if quit = true then { s₁ with states := s₁.states.erase topic } else s₁).states.lookup t =
        some st → QT t st := by
    intro quit s₁ h₁ t st hst
    split at hst
    · exact h₁ t st (AList.lookup_of_lookup_erase hst)
    · exact h₁ t st hst
  have hinsert : ∀ {st' : Topic.State PI RG}, QT topic st' →
      ∀ t st, (s.states.insert topic st').lookup t = some st → QT t st := by
    intro st' hq' t st hst
    by_cases ht : t = topic
    · subst ht
      rw [AList.lookup_insert] at hst
      cases hst
      exact hq'
    · rw [AList.lookup_insert_ne ht] at hst
      exact hq t st hst
  -- every event but a join leaves the node's state to the topic's handler: one case each
  rcases event with ⟨sender, message⟩ | ⟨peers | ⟨data, scope⟩ | -⟩ | timer | peer | data
  all_goals first
    | exact absurd rfl (hjoin _)
    | skip
  all_goals
    unfold handleTopic at h
    dsimp only at h
    split at h
    · rename_i state hstate
      split at h
      · cases h
      · rename_i state' o hs'
        simp only [Except.ok.injEq, Prod.mk.injEq] at h
        obtain ⟨rfl, rfl⟩ := h
        obtain ⟨hq', ho⟩ := hstep (hq topic state hstate) hs'
        refine ⟨hdrop _ { s with states := s.states.insert topic state', peerTopics := _ }
          (hinsert hq'), fun y hy => ?_⟩
        rcases mem_handleOutEvents hy with hy | ⟨x, hx, rfl⟩
        · cases hy
        · exact ⟨x, ho x hx, rfl⟩
    · simp only [Except.ok.injEq, Prod.mk.injEq] at h
      obtain ⟨rfl, rfl⟩ := h
      exact ⟨hdrop _ s hq, fun y hy => by cases hy⟩

theorem handleAll_lift {event : Topic.InEvent PI} {now : Nat}
    (hstep : ∀ {t : TopicId} {st st' : Topic.State PI RG} {o : Topic.Outbox PI}, QT t st →
      st.handle R fromContent event now = .ok (st', o) → QT t st' ∧ ∀ x ∈ o, PT t x)
    {topics : List TopicId} {s s' : State PI RG} {outbox out : Outbox PI}
    (h : handleAll R fromContent event now topics s outbox = .ok (s', out))
    (hq : ∀ t st, s.states.lookup t = some st → QT t st) :
    (∀ t st, s'.states.lookup t = some st → QT t st) ∧
      ∀ y ∈ out, y ∈ outbox ∨ ∃ t x, PT t x ∧ y = .tagged t x := by
  induction topics generalizing s outbox with
  | nil =>
    cases h
    exact ⟨hq, fun y hy => .inl hy⟩
  | cons topic topics ih =>
    unfold handleAll at h
    split at h
    · rename_i state hstate
      split at h
      · cases h
      · rename_i state' o hs'
        obtain ⟨hq', ho⟩ := hstep (hq topic state hstate) hs'
        have hq₁ : ∀ t st, (s.states.insert topic state').lookup t = some st → QT t st := by
          intro t st hst
          by_cases ht : t = topic
          · subst ht
            rw [AList.lookup_insert] at hst
            cases hst
            exact hq'
          · rw [AList.lookup_insert_ne ht] at hst
            exact hq t st hst
        obtain ⟨hq'', hout⟩ := ih h hq₁
        refine ⟨hq'', fun y hy => ?_⟩
        rcases hout y hy with hy | hy
        · rcases mem_handleOutEvents hy with hy | ⟨x, hx, rfl⟩
          · exact .inl hy
          · exact .inr ⟨topic, x, ho x hx, rfl⟩
        · exact .inr hy
    · exact ih h hq

/-- **A property of the topics through a node's step**: it holds of every topic's state
after the step, and every event emitted is a topic's event with the property, tagged
with the topic. A join, which creates a state, is left out. -/
theorem handle_lift {s s' : State PI RG} {event : InEvent PI} {now : Nat} {out : Outbox PI}
    (hjoin : ∀ topic peers, event ≠ .command topic (.join peers))
    (hstep : ∀ {t : TopicId} {e : Topic.InEvent PI} {st st' : Topic.State PI RG}
      {o : Topic.Outbox PI}, event.forTopic t = some e → QT t st →
      st.handle R fromContent e now = .ok (st', o) → QT t st' ∧ ∀ x ∈ o, PT t x)
    (hq : ∀ t st, s.states.lookup t = some st → QT t st)
    (h : s.handle R fromContent event now = .ok (s', out)) :
    (∀ t st, s'.states.lookup t = some st → QT t st) ∧
      ∀ y ∈ out, ∃ t x, PT t x ∧ y = .tagged t x := by
  unfold handle at h
  split at h
  · rename_i topic e hmap
    have hfor : event.forTopic topic = some e := by simp [InEvent.forTopic, hmap]
    have hj : ∀ peers, e ≠ .command (.join peers) := fun peers he =>
      hjoin topic peers (InEvent.eq_of_mapped_join (he ▸ hmap))
    obtain ⟨hq', ho⟩ := handleTopic_lift hj (hstep hfor) hq h
    exact ⟨hq', fun y hy => (ho y hy).elim fun x hx => ⟨topic, x, hx⟩⟩
  · rename_i e hmap
    have hfor : ∀ t, event.forTopic t = some e := fun t => by simp [InEvent.forTopic, hmap]
    have hstep' : ∀ {t : TopicId} {st st' : Topic.State PI RG} {o : Topic.Outbox PI}, QT t st →
        st.handle R fromContent e now = .ok (st', o) → QT t st' ∧ ∀ x ∈ o, PT t x :=
      fun hst hs => hstep (hfor _) hst hs
    split at h <;>
    · try dsimp only at h
      obtain ⟨hq', ho⟩ := handleAll_lift @hstep' h hq
      exact ⟨hq', fun y hy => (ho y hy).resolve_left List.not_mem_nil⟩

end Lift

end State

end Proto

end Iroh.Gossip
