import Iroh.Gossip.Plumtree
import Iroh.Lib.Machine

/-! What Plumtree delivers to the application.

A payload is delivered (`Event::Received`) by `on_gossip` alone, and only when its
id is the hash of its content and is not among the received ids; a swarm payload's
id then joins them. No handler removes a received id: the eviction timer expires the
payload cache only. So along every run the deliveries are authentic, a swarm payload
is delivered at most once per id, and once we broadcast a payload to the swarm its
id is recorded and nothing with that id is delivered to us afterwards.

A payload broadcast to the neighbors only is not recorded (`broadcast` inserts the
id for the swarm scope alone), so a peer that sends it back has it delivered. -/

namespace Iroh.Gossip.Plumtree

variable {PI : Type}

/-- The delivery an event to the application stands for, if it is one. -/
def OutEvent.delivery : OutEvent PI → Option (GossipEvent PI)
  | .emitEvent (.received event) => some event
  | _ => none

/-- The payloads delivered to the application among the events, in order. -/
def deliveries (out : Outbox PI) : List (GossipEvent PI) := out.filterMap OutEvent.delivery

/-- The ids of the swarm-scoped deliveries: the hash of each one's content. -/
def swarmDeliveryIds (fromContent : List UInt8 → MessageId) (out : Outbox PI) : List MessageId :=
  (deliveries out).filterMap fun event =>
    match event.scope with
    | .swarm _ => some (fromContent event.content)
    | .neighbors => none

@[simp] theorem deliveries_nil : deliveries ([] : Outbox PI) = [] := rfl

@[simp] theorem deliveries_append (out₁ out₂ : Outbox PI) :
    deliveries (out₁ ++ out₂) = deliveries out₁ ++ deliveries out₂ := List.filterMap_append

@[simp] theorem deliveries_cons_sendMessage (peer : PI) (message : Message) (out : Outbox PI) :
    deliveries (.sendMessage peer message :: out) = deliveries out := rfl

@[simp] theorem deliveries_cons_scheduleTimer (delay : Nat) (timer : Timer) (out : Outbox PI) :
    deliveries (.scheduleTimer delay timer :: out) = deliveries out := rfl

@[simp] theorem deliveries_cons_received (event : GossipEvent PI) (out : Outbox PI) :
    deliveries (.emitEvent (.received event) :: out) = event :: deliveries out := rfl

@[simp] theorem deliveries_map_sendMessage {β : Type} (l : List β) (peer : β → PI)
    (message : β → Message) :
    deliveries (l.map fun b => .sendMessage (peer b) (message b)) = [] := by
  induction l with
  | nil => rfl
  | cons b l ih => simpa using ih

theorem swarmDeliveryIds_append (fromContent : List UInt8 → MessageId) (out₁ out₂ : Outbox PI) :
    swarmDeliveryIds fromContent (out₁ ++ out₂) =
      swarmDeliveryIds fromContent out₁ ++ swarmDeliveryIds fromContent out₂ := by
  simp [swarmDeliveryIds]

namespace State

/-! ### Handlers that deliver nothing and keep the received ids -/

/-- A step that delivers nothing and leaves the received ids as they are. -/
structure Keeps (s : State PI) (io : Outbox PI) (s' : State PI) (io' : Outbox PI) : Prop where
  received : s'.receivedMessages = s.receivedMessages
  silent : deliveries io' = deliveries io

theorem Keeps.refl (s : State PI) (io : Outbox PI) : Keeps s io s io := ⟨rfl, rfl⟩

/-- A handler's lemma, read at the state and events it returned. -/
theorem Keeps.of_eq {s s' : State PI} {io io' : Outbox PI} {p : State PI × Outbox PI}
    (h : Keeps s io p.1 p.2) (hp : p = (s', io')) : Keeps s io s' io' := by
  subst hp
  exact h

theorem Keeps.trans {s₁ s₂ s₃ : State PI} {io₁ io₂ io₃ : Outbox PI} (h₁ : Keeps s₁ io₁ s₂ io₂)
    (h₂ : Keeps s₂ io₂ s₃ io₃) : Keeps s₁ io₁ s₃ io₃ :=
  ⟨h₂.received.trans h₁.received, h₂.silent.trans h₁.silent⟩

variable [DecidableEq PI] (fromContent : List UInt8 → MessageId)

@[simp] theorem addEager_receivedMessages (s : State PI) (peer : PI) :
    (s.addEager peer).receivedMessages = s.receivedMessages := rfl

@[simp] theorem addLazy_receivedMessages (s : State PI) (peer : PI) :
    (s.addLazy peer).receivedMessages = s.receivedMessages := rfl

@[simp] theorem deliveries_eagerPush (s : State PI) (gossip : Gossip) (sender : PI)
    (io : Outbox PI) : deliveries (s.eagerPush gossip sender io) = deliveries io := by
  simp [eagerPush]

theorem lazyPush_keeps (s : State PI) (gossip : Gossip) (sender : PI) (io : Outbox PI) :
    Keeps s io (s.lazyPush gossip sender io).1 (s.lazyPush gossip sender io).2 := by
  unfold lazyPush
  split
  · exact .refl s io
  · dsimp only
    split <;> exact ⟨rfl, by simp⟩

@[simp] theorem deliveries_lazyPush (s : State PI) (gossip : Gossip) (sender : PI)
    (io : Outbox PI) : deliveries (s.lazyPush gossip sender io).2 = deliveries io :=
  (lazyPush_keeps s gossip sender io).silent

theorem optimizeTree_silent {s : State PI} {sender : PI} {message : Gossip}
    {previousIhaves : List (PI × Round)} {io io' : Outbox PI}
    (hr : s.optimizeTree sender message previousIhaves io = .ok io') :
    deliveries io' = deliveries io := by
  unfold optimizeTree at hr
  -- every branch that returns adds at most a `Graft` and a `Prune`
  repeat' split at hr
  all_goals
    cases hr
    try simp

omit [DecidableEq PI] in
theorem onIHave_keeps (s : State PI) (sender : PI) (iHaves : List IHave) (io : Outbox PI) :
    Keeps s io (s.onIHave sender iHaves io).1 (s.onIHave sender iHaves io).2 := by
  induction iHaves generalizing s io with
  | nil => exact .refl s io
  | cons iHave iHaves ih =>
    have hone : Keeps s io (s.onIHaveOne sender io iHave).1 (s.onIHaveOne sender io iHave).2 := by
      unfold onIHaveOne
      split
      · dsimp only
        split <;> exact ⟨rfl, by simp⟩
      · exact .refl s io
    exact hone.trans (ih _ _)

theorem onSendGraftTimer_keeps (s : State PI) (id : MessageId) (io : Outbox PI) :
    Keeps s io (s.onSendGraftTimer id io).1 (s.onSendGraftTimer id io).2 := by
  unfold onSendGraftTimer
  split
  · exact .refl s io
  · dsimp only
    split <;> exact ⟨rfl, by simp⟩

theorem onGraft_keeps (s : State PI) (sender : PI) (details : Graft) (io : Outbox PI) :
    Keeps s io (s.onGraft sender details io).1 (s.onGraft sender details io).2 := by
  unfold onGraft
  dsimp only
  split
  · split <;> exact ⟨rfl, by simp⟩
  · exact ⟨rfl, rfl⟩

omit [DecidableEq PI] in
theorem onEvictCacheTimer_keeps (s : State PI) (now : Nat) (io : Outbox PI) :
    Keeps s io (s.onEvictCacheTimer now io).1 (s.onEvictCacheTimer now io).2 :=
  ⟨rfl, by simp [onEvictCacheTimer]⟩

omit [DecidableEq PI] in
theorem onDispatchTimer_keeps (s : State PI) (io : Outbox PI) :
    Keeps s io (s.onDispatchTimer io).1 (s.onDispatchTimer io).2 :=
  ⟨rfl, by simp [onDispatchTimer]⟩

/-! ### The handlers that touch the received ids -/

/-- `broadcast` delivers nothing, adds at most its own id, and adds it for the swarm. -/
theorem broadcast_spec (s : State PI) (content : List UInt8) (scope : Scope) (now : Nat)
    (io : Outbox PI) :
    (∀ i, s.receivedMessages.containsKey i = true →
      (s.broadcast fromContent content scope now io).1.receivedMessages.containsKey i = true) ∧
    deliveries (s.broadcast fromContent content scope now io).2 = deliveries io ∧
    (scope = .swarm →
      (s.broadcast fromContent content scope now io).1.receivedMessages.containsKey
        (fromContent content) = true) := by
  cases scope with
  | neighbors => exact ⟨fun _ h => h, by simp [broadcast], fun h => nomatch h⟩
  | swarm =>
    have hk := lazyPush_keeps { s with
      receivedMessages := s.receivedMessages.insert (fromContent content) ()
        (now + s.config.messageIdRetention),
      cache := s.cache.insert (fromContent content) ⟨fromContent content, content, .swarm ⟨0⟩⟩
        (now + s.config.messageCacheRetention) } ⟨fromContent content, content, .swarm ⟨0⟩⟩ s.me io
    refine ⟨fun i h => ?_, ?_, fun _ => ?_⟩
    · simp only [broadcast, hk.received]
      exact TimeBoundCache.containsKey_insert.mpr (.inr h)
    · simp only [broadcast, deliveries_eagerPush, hk.silent]
    · simp only [broadcast, hk.received]
      exact TimeBoundCache.containsKey_insert.mpr (.inl rfl)

/-- What `on_gossip` delivers: nothing, or the payload it was sent, valid and not
received before, whose id it then records if it is a swarm payload. The received ids
only grow. -/
theorem onGossip_spec {s s' : State PI} {sender : PI} {g : Gossip} {now : Nat}
    {io io' : Outbox PI} (hr : s.onGossip fromContent sender g now io = .ok (s', io')) :
    (∀ i, s.receivedMessages.containsKey i = true → s'.receivedMessages.containsKey i = true) ∧
    (deliveries io' = deliveries io ∨
      g.validate fromContent = true ∧ s.receivedMessages.containsKey g.id = false ∧
      deliveries io' = deliveries io ++ [.fromMessage g sender] ∧
      ∀ r, g.scope = .swarm r → s'.receivedMessages.containsKey g.id = true) := by
  rcases onGossip_cases fromContent hr with ⟨-, rfl, rfl⟩ | ⟨-, -, rfl, rfl⟩ |
    ⟨hv, hc, hscope, rfl, rfl⟩ | ⟨hv, hc, r, m, io₁, -, -, rfl, rfl, hio⟩
  · exact ⟨fun _ h => h, .inl rfl⟩
  · exact ⟨fun _ h => h, .inl (by simp)⟩
  · exact ⟨fun _ h => h, .inr ⟨hv, hc, by simp, fun r h => by rw [hscope] at h; cases h⟩⟩
  · -- the id is recorded first; the pushes, the cleanup and the tree optimisation keep it
    have hsilent : deliveries io₁ = deliveries io := by
      rcases hio with ⟨-, rfl⟩ | ⟨_, -, hopt⟩
      · simp
      · simp [optimizeTree_silent hopt]
    refine ⟨fun i h => ?_, .inr ⟨hv, hc, by simp [hsilent], fun _ _ => ?_⟩⟩
    · simp only [lazyPush_receivedMessages]
      exact TimeBoundCache.containsKey_insert.mpr (.inr h)
    · simp only [lazyPush_receivedMessages]
      exact TimeBoundCache.containsKey_insert.mpr (.inl rfl)

/-! ### One event -/

/-- What one event does to delivery: the received ids only grow; it delivers nothing,
or one payload it was sent, valid and not received before, whose id it records if it
is a swarm payload; and a swarm broadcast records its own id. -/
structure Delivery (s : State PI) (event : InEvent PI) (io : Outbox PI) (s' : State PI)
    (io' : Outbox PI) : Prop where
  mono : ∀ i, s.receivedMessages.containsKey i = true → s'.receivedMessages.containsKey i = true
  delivered : deliveries io' = deliveries io ∨ ∃ sender g, event = .recvMessage sender (.gossip g) ∧
    g.validate fromContent = true ∧ s.receivedMessages.containsKey g.id = false ∧
    deliveries io' = deliveries io ++ [.fromMessage g sender] ∧
    ∀ r, g.scope = .swarm r → s'.receivedMessages.containsKey g.id = true
  broadcast : ∀ content, event = .broadcast content .swarm →
    s'.receivedMessages.containsKey (fromContent content) = true

variable {fromContent}

omit [DecidableEq PI] in
/-- A handler that keeps the received ids and delivers nothing, on an event that is no
swarm broadcast. -/
theorem Keeps.delivery {s s' : State PI} {event : InEvent PI} {io io' : Outbox PI}
    (h : Keeps s io s' io') (hb : ∀ content, event ≠ .broadcast content .swarm) :
    Delivery fromContent s event io s' io' where
  mono _ hi := h.received ▸ hi
  delivered := .inl h.silent
  broadcast content he := absurd he (hb content)

omit [DecidableEq PI] in
/-- A step that only touches fields delivery does not read, before an event. -/
theorem Delivery.of_keeps {s s₀ s' : State PI} {event : InEvent PI} {io io₀ io' : Outbox PI}
    (h₀ : Keeps s io s₀ io₀) (h : Delivery fromContent s₀ event io₀ s' io') :
    Delivery fromContent s event io s' io' where
  mono i hi := h.mono i (h₀.received ▸ hi)
  delivered := by
    rcases h.delivered with hd | ⟨sender, g, he, hv, hc, hd, hr⟩
    · exact .inl (hd.trans h₀.silent)
    · exact .inr ⟨sender, g, he, hv, h₀.received ▸ hc, by rw [hd, h₀.silent], hr⟩
  broadcast := h.broadcast

theorem handleMessage_delivery {s s' : State PI} {sender : PI} {message : Message} {now : Nat}
    {io io' : Outbox PI} (hr : s.handleMessage fromContent sender message now io = .ok (s', io')) :
    Delivery fromContent s (.recvMessage sender message) io s' io' := by
  cases message with
  | gossip g =>
    obtain ⟨hmono, hd⟩ := onGossip_spec fromContent hr
    refine ⟨hmono, ?_, fun _ h => nomatch h⟩
    rcases hd with hd | ⟨hv, hc, hd, hrec⟩
    · exact .inl hd
    · exact .inr ⟨sender, g, rfl, hv, hc, hd, hrec⟩
  | prune =>
    cases hr
    exact Keeps.delivery ⟨rfl, rfl⟩ fun _ h => nomatch h
  | iHave details =>
    exact ((onIHave_keeps s sender details io).of_eq (Except.ok.inj hr)).delivery
      fun _ h => nomatch h
  | graft details =>
    exact ((onGraft_keeps s sender details io).of_eq (Except.ok.inj hr)).delivery
      fun _ h => nomatch h

theorem dispatch_delivery {s s' : State PI} {event : InEvent PI} {now : Nat} {io io' : Outbox PI}
    (hr : s.dispatch fromContent event now io = .ok (s', io')) :
    Delivery fromContent s event io s' io' := by
  cases event with
  | recvMessage sender message => exact handleMessage_delivery hr
  | broadcast content scope =>
    cases hr
    obtain ⟨hmono, hd, hsw⟩ := broadcast_spec fromContent s content scope now io
    refine ⟨hmono, .inl hd, fun c he => ?_⟩
    injection he with hc hs
    subst hc hs
    exact hsw rfl
  | neighborUp peer =>
    cases hr
    exact Keeps.delivery ⟨rfl, rfl⟩ fun _ h => nomatch h
  | neighborDown peer =>
    cases hr
    exact Keeps.delivery ⟨rfl, rfl⟩ fun _ h => nomatch h
  | timerExpired timer =>
    cases timer with
    | sendGraft id =>
      exact ((onSendGraftTimer_keeps s id io).of_eq (Except.ok.inj hr)).delivery
        fun _ h => nomatch h
    | dispatchLazyPush =>
      exact ((onDispatchTimer_keeps s io).of_eq (Except.ok.inj hr)).delivery fun _ h => nomatch h
    | evictCache =>
      exact ((onEvictCacheTimer_keeps s now io).of_eq (Except.ok.inj hr)).delivery
        fun _ h => nomatch h

/-- **What every event does to delivery.** -/
theorem handle_delivery {s s' : State PI} {event : InEvent PI} {now : Nat} {io io' : Outbox PI}
    (hr : s.handle fromContent event now io = .ok (s', io')) :
    Delivery fromContent s event io s' io' := by
  rcases handle_cases fromContent s event now io with ⟨-, he⟩ | ⟨-, he⟩ <;> rw [he] at hr
  · -- the first event starts the eviction timer, which keeps the received ids
    have h₀ := onEvictCacheTimer_keeps { s with init := true } now io
    exact Delivery.of_keeps ⟨h₀.received, h₀.silent⟩ (dispatch_delivery hr)
  · exact dispatch_delivery hr

/-! ### Along a run -/

variable (fromContent) in
/-- What holds after a run over the inputs `done` that emitted `out` and reached `s`:
every delivery is a valid payload some input carried, no swarm id is delivered twice,
and every delivered swarm id is recorded. -/
structure DeliveryInv (done : List (InEvent PI × Nat)) (out : Outbox PI) (s : State PI) : Prop where
  authentic : ∀ ev ∈ deliveries out, ∃ sender g,
    InEvent.recvMessage sender (.gossip g) ∈ done.map Prod.fst ∧
      g.validate fromContent = true ∧ ev = .fromMessage g sender
  once : (swarmDeliveryIds fromContent out).Nodup
  recorded : ∀ i ∈ swarmDeliveryIds fromContent out, s.receivedMessages.containsKey i = true

variable (fromContent) in
omit [DecidableEq PI] in
theorem deliveryInv_nil (s : State PI) : DeliveryInv fromContent [] [] s where
  authentic _ h := absurd h List.not_mem_nil
  once := List.nodup_nil
  recorded _ h := absurd h List.not_mem_nil

omit [DecidableEq PI] in
/-- The swarm ids of a single delivery. -/
theorem swarmDeliveryIds_single {out : Outbox PI} {g : Gossip} {sender : PI}
    (hv : g.validate fromContent = true) (hd : deliveries out = [.fromMessage g sender]) :
    swarmDeliveryIds fromContent out =
      match g.scope with
      | .swarm _ => [g.id]
      | .neighbors => [] := by
  have hid : fromContent g.content = g.id := by simpa [Gossip.validate] using hv
  unfold swarmDeliveryIds
  rw [hd]
  cases hs : g.scope <;> simp [GossipEvent.fromMessage, hs, hid]

omit [DecidableEq PI] in
/-- One event keeps the invariant. -/
theorem DeliveryInv.step {done : List (InEvent PI × Nat)} {out o : Outbox PI} {s s' : State PI}
    {e : InEvent PI × Nat} (h : DeliveryInv fromContent done out s)
    (hd : Delivery fromContent s e.1 [] s' o) : DeliveryInv fromContent (done ++ [e]) (out ++ o) s' := by
  have hold : ∀ ev ∈ deliveries out, ∃ sender g,
      InEvent.recvMessage sender (.gossip g) ∈ (done ++ [e]).map Prod.fst ∧
        g.validate fromContent = true ∧ ev = .fromMessage g sender := fun ev hev => by
    obtain ⟨sender, g, hm, hv, rfl⟩ := h.authentic ev hev
    exact ⟨sender, g, by simp only [List.map_append, List.mem_append]; exact .inl hm, hv, rfl⟩
  rcases hd.delivered with hsil | ⟨sender, g, he, hv, hc, hdl, hrec⟩
  · have hids : swarmDeliveryIds fromContent o = [] := by simp [swarmDeliveryIds, hsil]
    refine ⟨fun ev hev => hold ev (by simpa [hsil] using hev), ?_, fun i hi => ?_⟩
    · rw [swarmDeliveryIds_append, hids, List.append_nil]
      exact h.once
    · rw [swarmDeliveryIds_append, hids, List.append_nil] at hi
      exact hd.mono i (h.recorded i hi)
  · -- one delivery: a payload whose id was not recorded, so not delivered before
    rw [deliveries_nil, List.nil_append] at hdl
    have hnew : g.id ∉ swarmDeliveryIds fromContent out := fun hm => by
      rw [h.recorded _ hm] at hc
      cases hc
    have hauth : ∀ ev ∈ deliveries (out ++ o), ∃ sender g,
        InEvent.recvMessage sender (.gossip g) ∈ (done ++ [e]).map Prod.fst ∧
          g.validate fromContent = true ∧ ev = .fromMessage g sender := fun ev hev => by
      rw [deliveries_append, hdl, List.mem_append, List.mem_singleton] at hev
      rcases hev with hev | rfl
      · exact hold ev hev
      · exact ⟨sender, g, by simp [← he], hv, rfl⟩
    have hids := swarmDeliveryIds_single hv hdl
    cases hs : g.scope with
    | swarm r =>
      simp only [hs] at hids
      refine ⟨hauth, ?_, fun i hi => ?_⟩
      · rw [swarmDeliveryIds_append, hids]
        refine List.nodup_append.mpr ⟨h.once, List.nodup_singleton _, fun a ha b hb => ?_⟩
        rw [List.mem_singleton] at hb
        subst hb
        exact fun hab => hnew (hab ▸ ha)
      · rw [swarmDeliveryIds_append, hids] at hi
        rcases List.mem_append.mp hi with hi | hi
        · exact hd.mono i (h.recorded i hi)
        · rw [List.mem_singleton.mp hi]
          exact hrec r hs
    | neighbors =>
      simp only [hs] at hids
      refine ⟨hauth, ?_, fun i hi => ?_⟩
      · rw [swarmDeliveryIds_append, hids, List.append_nil]
        exact h.once
      · rw [swarmDeliveryIds_append, hids, List.append_nil] at hi
        exact hd.mono i (h.recorded i hi)

theorem DeliveryInv.run {done : List (InEvent PI × Nat)} {out o : Outbox PI} {s s' : State PI}
    {inputs : List (InEvent PI × Nat)} (h : DeliveryInv fromContent done out s)
    (hrun : Machine.run (fun s e => s.handle fromContent e.1 e.2 []) s inputs = .ok (s', o)) :
    DeliveryInv fromContent (done ++ inputs) (out ++ o) s' :=
  Machine.run_induction (DeliveryInv fromContent)
    (fun _ _ _ _ _ _ hi hs => hi.step (handle_delivery hs)) h hrun

/-- Once an id is recorded, no run delivers a payload with that id. -/
theorem no_delivery_of_recorded {s s' : State PI} {i : MessageId}
    {inputs : List (InEvent PI × Nat)} {o : Outbox PI}
    (hi : s.receivedMessages.containsKey i = true)
    (hrun : Machine.run (fun s e => s.handle fromContent e.1 e.2 []) s inputs = .ok (s', o)) :
    ∀ ev ∈ deliveries o, fromContent ev.content ≠ i := by
  have := @Machine.run_induction _ _ _ _ (fun s e => s.handle fromContent e.1 e.2 [])
    (fun _ o s => s.receivedMessages.containsKey i = true ∧
      ∀ ev ∈ deliveries o, fromContent ev.content ≠ i)
    (fun _ _ _ _ _ _ ⟨hr, hne⟩ hs => by
      have hd := handle_delivery hs
      refine ⟨hd.mono i hr, fun ev hev => ?_⟩
      rw [deliveries_append, List.mem_append] at hev
      rcases hev with hev | hev
      · exact hne ev hev
      · rcases hd.delivered with hsil | ⟨sender, g, -, hv, hc, hdl, -⟩
        · simp [hsil] at hev
        · simp only [hdl, deliveries_nil, List.nil_append, List.mem_singleton] at hev
          subst hev
          have hid : fromContent g.content = g.id := by simpa [Gossip.validate] using hv
          intro heq
          have hgi : g.id = i := hid ▸ heq
          rw [hgi, hr] at hc
          cases hc)
    [] [] s s' inputs o ⟨hi, fun _ h => absurd h List.not_mem_nil⟩ hrun
  exact this.2

variable (fromContent) in
/-- **Plumtree delivers authentically and at most once.** Along every run of `handle`
from `State::new`: every delivered payload is a valid one that an input carried, no
swarm id is delivered twice, and once we broadcast a payload to the swarm, nothing
with its id is delivered to us. -/
theorem delivery_authentic_at_most_once (me : PI) (config : Config)
    (inputs : List (InEvent PI × Nat)) {s : State PI} {out : Outbox PI}
    (hrun : Machine.run (fun s e => s.handle fromContent e.1 e.2 []) (new me config) inputs =
      .ok (s, out)) :
    (∀ ev ∈ deliveries out, ∃ sender g,
      InEvent.recvMessage sender (.gossip g) ∈ inputs.map Prod.fst ∧
        g.validate fromContent = true ∧ ev = .fromMessage g sender) ∧
    (swarmDeliveryIds fromContent out).Nodup ∧
    ∀ content now post s' out', Machine.run (fun s e => s.handle fromContent e.1 e.2 []) s
        ((.broadcast content .swarm, now) :: post) = .ok (s', out') →
      ∀ ev ∈ deliveries out', fromContent ev.content ≠ fromContent content := by
  have hinv := (deliveryInv_nil fromContent (new me config)).run hrun
  simp only [List.nil_append] at hinv
  refine ⟨hinv.authentic, hinv.once, fun content now post s' out' hpost => ?_⟩
  obtain ⟨s₁, o₁, o₂, hb, hrest, rfl⟩ := Machine.run_cons_eq_ok hpost
  have hd := handle_delivery hb
  have hsil : deliveries o₁ = [] := by
    rcases hd.delivered with h | ⟨_, _, he, -⟩
    · simpa using h
    · cases he
  intro ev hev
  rw [deliveries_append, hsil, List.nil_append] at hev
  exact no_delivery_of_recorded (hd.broadcast content rfl) hrest ev hev

/-- A swarm payload received once, with a hash that maps everything to id `0`. -/
theorem delivery_authentic_at_most_once_one_payload :
    let fromContent : List UInt8 → MessageId := fun _ => 0
    ∃ s out, Machine.run (fun s e => s.handle fromContent e.1 e.2 []) (new (0 : Nat) Config.default)
        [(.recvMessage 1 (.gossip ⟨0, [7], .swarm ⟨0⟩⟩), 0)] = .ok (s, out) ∧
      ((∀ ev ∈ deliveries out, ∃ sender g,
        InEvent.recvMessage sender (.gossip g) ∈
          [(InEvent.recvMessage 1 (.gossip ⟨0, [7], .swarm ⟨0⟩⟩), 0)].map Prod.fst ∧
          g.validate fromContent = true ∧ ev = .fromMessage g sender) ∧
      (swarmDeliveryIds fromContent out).Nodup ∧
      ∀ content now post s' out', Machine.run (fun s e => s.handle fromContent e.1 e.2 []) s
          ((.broadcast content .swarm, now) :: post) = .ok (s', out') →
        ∀ ev ∈ deliveries out', fromContent ev.content ≠ fromContent content) := by
  intro fromContent
  obtain ⟨s, out, h⟩ : ∃ s out, Machine.run (fun s e => s.handle fromContent e.1 e.2 [])
      (new (0 : Nat) Config.default) [(.recvMessage 1 (.gossip ⟨0, [7], .swarm ⟨0⟩⟩), 0)] =
        .ok (s, out) := ⟨_, _, rfl⟩
  exact ⟨s, out, h, delivery_authentic_at_most_once fromContent 0 Config.default _ h⟩

/-- A payload we broadcast to our neighbors only is not recorded: a peer that sends it
back to us as a swarm payload has it delivered. -/
theorem neighbors_broadcast_delivered_back :
    let fromContent : List UInt8 → MessageId := fun _ => 0
    ∃ s out, Machine.run (fun s e => s.handle fromContent e.1 e.2 []) (new (0 : Nat) Config.default)
        [(.broadcast [7] .neighbors, 0), (.recvMessage 1 (.gossip ⟨0, [7], .swarm ⟨0⟩⟩), 1)] =
          .ok (s, out) ∧
      (⟨[7], 1, .swarm ⟨0⟩⟩ : GossipEvent Nat) ∈ deliveries out := by
  intro fromContent
  exact ⟨_, _, rfl, by decide⟩

end State

end Iroh.Gossip.Plumtree
