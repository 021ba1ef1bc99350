import Iroh.Gossip.Hyparview

/-! Plumtree, the broadcast layer of a topic (`proto/plumtree.rs`).

Payloads travel along *eager* peers; *lazy* peers get `IHave` announcements, and
ask with `Graft` for what they missed, which makes the asker eager again; a
duplicate payload makes its sender lazy (`Prune`). `received_messages` records
the ids of the payloads seen, and is never expired: the eviction timer expires
only the payload `cache`.

A message id is `MessageId::from_content`, the blake3 hash of the content, which
is a parameter here (`fromContent`). Handlers thread the events pushed so far;
`on_gossip` and `handle` return an `Except Panic`, since `Round::next` adds one to
a `u16` that a peer chose. Statistics are not modelled. The maps (`HashMap`) are
association lists and the sets (`HashSet`) `IndexSet`s: their iteration order is
unspecified in the source, and is insertion order here. -/

namespace Iroh.Gossip.Plumtree

-- the source names a payload `Gossip`, as the namespace above it
set_option linter.dupNamespace false

/-- `MessageId`: 32 bytes. -/
abbrev MessageId := Fin (2 ^ 256)

/-- `Round`: the hops a payload travelled from its broadcaster. -/
structure Round where
  val : UInt16
deriving DecidableEq, Repr

/-- `Round::next`: `u16` addition, which panics on overflow. -/
def Round.next (r : Round) : Except Panic Round :=
  if r.val.toNat + 1 < 2 ^ 16 then .ok ⟨r.val + 1⟩ else .error .arithmeticOverflow

/-- The derived `Sub` of `Round`: `u16` subtraction, which panics on underflow. -/
def Round.sub (a b : Round) : Except Panic Round :=
  if b.val ≤ a.val then .ok ⟨a.val - b.val⟩ else .error .arithmeticOverflow

/-- `DeliveryScope`. -/
inductive DeliveryScope where
  | swarm (round : Round)
  | neighbors
deriving DecidableEq, Repr

/-- `Scope` of a broadcast. -/
inductive Scope where
  | swarm
  | neighbors
deriving DecidableEq, Repr

/-- `Gossip`: a payload. -/
structure Gossip where
  id : MessageId
  content : List UInt8
  scope : DeliveryScope
deriving DecidableEq, Repr

/-- `Gossip::round`. -/
def Gossip.round (g : Gossip) : Option Round :=
  match g.scope with
  | .swarm round => some round
  | .neighbors => none

/-- `Gossip::next_round`: the payload one round further, for the swarm scope. -/
def Gossip.nextRound (g : Gossip) : Except Panic (Option Gossip) :=
  match g.scope with
  | .neighbors => .ok none
  | .swarm round =>
    match round.next with
    | .error e => .error e
    | .ok round => .ok (some ⟨g.id, g.content, .swarm round⟩)

/-- `Gossip::validate`: the id is the hash of the content. -/
def Gossip.validate (fromContent : List UInt8 → MessageId) (g : Gossip) : Bool :=
  fromContent g.content == g.id

/-- `IHave`. -/
structure IHave where
  id : MessageId
  round : Round
deriving DecidableEq, Repr

/-- `Graft`. -/
structure Graft where
  id : Option MessageId
  round : Round
deriving DecidableEq, Repr

/-- `Message`. -/
inductive Message where
  | gossip (gossip : Gossip)
  | prune
  | graft (graft : Graft)
  | iHave (iHaves : List IHave)
deriving DecidableEq, Repr

/-- `Timer`. -/
inductive Timer where
  | sendGraft (id : MessageId)
  | dispatchLazyPush
  | evictCache
deriving DecidableEq, Repr

/-- `GossipEvent`: a payload delivered to the application. -/
structure GossipEvent (PI : Type) where
  content : List UInt8
  deliveredFrom : PI
  scope : DeliveryScope
deriving DecidableEq, Repr

/-- `GossipEvent::from_message`. -/
def GossipEvent.fromMessage {PI : Type} (message : Gossip) (sender : PI) : GossipEvent PI :=
  ⟨message.content, sender, message.scope⟩

/-- `Event`. -/
inductive Event (PI : Type) where
  | received (event : GossipEvent PI)
deriving DecidableEq, Repr

/-- `InEvent`. -/
inductive InEvent (PI : Type) where
  | recvMessage (sender : PI) (message : Message)
  | broadcast (content : List UInt8) (scope : Scope)
  | timerExpired (timer : Timer)
  | neighborUp (peer : PI)
  | neighborDown (peer : PI)
deriving DecidableEq, Repr

/-- `OutEvent`. Durations are numbers. -/
inductive OutEvent (PI : Type) where
  | sendMessage (peer : PI) (message : Message)
  | scheduleTimer (delay : Nat) (timer : Timer)
  | emitEvent (event : Event PI)
deriving DecidableEq, Repr

/-- `Config`. Durations are in milliseconds. -/
structure Config where
  graftTimeout1 : Nat
  graftTimeout2 : Nat
  dispatchTimeout : Nat
  optimizationThreshold : Round
  messageCacheRetention : Nat
  messageIdRetention : Nat
  cacheEvictInterval : Nat
deriving DecidableEq, Repr

/-- `Config::default`. -/
def Config.default : Config where
  graftTimeout1 := 80
  graftTimeout2 := 40
  dispatchTimeout := 5
  optimizationThreshold := ⟨7⟩
  messageCacheRetention := 30000
  messageIdRetention := 90000
  cacheEvictInterval := 1000

/-- `State`. -/
structure State (PI : Type) where
  me : PI
  config : Config
  eagerPushPeers : IndexSet PI
  lazyPushPeers : IndexSet PI
  lazyPushQueue : List (PI × List IHave)
  missingMessages : List (MessageId × List (PI × Round))
  receivedMessages : TimeBoundCache MessageId Unit
  cache : TimeBoundCache MessageId Gossip
  graftTimerScheduled : IndexSet MessageId
  dispatchTimerScheduled : Bool
  init : Bool

/-- The events pushed to `io`, in order. -/
abbrev Outbox (PI : Type) := List (OutEvent PI)

/-! ### Map entries -/

section Entries

variable {K V : Type} [DecidableEq K]

/-- `entry(key).or_default().push(value)`. -/
def pushEntry (m : List (K × List V)) (key : K) (value : V) : List (K × List V) :=
  if m.any (·.1 = key) then m.map fun e => if e.1 = key then (e.1, e.2 ++ [value]) else e
  else m ++ [(key, [value])]

/-- `remove(key)`: the key's values, if it has an entry. -/
def removeEntry (m : List (K × List V)) (key : K) : Option (List V) × List (K × List V) :=
  ((m.find? (·.1 = key)).map (·.2), m.filter (·.1 ≠ key))

/-- `get_mut(key).and_then(pop_front)`: the first of the key's values. -/
def popFrontEntry (m : List (K × List V)) (key : K) : Option V × List (K × List V) :=
  match (m.find? (·.1 = key)).map (·.2) with
  | some (v :: _) => (some v, m.map fun e => if e.1 = key then (e.1, e.2.tail) else e)
  | _ => (none, m)

end Entries

/-- The first pair with the least round: `min_by` on the rounds keeps the first of equals. -/
def minByRound {PI : Type} : List (PI × Round) → Option (PI × Round)
  | [] => none
  | x :: xs =>
    match minByRound xs with
    | none => some x
    | some y => if y.2.val < x.2.val then some y else some x

namespace State

variable {PI : Type} [DecidableEq PI] (fromContent : List UInt8 → MessageId)

/-- `State::new`. -/
def new (me : PI) (config : Config) : State PI where
  me := me
  config := config
  eagerPushPeers := .empty
  lazyPushPeers := .empty
  lazyPushQueue := []
  missingMessages := []
  receivedMessages := .empty
  cache := .empty
  graftTimerScheduled := .empty
  dispatchTimerScheduled := false
  init := false

/-- `add_eager`: move the peer into the eager set. -/
def addEager (s : State PI) (peer : PI) : State PI :=
  { s with
    lazyPushPeers := (s.lazyPushPeers.remove peer).2
    eagerPushPeers := s.eagerPushPeers.insert peer }

/-- `add_lazy`: move the peer into the lazy set. -/
def addLazy (s : State PI) (peer : PI) : State PI :=
  { s with
    eagerPushPeers := (s.eagerPushPeers.remove peer).2
    lazyPushPeers := s.lazyPushPeers.insert peer }

/-- `eager_push`: the payload to every eager peer but us and the sender. -/
def eagerPush (s : State PI) (gossip : Gossip) (sender : PI) (io : Outbox PI) : Outbox PI :=
  io ++ (s.eagerPushPeers.toList.filter fun peer => peer ≠ s.me ∧ peer ≠ sender).map
    fun peer => .sendMessage peer (.gossip gossip)

/-- `lazy_push`: queue an `IHave` for every lazy peer but the sender, and schedule the
dispatch if it is not. -/
def lazyPush (s : State PI) (gossip : Gossip) (sender : PI) (io : Outbox PI) : State PI × Outbox PI :=
  match gossip.round with
  | none => (s, io)
  | some round =>
    let lazyPushQueue := (s.lazyPushPeers.toList.filter (· ≠ sender)).foldl
      (fun queue peer => pushEntry queue peer ⟨gossip.id, round⟩) s.lazyPushQueue
    let s := { s with lazyPushQueue }
    if !s.dispatchTimerScheduled then
      ({ s with dispatchTimerScheduled := true },
        io ++ [.scheduleTimer s.config.dispatchTimeout .dispatchLazyPush])
    else (s, io)

/-- `lazy_push` changes the queue and the dispatch flag only. -/
theorem lazyPush_fst (s : State PI) (gossip : Gossip) (sender : PI) (io : Outbox PI) :
    ∃ queue scheduled, (s.lazyPush gossip sender io).1 =
      { s with lazyPushQueue := queue, dispatchTimerScheduled := scheduled } := by
  unfold lazyPush
  split
  · exact ⟨s.lazyPushQueue, s.dispatchTimerScheduled, rfl⟩
  · dsimp only
    split
    · exact ⟨_, true, rfl⟩
    · exact ⟨_, s.dispatchTimerScheduled, rfl⟩

@[simp] theorem lazyPush_eagerPushPeers (s : State PI) (gossip : Gossip) (sender : PI)
    (io : Outbox PI) : (s.lazyPush gossip sender io).1.eagerPushPeers = s.eagerPushPeers := by
  obtain ⟨_, _, h⟩ := lazyPush_fst s gossip sender io
  rw [h]

@[simp] theorem lazyPush_lazyPushPeers (s : State PI) (gossip : Gossip) (sender : PI)
    (io : Outbox PI) : (s.lazyPush gossip sender io).1.lazyPushPeers = s.lazyPushPeers := by
  obtain ⟨_, _, h⟩ := lazyPush_fst s gossip sender io
  rw [h]

@[simp] theorem lazyPush_missingMessages (s : State PI) (gossip : Gossip) (sender : PI)
    (io : Outbox PI) : (s.lazyPush gossip sender io).1.missingMessages = s.missingMessages := by
  obtain ⟨_, _, h⟩ := lazyPush_fst s gossip sender io
  rw [h]

@[simp] theorem lazyPush_receivedMessages (s : State PI) (gossip : Gossip) (sender : PI)
    (io : Outbox PI) : (s.lazyPush gossip sender io).1.receivedMessages = s.receivedMessages := by
  obtain ⟨_, _, h⟩ := lazyPush_fst s gossip sender io
  rw [h]

@[simp] theorem lazyPush_graftTimerScheduled (s : State PI) (gossip : Gossip) (sender : PI)
    (io : Outbox PI) :
    (s.lazyPush gossip sender io).1.graftTimerScheduled = s.graftTimerScheduled := by
  obtain ⟨_, _, h⟩ := lazyPush_fst s gossip sender io
  rw [h]

@[simp] theorem lazyPush_cache (s : State PI) (gossip : Gossip) (sender : PI) (io : Outbox PI) :
    (s.lazyPush gossip sender io).1.cache = s.cache := by
  obtain ⟨_, _, h⟩ := lazyPush_fst s gossip sender io
  rw [h]

/-- `on_dispatch_timer`: send the queued `IHave`s. -/
def onDispatchTimer (s : State PI) (io : Outbox PI) : State PI × Outbox PI :=
  ({ s with lazyPushQueue := [], dispatchTimerScheduled := false },
    io ++ s.lazyPushQueue.map fun (peer, list) => .sendMessage peer (.iHave list))

/-- `broadcast`: record a swarm payload as received and cached, announce it lazily,
and push it to the eager peers. -/
def broadcast (s : State PI) (content : List UInt8) (scope : Scope) (now : Nat) (io : Outbox PI) :
    State PI × Outbox PI :=
  let id := fromContent content
  let scope : DeliveryScope :=
    match scope with
    | .neighbors => .neighbors
    | .swarm => .swarm ⟨0⟩
  let message : Gossip := ⟨id, content, scope⟩
  let me := s.me
  let (s, io) :=
    match scope with
    | .swarm _ =>
      let s := { s with
        receivedMessages := s.receivedMessages.insert id () (now + s.config.messageIdRetention),
        cache := s.cache.insert id message (now + s.config.messageCacheRetention) }
      s.lazyPush message me io
    | .neighbors => (s, io)
  (s, s.eagerPush message me io)

/-- `optimize_tree`: if an `IHave` for the payload came over far fewer hops than the
payload, graft its sender and prune the payload's. -/
def optimizeTree (s : State PI) (gossipSender : PI) (message : Gossip)
    (previousIhaves : List (PI × Round)) (io : Outbox PI) : Except Panic (Outbox PI) :=
  match message.round with
  | none => .error .unreachable
  | some round =>
    match minByRound previousIhaves with
    | none => .ok io
    | some (ihavePeer, ihaveRound) =>
      if ihaveRound.val < round.val then
        match round.sub ihaveRound with
        | .error e => .error e
        | .ok hops =>
          if hops.val ≥ s.config.optimizationThreshold.val then
            let io :=
              if !s.eagerPushPeers.contains ihavePeer then
                io ++ [.sendMessage ihavePeer (.graft ⟨none, ihaveRound⟩)]
              else io
            .ok (io ++ [.sendMessage gossipSender .prune])
          else .ok io
      else .ok io

/-- `on_gossip`: ignore a payload whose id is not its hash; prune the sender of a
duplicate; otherwise record a swarm payload, forward it one round further, and
deliver it. -/
def onGossip (s : State PI) (sender : PI) (message : Gossip) (now : Nat) (io : Outbox PI) :
    Except Panic (State PI × Outbox PI) :=
  if !message.validate fromContent then .ok (s, io)
  else if s.receivedMessages.containsKey message.id then
    .ok (s.addLazy sender, io ++ [.sendMessage sender .prune])
  else
    let forwarded : Except Panic (State PI × Outbox PI) :=
      match message.scope with
      | .swarm _ =>
        let s := { s with
          receivedMessages := s.receivedMessages.insert message.id () (now + s.config.messageIdRetention) }
        match message.nextRound with
        | .error e => .error e
        -- `expect("just checked")`: a swarm payload has a next round
        | .ok none => .error .unreachable
        | .ok (some message) =>
          let s := { s with
            cache := s.cache.insert message.id message (now + s.config.messageCacheRetention) }
          let io := s.eagerPush message sender io
          let (s, io) := s.lazyPush message sender io
          let s := { s with graftTimerScheduled := (s.graftTimerScheduled.remove message.id).2 }
          let (previousIhaves, missingMessages) := removeEntry s.missingMessages message.id
          let s := { s with missingMessages }
          match previousIhaves with
          | some previousIhaves =>
            match s.optimizeTree sender message previousIhaves io with
            | .error e => .error e
            | .ok io => .ok (s, io)
          | none => .ok (s, io)
      | .neighbors => .ok (s, io)
    match forwarded with
    | .error e => .error e
    | .ok (s, io) => .ok (s, io ++ [.emitEvent (.received (GossipEvent.fromMessage message sender))])

/-- What `on_gossip` can do: ignore a spoofed payload, prune the sender of a duplicate,
deliver a neighbor payload, or record, cache and forward a swarm payload, clear its
graft mark and announcements, and deliver it. -/
theorem onGossip_cases {s s' : State PI} {sender : PI} {g : Gossip} {now : Nat}
    {io io' : Outbox PI} (hr : s.onGossip fromContent sender g now io = .ok (s', io')) :
    (g.validate fromContent = false ∧ s' = s ∧ io' = io) ∨
    (g.validate fromContent = true ∧ s.receivedMessages.containsKey g.id = true ∧
      s' = s.addLazy sender ∧ io' = io ++ [.sendMessage sender .prune]) ∨
    (g.validate fromContent = true ∧ s.receivedMessages.containsKey g.id = false ∧
      g.scope = .neighbors ∧ s' = s ∧ io' = io ++ [.emitEvent (.received (.fromMessage g sender))]) ∨
    (g.validate fromContent = true ∧ s.receivedMessages.containsKey g.id = false ∧
      ∃ r m io₁, g.scope = .swarm r ∧ g.nextRound = .ok (some m) ∧
        let s₁ : State PI := { s with
          receivedMessages := s.receivedMessages.insert g.id () (now + s.config.messageIdRetention),
          cache := s.cache.insert m.id m (now + s.config.messageCacheRetention) }
        let pushed := s₁.lazyPush m sender (s₁.eagerPush m sender io)
        s' = { pushed.1 with
          graftTimerScheduled := (pushed.1.graftTimerScheduled.remove m.id).2,
          missingMessages := (removeEntry pushed.1.missingMessages m.id).2 } ∧
        io' = io₁ ++ [.emitEvent (.received (.fromMessage g sender))] ∧
        ((removeEntry pushed.1.missingMessages m.id).1 = none ∧ io₁ = pushed.2 ∨
          ∃ previousIhaves, (removeEntry pushed.1.missingMessages m.id).1 = some previousIhaves ∧
            s'.optimizeTree sender m previousIhaves pushed.2 = .ok io₁)) := by
  cases hv : g.validate fromContent
  · simp only [onGossip, hv, Bool.not_false, if_true, Except.ok.injEq, Prod.mk.injEq] at hr
    exact .inl ⟨rfl, hr.1.symm, hr.2.symm⟩
  cases hc : s.receivedMessages.containsKey g.id
  case true =>
    simp only [onGossip, hv, hc, Bool.not_true, Bool.false_eq_true, if_false, if_true,
      Except.ok.injEq, Prod.mk.injEq] at hr
    exact .inr (.inl ⟨rfl, rfl, hr.1.symm, hr.2.symm⟩)
  refine .inr (.inr ?_)
  cases hscope : g.scope with
  | neighbors =>
    simp only [onGossip, hv, hc, hscope, Bool.not_true, Bool.false_eq_true, if_false,
      Except.ok.injEq, Prod.mk.injEq] at hr
    exact .inl ⟨rfl, rfl, rfl, hr.1.symm, hr.2.symm⟩
  | swarm r =>
    refine .inr ⟨rfl, rfl, r, ?_⟩
    cases hn : g.nextRound with
    | error e => simp [onGossip, hv, hc, hscope, hn] at hr
    | ok next =>
      cases next with
      | none => simp [onGossip, hv, hc, hscope, hn] at hr
      | some m =>
        simp only [onGossip, hv, hc, hscope, hn, Bool.not_true, Bool.false_eq_true, if_false] at hr
        split at hr
        · cases hr
        · rename_i s₁ io₁ hf
          obtain ⟨rfl, rfl⟩ := Prod.mk.inj (Except.ok.inj hr)
          split at hf
          · split at hf
            · cases hf
            · rename_i hprev _ io₂ hopt
              obtain ⟨rfl, rfl⟩ := Prod.mk.inj (Except.ok.inj hf)
              exact ⟨m, io₂, rfl, rfl, rfl, rfl, .inr ⟨_, hprev, hopt⟩⟩
          · rename_i hprev
            obtain ⟨rfl, rfl⟩ := Prod.mk.inj (Except.ok.inj hf)
            exact ⟨m, _, rfl, rfl, rfl, rfl, .inl ⟨hprev, rfl⟩⟩

/-- `on_prune`. -/
def onPrune (s : State PI) (sender : PI) : State PI := s.addLazy sender

/-- One `IHave` of `on_ihave`: note a payload not received, and schedule its graft. -/
def onIHaveOne (s : State PI) (sender : PI) (io : Outbox PI) (iHave : IHave) : State PI × Outbox PI :=
  if !s.receivedMessages.containsKey iHave.id then
    let s := { s with missingMessages := pushEntry s.missingMessages iHave.id (sender, iHave.round) }
    if !s.graftTimerScheduled.contains iHave.id then
      ({ s with graftTimerScheduled := s.graftTimerScheduled.insert iHave.id },
        io ++ [.scheduleTimer s.config.graftTimeout1 (.sendGraft iHave.id)])
    else (s, io)
  else (s, io)

/-- `on_ihave`. -/
def onIHave (s : State PI) (sender : PI) : List IHave → Outbox PI → State PI × Outbox PI
  | [], io => (s, io)
  | iHave :: iHaves, io =>
    let (s, io) := s.onIHaveOne sender io iHave
    s.onIHave sender iHaves io

/-- `on_send_graft_timer`: ask the first peer that announced a payload still missing. -/
def onSendGraftTimer (s : State PI) (id : MessageId) (io : Outbox PI) : State PI × Outbox PI :=
  if s.receivedMessages.containsKey id then (s, io)
  else
    let (entry, missingMessages) := popFrontEntry s.missingMessages id
    let s := { s with missingMessages }
    match entry with
    | some (peer, round) =>
      let s := s.addEager peer
      (s, io ++ [.sendMessage peer (.graft ⟨some id, round⟩),
        .scheduleTimer s.config.graftTimeout2 (.sendGraft id)])
    | none => (s, io)

/-- `on_graft`: make the sender eager, and send it the payload asked for if cached. -/
def onGraft (s : State PI) (sender : PI) (details : Graft) (io : Outbox PI) : State PI × Outbox PI :=
  let s := s.addEager sender
  match details.id with
  | some id =>
    match s.cache.get id with
    | some message => (s, io ++ [.sendMessage sender (.gossip message)])
    | none => (s, io)
  | none => (s, io)

/-- `on_neighbor_up`. -/
def onNeighborUp (s : State PI) (peer : PI) : State PI := s.addEager peer

/-- `on_neighbor_down`: forget the peer's announcements and drop it from both sets. -/
def onNeighborDown (s : State PI) (peer : PI) : State PI :=
  { s with
    missingMessages := s.missingMessages.filterMap fun (id, ihaves) =>
      let ihaves := ihaves.filter (·.1 ≠ peer)
      if ihaves.isEmpty then none else some (id, ihaves)
    eagerPushPeers := (s.eagerPushPeers.remove peer).2
    lazyPushPeers := (s.lazyPushPeers.remove peer).2 }

/-- `on_evict_cache_timer`: expire the payload cache, not the received ids. -/
def onEvictCacheTimer (s : State PI) (now : Nat) (io : Outbox PI) : State PI × Outbox PI :=
  ({ s with cache := s.cache.expireUntil now },
    io ++ [.scheduleTimer s.config.cacheEvictInterval .evictCache])

/-- `handle_message`. -/
def handleMessage (s : State PI) (sender : PI) (message : Message) (now : Nat) (io : Outbox PI) :
    Except Panic (State PI × Outbox PI) :=
  match message with
  | .gossip details => s.onGossip fromContent sender details now io
  | .prune => .ok (s.onPrune sender, io)
  | .iHave details => .ok (s.onIHave sender details io)
  | .graft details => .ok (s.onGraft sender details io)

/-- Run the handler of an event. -/
def dispatch (s : State PI) (event : InEvent PI) (now : Nat) (io : Outbox PI) :
    Except Panic (State PI × Outbox PI) :=
  match event with
  | .recvMessage sender message => s.handleMessage fromContent sender message now io
  | .broadcast data scope => .ok (s.broadcast fromContent data scope now io)
  | .neighborUp peer => .ok (s.onNeighborUp peer, io)
  | .neighborDown peer => .ok (s.onNeighborDown peer, io)
  | .timerExpired .dispatchLazyPush => .ok (s.onDispatchTimer io)
  | .timerExpired (.sendGraft id) => .ok (s.onSendGraftTimer id io)
  | .timerExpired .evictCache => .ok (s.onEvictCacheTimer now io)

/-- `handle`: on the first event, start the eviction timer; then run the handler. -/
def handle (s : State PI) (event : InEvent PI) (now : Nat) (io : Outbox PI) :
    Except Panic (State PI × Outbox PI) :=
  let (s, io) := if !s.init then { s with init := true }.onEvictCacheTimer now io else (s, io)
  s.dispatch fromContent event now io

/-- The first event starts the eviction timer before it is dispatched; every later
event is dispatched as it comes. -/
theorem handle_cases (s : State PI) (event : InEvent PI) (now : Nat) (io : Outbox PI) :
    (s.init = false ∧ s.handle fromContent event now io =
      ({ s with init := true }.onEvictCacheTimer now io).1.dispatch fromContent event now
        ({ s with init := true }.onEvictCacheTimer now io).2) ∨
    (s.init = true ∧ s.handle fromContent event now io = s.dispatch fromContent event now io) := by
  cases hi : s.init
  · exact .inl ⟨rfl, by simp only [handle, hi, Bool.not_false, if_true]⟩
  · exact .inr ⟨rfl, by simp only [handle, hi, Bool.not_true, Bool.false_eq_true, if_false]⟩

end State

end Iroh.Gossip.Plumtree
