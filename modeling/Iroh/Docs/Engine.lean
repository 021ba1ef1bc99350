import Iroh.Lib.Machine

/-! The live actor's sync state for a document (`engine/state.rs`, `engine/live.rs`).

For each namespace and peer a node keeps a `PeerState`: idle, or running one sync
exchange that it either started (`Origin::Connect`) or accepted from the peer
(`Origin::Accept`). `sync_with_peer` starts a connect only from idle; a request
from the peer is accepted when idle, refused while an accept runs, and, while a
connect runs, decided by comparing the two node ids (`expected_sync_direction`),
so that of two crossing connects exactly one is accepted. `on_sync_finished` makes
the state idle again, and starts a resync when a sync report arrived meanwhile.
The connect's handler drops a `RemoteAbort(AlreadySyncing)` without finishing, and
so does the accept's handler for its own `AlreadySyncing` abort: each assumes the
crossing exchange will finish the state.

`World` runs the handlers of any number of nodes for one namespace, with the
exchanges in flight: each is a connect that its node started, which reaches the
peer (`accept_sync_request`) and then ends at each side, in any order. What the
exchange carries, the clock, the last sync's result and the events to subscribers
are not modelled; the namespace is one that every node syncs. -/

namespace Iroh.Docs.Engine

/-- `SyncReason`: why a sync was started. -/
inductive SyncReason where
  | directJoin
  | newNeighbor
  | syncReport
  | resync
deriving DecidableEq, Repr

/-- `Origin`: who started an exchange. -/
inductive Origin where
  | connect (reason : SyncReason)
  | accept
deriving DecidableEq, Repr

/-- `SyncState`, without the start time. -/
inductive SyncState where
  | idle
  | running (origin : Origin)
deriving DecidableEq, Repr

/-- `AbortReason`. -/
inductive AbortReason where
  | notFound
  | alreadySyncing
  | internalServerError
deriving DecidableEq, Repr

/-- `AcceptOutcome`. -/
inductive AcceptOutcome where
  | allow
  | reject (reason : AbortReason)
deriving DecidableEq, Repr

/-- `SyncDirection`. -/
inductive SyncDirection where
  | accept
  | connect
deriving DecidableEq, Repr

/-- `expected_sync_direction`: of two crossing connects, the node with the larger
id accepts. -/
def expectedSyncDirection {N : Type} [LinearOrder N] (self other : N) : SyncDirection :=
  if self > other then .accept else .connect

/-- `PeerState`, without the last sync's result. -/
structure PeerState where
  state : SyncState := .idle
  resyncRequested : Bool := false
deriving DecidableEq, Repr

namespace PeerState

/-- `finish`: the state is idle again; the answer is the resync flag, if a sync was
running. -/
def finish (p : PeerState) (_origin : Origin) : Option Bool × PeerState :=
  let resync := match p.state with
    | .running _ => some p.resyncRequested
    | .idle => none
  (resync, { p with state := .idle })

/-- `set_sync_running`. -/
def setSyncRunning (p : PeerState) (origin : Origin) : PeerState :=
  { p with state := .running origin, resyncRequested := false }

/-- `start_connect`: whether the connect goes ahead. A sync report that finds a sync
running asks for a resync. -/
def startConnect (p : PeerState) (reason : SyncReason) : Bool × PeerState :=
  match p.state with
  | .running _ => (false, if reason = .syncReport then { p with resyncRequested := true } else p)
  | .idle => (true, p.setSyncRunning (.connect reason))

/-- `accept_request`. -/
def acceptRequest {N : Type} [LinearOrder N] (p : PeerState) (me node : N) :
    AcceptOutcome × PeerState :=
  let outcome : AcceptOutcome := match p.state with
    | .idle => .allow
    | .running .accept => .reject .alreadySyncing
    | .running (.connect _) =>
      match expectedSyncDirection me node with
      | .accept => .allow
      | .connect => .reject .alreadySyncing
  match outcome with
  | .allow => (outcome, p.setSyncRunning .accept)
  | .reject _ => (outcome, p)

end PeerState

/-- How a connect ended, as `on_sync_via_connect_finished` sees it. -/
inductive ConnectResult where
  | ok
  | remoteAbort (reason : AbortReason)
  /-- any other `ConnectError` -/
  | failed
deriving DecidableEq, Repr

/-- How an accepted connection ended, as `on_sync_via_accept_finished` sees it; every
error after the request was read names the namespace and the peer. -/
inductive AcceptResult where
  | ok
  | abort (reason : AbortReason)
  /-- any other `AcceptError` -/
  | failed
deriving DecidableEq, Repr

namespace PeerState

/-- `on_sync_finished` for the pair: finish, and start the resync connect if one was
asked for (`sync_with_peer(.., Resync)`), answering its reason. -/
def onSyncFinished (p : PeerState) (origin : Origin) : PeerState × Option SyncReason :=
  match p.finish origin with
  | (some true, p) =>
    match p.startConnect .resync with
    | (true, p) => (p, some .resync)
    | (false, p) => (p, none)
  | (_, p) => (p, none)

/-- `on_sync_via_connect_finished`: a remote `AlreadySyncing` abort is dropped. -/
def onSyncViaConnectFinished (p : PeerState) (reason : SyncReason) :
    ConnectResult → PeerState × Option SyncReason
  | .remoteAbort .alreadySyncing => (p, none)
  | _ => p.onSyncFinished (.connect reason)

/-- `on_sync_via_accept_finished`: our own `AlreadySyncing` abort is dropped. -/
def onSyncViaAcceptFinished (p : PeerState) : AcceptResult → PeerState × Option SyncReason
  | .abort .alreadySyncing => (p, none)
  | _ => p.onSyncFinished .accept

end PeerState

/-- Where an exchange is: its request on the way to the peer, or answered. -/
inductive Stage where
  | requested
  | allowed
  | rejected (reason : AbortReason)
deriving DecidableEq, Repr

/-- The stage an answer to a request leaves an exchange in. -/
def AcceptOutcome.stage : AcceptOutcome → Stage
  | .allow => .allowed
  | .reject reason => .rejected reason

/-- How the connect side of an exchange ends: a refused one with the refusal. -/
def Stage.connectResult (stage : Stage) (result : ConnectResult) : ConnectResult :=
  match stage with
  | .rejected reason => .remoteAbort reason
  | _ => result

/-- How the accept side of an exchange ends: a refused one with the refusal. -/
def Stage.acceptResult (stage : Stage) (result : AcceptResult) : AcceptResult :=
  match stage with
  | .rejected reason => .abort reason
  | _ => result

/-- A sync exchange that `initiator` started with `responder`, and which of its two
sides have not finished. -/
structure Exchange (N : Type) where
  initiator : N
  responder : N
  reason : SyncReason
  stage : Stage
  connectOpen : Bool
  acceptOpen : Bool
deriving DecidableEq, Repr

/-- The nodes' states for one namespace (each node's state for each peer) and the
exchanges in flight. -/
structure World (N : Type) where
  state : N → N → PeerState
  exchanges : List (Exchange N)

/-- What happens next: a node syncs with a peer, a request reaches its peer, or a
side of an exchange ends. A rejected exchange ends with the rejection on both sides,
whatever result the event names. -/
inductive Event (N : Type) where
  | sync (node peer : N) (reason : SyncReason)
  | arrive (index : Nat)
  | connectEnds (index : Nat) (result : ConnectResult)
  | acceptEnds (index : Nat) (result : AcceptResult)

namespace World

variable {N : Type} [LinearOrder N]

/-- Every node idle, nothing in flight. -/
def init : World N := ⟨fun _ _ => {}, []⟩

/-- Replace one node's state for one peer. -/
def setState (w : World N) (node peer : N) (p : PeerState) : World N :=
  { w with state := Function.update w.state node (Function.update (w.state node) peer p) }

/-- A connect that a handler spawned, if any. -/
def spawn (w : World N) (node peer : N) : Option SyncReason → World N
  | some reason => { w with exchanges := w.exchanges ++ [⟨node, peer, reason, .requested, true, false⟩] }
  | none => w

/-- `sync_with_peer`. -/
def syncWithPeer (w : World N) (node peer : N) (reason : SyncReason) : World N :=
  let (started, p) := (w.state node peer).startConnect reason
  (w.setState node peer p).spawn node peer (if started then some reason else none)

/-- Replace the exchange at the index. -/
def setExchange (w : World N) (index : Nat) (e : Exchange N) : World N :=
  { w with exchanges := w.exchanges.set index e }

/-- `accept_sync_request` at the peer, when the request of the exchange arrives. -/
def arrive (w : World N) (index : Nat) (e : Exchange N) : World N :=
  let (outcome, p) := (w.state e.responder e.initiator).acceptRequest e.responder e.initiator
  (w.setState e.responder e.initiator p).setExchange index
    { e with stage := outcome.stage, acceptOpen := true }

/-- `on_sync_via_connect_finished` at the node that connected. -/
def connectEnds (w : World N) (index : Nat) (e : Exchange N) (result : ConnectResult) : World N :=
  let (p, resync) := (w.state e.initiator e.responder).onSyncViaConnectFinished e.reason
    (e.stage.connectResult result)
  ((w.setExchange index { e with connectOpen := false }).setState e.initiator e.responder p).spawn
    e.initiator e.responder resync

/-- `on_sync_via_accept_finished` at the peer. -/
def acceptEnds (w : World N) (index : Nat) (e : Exchange N) (result : AcceptResult) : World N :=
  let (p, resync) := (w.state e.responder e.initiator).onSyncViaAcceptFinished
    (e.stage.acceptResult result)
  ((w.setExchange index { e with acceptOpen := false }).setState e.responder e.initiator p).spawn
    e.responder e.initiator resync

/-- One event, if it can happen. -/
def step (w : World N) : Event N → Option (World N)
  | .sync node peer reason => some (w.syncWithPeer node peer reason)
  | .arrive index =>
    match w.exchanges[index]? with
    | some e => if e.stage = .requested ∧ e.connectOpen then some (w.arrive index e) else none
    | none => none
  | .connectEnds index result =>
    match w.exchanges[index]? with
    | some e => if e.connectOpen then some (w.connectEnds index e result) else none
    | none => none
  | .acceptEnds index result =>
    match w.exchanges[index]? with
    | some e => if e.acceptOpen then some (w.acceptEnds index e result) else none
    | none => none

/-- A run of events, each of which must be able to happen. -/
def run (w : World N) (events : List (Event N)) : Option (World N) := events.foldlM step w

/-- None of the exchanges that `node` started or allowed with `peer` is unfinished
on `node`'s side. -/
def Settled (w : World N) (node peer : N) : Prop :=
  ∀ e ∈ w.exchanges, (e.initiator = node → e.responder = peer → e.connectOpen = false) ∧
    (e.responder = node → e.initiator = peer → e.stage = .allowed → e.acceptOpen = false)

instance (w : World N) (node peer : N) : Decidable (w.Settled node peer) := by
  unfold Settled; infer_instance

/-! ### What a step changes -/

@[simp] theorem state_setState_self (w : World N) (node peer : N) (p : PeerState) :
    (w.setState node peer p).state node peer = p := by
  simp [setState]

theorem state_setState_of_ne {w : World N} {node peer x y : N} {p : PeerState}
    (h : ¬ (node = x ∧ peer = y)) : (w.setState node peer p).state x y = w.state x y := by
  by_cases hx : x = node
  · subst hx
    have hy : y ≠ peer := fun hy => h ⟨rfl, hy.symm⟩
    simp [setState, Function.update_of_ne hy]
  · simp [setState, Function.update_of_ne hx]

omit [LinearOrder N] in
@[simp] theorem state_spawn (w : World N) (node peer : N) (reason : Option SyncReason) :
    (w.spawn node peer reason).state = w.state := by
  cases reason <;> rfl

omit [LinearOrder N] in
@[simp] theorem state_setExchange (w : World N) (index : Nat) (e : Exchange N) :
    (w.setExchange index e).state = w.state := rfl

@[simp] theorem exchanges_setState (w : World N) (node peer : N) (p : PeerState) :
    (w.setState node peer p).exchanges = w.exchanges := rfl

omit [LinearOrder N] in
/-- A spawned exchange is a new request from the node to the peer. -/
theorem mem_spawn {w : World N} {node peer : N} {reason : Option SyncReason} {e : Exchange N}
    (h : e ∈ (w.spawn node peer reason).exchanges) :
    e ∈ w.exchanges ∨ ∃ r, e = ⟨node, peer, r, .requested, true, false⟩ := by
  cases reason with
  | none => exact .inl h
  | some r =>
    rcases List.mem_append.mp h with h | h
    · exact .inl h
    · exact .inr ⟨r, List.mem_singleton.mp h⟩

omit [LinearOrder N] in
theorem mem_setExchange {w : World N} {index : Nat} {e e' : Exchange N}
    (h : e ∈ (w.setExchange index e').exchanges) : e ∈ w.exchanges ∨ e = e' :=
  List.mem_or_eq_of_mem_set h

end World

namespace PeerState

/-- A connect that finds a sync running does not start, and leaves it running. -/
theorem startConnect_of_running {p : PeerState} {origin : Origin} (h : p.state = .running origin)
    (reason : SyncReason) :
    (p.startConnect reason).1 = false ∧ (p.startConnect reason).2.state = p.state := by
  simp only [startConnect, h, true_and]
  split <;> simp [h]

/-- A node running a connect refuses the peer's request when the tie-break gives the
connect to it. -/
theorem acceptRequest_of_connect {N : Type} [LinearOrder N] {p : PeerState} {reason : SyncReason}
    {me node : N} (h : p.state = .running (.connect reason))
    (hd : expectedSyncDirection me node = .connect) :
    p.acceptRequest me node = (.reject .alreadySyncing, p) := by
  simp [acceptRequest, h, hd]

end PeerState

namespace World

variable {N : Type} [LinearOrder N]

/-- Node `x` runs a connect with `y` that nothing is left to finish: none of its
connects to `y` is open, and each request of `y` is on the way, with nothing open on
`x`'s side, or was refused by `x` as already syncing. -/
structure Wedged (w : World N) (x y : N) : Prop where
  running : ∃ reason, (w.state x y).state = .running (.connect reason)
  noConnect : ∀ e ∈ w.exchanges, e.initiator = x → e.responder = y → e.connectOpen = false
  noAccept : ∀ e ∈ w.exchanges, e.initiator = y → e.responder = x →
    e.stage = .requested ∧ e.acceptOpen = false ∨ e.stage = .rejected .alreadySyncing

omit [LinearOrder N] in
/-- A new request, or a changed exchange that is not `x`'s with `y`, keeps the
exchanges' part of the state. -/
theorem Wedged.of_exchanges {w w' : World N} {x y : N} (hw : Wedged w x y)
    (hs : (w'.state x y).state = (w.state x y).state)
    (hc : ∀ e ∈ w'.exchanges, e.initiator = x → e.responder = y → e.connectOpen = false)
    (ha : ∀ e ∈ w'.exchanges, e.initiator = y → e.responder = x →
      e.stage = .requested ∧ e.acceptOpen = false ∨ e.stage = .rejected .alreadySyncing) :
    Wedged w' x y :=
  ⟨hs ▸ hw.running, hc, ha⟩

theorem step_arrive_eq_some {w w' : World N} {index : Nat} (h : w.step (.arrive index) = some w') :
    ∃ e, w.exchanges[index]? = some e ∧ e.connectOpen = true ∧ w' = w.arrive index e := by
  simp only [step] at h
  split at h
  · rename_i e hget
    split at h
    · rename_i hopen
      cases h
      exact ⟨e, hget, hopen.2, rfl⟩
    · cases h
  · cases h

theorem step_connectEnds_eq_some {w w' : World N} {index : Nat} {result : ConnectResult}
    (h : w.step (.connectEnds index result) = some w') :
    ∃ e, w.exchanges[index]? = some e ∧ e.connectOpen = true ∧ w' = w.connectEnds index e result := by
  simp only [step] at h
  split at h
  · rename_i e hget
    split at h
    · rename_i hopen
      cases h
      exact ⟨e, hget, hopen, rfl⟩
    · cases h
  · cases h

theorem step_acceptEnds_eq_some {w w' : World N} {index : Nat} {result : AcceptResult}
    (h : w.step (.acceptEnds index result) = some w') :
    ∃ e, w.exchanges[index]? = some e ∧ e.acceptOpen = true ∧ w' = w.acceptEnds index e result := by
  simp only [step] at h
  split at h
  · rename_i e hget
    split at h
    · rename_i hopen
      cases h
      exact ⟨e, hget, hopen, rfl⟩
    · cases h
  · cases h

section Wedged

variable {w : World N} {x y : N}

/-- `x`'s own syncs with `y` are refused; other syncs add a request that is not
`x`'s with `y`. -/
theorem Wedged.syncWithPeer (hw : Wedged w x y) (node peer : N) (reason : SyncReason) :
    Wedged (w.syncWithPeer node peer reason) x y := by
  obtain ⟨r, hr⟩ := hw.running
  by_cases hnp : node = x ∧ peer = y
  · obtain ⟨rfl, rfl⟩ := hnp
    obtain ⟨hf, hs⟩ := PeerState.startConnect_of_running hr reason
    refine ⟨⟨r, ?_⟩, fun e he => ?_, fun e he => ?_⟩
    · simpa [World.syncWithPeer, hf] using hs.trans hr
    all_goals simp only [World.syncWithPeer, hf, Bool.false_eq_true, if_false] at he
    · exact hw.noConnect e he
    · exact hw.noAccept e he
  · refine hw.of_exchanges (by simp [World.syncWithPeer, state_setState_of_ne hnp]) ?_ ?_ <;>
      intro e he <;> rcases mem_spawn he with he | ⟨r', rfl⟩
    · exact hw.noConnect e he
    · exact fun h₁ h₂ => absurd ⟨h₁, h₂⟩ hnp
    · exact hw.noAccept e he
    · exact fun _ _ => .inl ⟨rfl, rfl⟩

/-- A request of `y` that reaches `x` is refused as already syncing. -/
theorem Wedged.arrive (hxy : x < y) (hw : Wedged w x y) {index : Nat} {e : Exchange N}
    (hget : w.exchanges[index]? = some e) (hc : e.connectOpen = true) :
    Wedged (w.arrive index e) x y := by
  obtain ⟨r, hr⟩ := hw.running
  have hmem := List.mem_of_getElem? hget
  have hnx : e.initiator = x → e.responder = y → False := fun h₁ h₂ => by
    simp [hw.noConnect e hmem h₁ h₂] at hc
  by_cases hre : e.responder = x ∧ e.initiator = y
  · have hd : expectedSyncDirection x y = .connect := by
      simp [expectedSyncDirection, not_lt.mpr hxy.le]
    have hacc : (w.state e.responder e.initiator).acceptRequest e.responder e.initiator =
        (.reject .alreadySyncing, w.state x y) := by
      rw [hre.1, hre.2]
      exact PeerState.acceptRequest_of_connect hr hd
    simp only [World.arrive, hacc]
    refine hw.of_exchanges (by simp [← hre.1, ← hre.2]) ?_ ?_ <;>
      intro e' he' <;> rcases mem_setExchange he' with he' | rfl
    · exact hw.noConnect e' he'
    · exact fun h₁ h₂ => (hnx h₁ h₂).elim
    · exact hw.noAccept e' he'
    · exact fun _ _ => .inr rfl
  · simp only [World.arrive]
    generalize (w.state e.responder e.initiator).acceptRequest e.responder e.initiator = acc
    obtain ⟨outcome, p⟩ := acc
    refine hw.of_exchanges (by simp [state_setState_of_ne hre]) ?_ ?_ <;>
      intro e' he' <;> rcases mem_setExchange he' with he' | rfl
    · exact hw.noConnect e' he'
    · exact fun h₁ h₂ => (hnx h₁ h₂).elim
    · exact hw.noAccept e' he'
    · exact fun h₁ h₂ => absurd ⟨h₂, h₁⟩ hre

/-- No connect of `x` to `y` is open, so a connect that ends is another node's. -/
theorem Wedged.connectEnds (hw : Wedged w x y) {index : Nat} {e : Exchange N}
    (hget : w.exchanges[index]? = some e) (hc : e.connectOpen = true) (result : ConnectResult) :
    Wedged (w.connectEnds index e result) x y := by
  have hmem := List.mem_of_getElem? hget
  have hnx : ¬ (e.initiator = x ∧ e.responder = y) := fun ⟨h₁, h₂⟩ => by
    simp [hw.noConnect e hmem h₁ h₂] at hc
  simp only [World.connectEnds]
  generalize (w.state e.initiator e.responder).onSyncViaConnectFinished e.reason
    (e.stage.connectResult result) = acc
  obtain ⟨p, resync⟩ := acc
  refine hw.of_exchanges (by simp [state_setState_of_ne hnx]) ?_ ?_ <;>
    intro e' he' <;> rcases mem_spawn he' with he' | ⟨r', rfl⟩
  all_goals try rcases mem_setExchange he' with he' | rfl
  · exact hw.noConnect e' he'
  · exact fun _ _ => rfl
  · exact fun h₁ h₂ => absurd ⟨h₁, h₂⟩ hnx
  · exact hw.noAccept e' he'
  · exact hw.noAccept e hmem
  · exact fun _ _ => .inl ⟨rfl, rfl⟩

/-- An accept side that ends at `x` is of a refused request of `y`, which is
dropped; any other leaves `x`'s state as it is. -/
theorem Wedged.acceptEnds (hxy : x < y) (hw : Wedged w x y) {index : Nat} {e : Exchange N}
    (hget : w.exchanges[index]? = some e) (ha : e.acceptOpen = true) (result : AcceptResult) :
    Wedged (w.acceptEnds index e result) x y := by
  have hmem := List.mem_of_getElem? hget
  by_cases hre : e.responder = x ∧ e.initiator = y
  · have hstage : e.stage = .rejected .alreadySyncing := by
      rcases hw.noAccept e hmem hre.2 hre.1 with ⟨-, hno⟩ | hs
      · simp [hno] at ha
      · exact hs
    have hdrop : (w.state e.responder e.initiator).onSyncViaAcceptFinished
        (e.stage.acceptResult result) = (w.state e.responder e.initiator, none) := by
      simp [hstage, Stage.acceptResult, PeerState.onSyncViaAcceptFinished]
    simp only [World.acceptEnds, hdrop]
    refine hw.of_exchanges (by simp [← hre.1, ← hre.2]) ?_ ?_ <;>
      intro e' he' <;> rcases mem_setExchange he' with he' | rfl
    · exact hw.noConnect e' he'
    · exact fun h₁ _ => absurd (hre.2.symm.trans h₁) hxy.ne'
    · exact hw.noAccept e' he'
    · exact fun _ _ => .inr hstage
  · simp only [World.acceptEnds]
    generalize (w.state e.responder e.initiator).onSyncViaAcceptFinished
      (e.stage.acceptResult result) = acc
    obtain ⟨p, resync⟩ := acc
    refine hw.of_exchanges (by simp [state_setState_of_ne hre]) ?_ ?_ <;>
      intro e' he' <;> rcases mem_spawn he' with he' | ⟨r', rfl⟩
    all_goals try rcases mem_setExchange he' with he' | rfl
    · exact hw.noConnect e' he'
    · exact hw.noConnect e hmem
    · exact fun h₁ h₂ => absurd ⟨h₁, h₂⟩ hre
    · exact hw.noAccept e' he'
    · exact fun h₁ h₂ => absurd ⟨h₂, h₁⟩ hre
    · exact fun _ _ => .inl ⟨rfl, rfl⟩

/-- **A wedged node stays wedged.** When the tie-break gives `x`'s connects the way
over `y`'s requests, no event makes `x` idle again. -/
theorem Wedged.step (hxy : x < y) (hw : Wedged w x y) {w' : World N} {event : Event N}
    (h : w.step event = some w') : Wedged w' x y := by
  cases event with
  | sync node peer reason =>
    cases h
    exact hw.syncWithPeer node peer reason
  | arrive index =>
    obtain ⟨e, hget, hc, rfl⟩ := step_arrive_eq_some h
    exact hw.arrive hxy hget hc
  | connectEnds index result =>
    obtain ⟨e, hget, hc, rfl⟩ := step_connectEnds_eq_some h
    exact hw.connectEnds hget hc result
  | acceptEnds index result =>
    obtain ⟨e, hget, ha, rfl⟩ := step_acceptEnds_eq_some h
    exact hw.acceptEnds hxy hget ha result

/-- Along every run, a wedged node stays wedged. -/
theorem Wedged.run (hxy : x < y) (hw : Wedged w x y) {w' : World N} {events : List (Event N)}
    (h : w.run events = some w') : Wedged w' x y :=
  Machine.foldlM_invariant (fun w => Wedged w x y) (fun _ _ _ hw h => hw.step hxy h) hw h

end Wedged

end World

/-! ### A connect refused by a peer that is still finishing -/

/-- Node 0 syncs with node 1, which accepts. Node 0's side finishes first, and a sync
report makes node 0 connect again while node 1 still runs the accept: node 1 refuses
as already syncing, and node 0 drops the remote abort without finishing. When node
1's accept ends, no exchange of node 0 with node 1 is open on either side, yet node
0 still runs a connect; and since node 0 has the smaller id, nothing ever makes it
idle again, so each of its later syncs with node 1 is refused. -/
theorem remote_abort_leaves_connect_running :
    ∃ w, (World.init : World Nat).run [.sync 0 1 .directJoin, .arrive 0, .connectEnds 0 .ok,
        .sync 0 1 .syncReport, .arrive 1, .connectEnds 1 (.remoteAbort .alreadySyncing),
        .acceptEnds 1 (.abort .alreadySyncing), .acceptEnds 0 .ok] = some w ∧
      w.Settled 0 1 ∧ w.Settled 1 0 ∧ (w.state 0 1).state = .running (.connect .syncReport) ∧
      (w.state 1 0).state = .idle ∧
      ∀ events w', w.run events = some w' → ∃ reason, (w'.state 0 1).state = .running (.connect reason) :=
  ⟨_, rfl, by decide, by decide, rfl, rfl, fun _ _ h =>
    (World.Wedged.run (by decide) ⟨⟨.syncReport, rfl⟩, by decide, by decide⟩ h).running⟩

end Iroh.Docs.Engine
