import Iroh.Lib.Machine
import Iroh.Net.NodeMap

/-! The direct paths of a node (`node_map/node_state.rs`, `node_map/udp_paths.rs`,
`node_map/best_addr.rs`, `node_map/path_state.rs`).

A node keeps a state per UDP path, keyed by `IpPort`, the best address it sends on
(`best_addr`), and the pings it sent and waits for a pong to. Times are milliseconds, and
the `Instant::now()` an operation reads is one of its arguments; the random choice of
`send_addr` is an index into the candidates.

`Selected` is what the code means `best_addr` to be: an address on a known path, and every
path's last pong from that path (so that a pong promoted by `send_addr` is on a known path
too). Every operation but `handle_pong` keeps it (`Selected.step`); `handle_pong` promotes
the address the answered ping was sent to, not the one the pong came from, and keeps it
when that address is still a known path (`Selected.handlePong`). Pings in flight are not
purged when a path is removed, so a pong that answers a ping to a removed path makes it
the best address (`pong_selects_removed_path`). -/

namespace AList

variable {α : Type*} {β : α → Type*}

/-- Every value changed in place, the keys kept (`values_mut`, `iter_mut`). -/
def mapValues (f : ∀ a, β a → β a) (s : AList β) : AList β :=
  ⟨s.entries.map (Sigma.map id f), List.NodupKeys.map₂ f s.entries s.nodupKeys⟩

@[simp] theorem mem_mapValues {f : ∀ a, β a → β a} {s : AList β} {a : α} :
    a ∈ s.mapValues f ↔ a ∈ s := by
  rw [mem_keys, mem_keys, keys, keys, mapValues, List.map₂_keys]

@[simp] theorem lookup_mapValues [DecidableEq α] {f : ∀ a, β a → β a} {s : AList β} {a : α} :
    (s.mapValues f).lookup a = (s.lookup a).map (f a) :=
  List.dlookup_map₂ a

end AList

namespace Iroh.Net.Disco

/-- `SocketAddr::is_ipv4`. -/
def SocketAddr.isIpv4 (addr : SocketAddr) : Bool :=
  match addr.ip with
  | .v4 _ => true
  | .v6 _ => false

/-- `SocketAddr::is_ipv6`. -/
def SocketAddr.isIpv6 (addr : SocketAddr) : Bool :=
  match addr.ip with
  | .v4 _ => false
  | .v6 _ => true

theorem SocketAddr.isIpv6_eq (addr : SocketAddr) : addr.isIpv6 = !addr.isIpv4 := by
  unfold isIpv6 isIpv4
  split <;> rfl

/-- `IpAddr::is_ipv6`. -/
def IpAddr.isIpv6 : IpAddr → Bool
  | .v4 _ => false
  | .v6 _ => true

/-- `SendAddr::is_relay`. -/
def SendAddr.isRelay {U : Type} : SendAddr U → Bool
  | .relay _ => true
  | .udp _ => false

end Iroh.Net.Disco

namespace Iroh.Net.NodeMap

open Disco

/-- `From<IpPort> for SocketAddr`. -/
def IpPort.toSocketAddr (ipp : IpPort) : SocketAddr := ⟨ipp.ip, ipp.port⟩

@[simp] theorem IpPort.ofSocketAddr_toSocketAddr (ipp : IpPort) :
    IpPort.ofSocketAddr ipp.toSocketAddr = ipp := rfl

@[simp] theorem IpPort.toSocketAddr_ofSocketAddr (addr : SocketAddr) :
    (IpPort.ofSocketAddr addr).toSocketAddr = addr := rfl

end Iroh.Net.NodeMap

namespace Iroh.Net.NodeMap.Paths

open Disco

/-- `TRUST_UDP_ADDR_DURATION`. -/
def trustUdpAddrDuration : Nat := 6500

/-- The trust of a `BestCandidate`: an hour. -/
def bestCandidateTrustDuration : Nat := 3600000

/-- `PING_TIMEOUT_DURATION`. -/
def pingTimeoutDuration : Nat := 5000

/-- `LAST_ALIVE_PRUNE_DURATION`. -/
def lastAlivePruneDuration : Nat := 120000

/-- `SESSION_ACTIVE_TIMEOUT`. -/
def sessionActiveTimeout : Nat := 45000

/-- `DISCO_PING_INTERVAL`. -/
def discoPingInterval : Nat := 5000

/-- `HEARTBEAT_INTERVAL`. -/
def heartbeatInterval : Nat := 5000

/-- `MAX_LATENCY` of `assign_best_addr_from_candidates_if_empty`. -/
def maxLatency : Nat := 3600000

/-- `PingRole`. -/
inductive PingRole where
  | duplicate
  | newPath
  | likelyHeartbeat
  | activate
deriving DecidableEq, Repr

/-- `DiscoPingPurpose`. -/
inductive DiscoPingPurpose where
  | discovery
  | stayinAlive
  | pingBack
deriving DecidableEq, Repr

/-! ### A path's state -/

/-- `PongReply`. -/
structure PongReply (U : Type) where
  latency : Nat
  pongAt : Nat
  /-- `from`: the address the pong came from. -/
  fromAddr : SendAddr U
  pongSrc : SendAddr U

/-- `PathState`, without the node id and the sources, which only the logs and
`RemoteInfo` read. -/
structure PathState (U : Type) where
  path : SendAddr U
  lastPing : Option Nat
  lastGotPing : Option (Nat × List UInt8)
  callMeMaybeTime : Option Nat
  recentPong : Option (PongReply U)
  lastPayloadMsg : Option Nat

namespace PathState

variable {U : Type}

/-- `PathState::new`. -/
def new (path : SendAddr U) : PathState U := ⟨path, none, none, none, none, none⟩

/-- `PathState::udp_addr`. -/
def udpAddr (p : PathState U) : Option SocketAddr :=
  match p.path with
  | .udp addr => some addr
  | .relay _ => none

/-- `PathState::handle_ping`. -/
def handlePing (p : PathState U) (txId : List UInt8) (now : Nat) : PathState U × PingRole :=
  if p.lastGotPing.map (·.2) = some txId then (p, .duplicate)
  else
    let prev := p.lastGotPing
    let p := { p with lastGotPing := some (now, txId) }
    let heartbeatDeadline := heartbeatInterval + heartbeatInterval / 2
    match prev with
    | some (prevTime, _) =>
      if now - prevTime ≤ heartbeatDeadline then (p, .likelyHeartbeat) else (p, .activate)
    | none => (p, .activate)

/-- `PathState::with_ping`. -/
def withPing (path : SendAddr U) (txId : List UInt8) (now : Nat) : PathState U :=
  ((new path).handlePing txId now).1

/-- `PathState::add_pong_reply`. -/
def addPongReply (p : PathState U) (r : PongReply U) : PathState U := { p with recentPong := some r }

/-- `PathState::is_active`. -/
def isActive (p : PathState U) (now : Nat) : Bool :=
  match p.lastPayloadMsg with
  | some instant => decide (now - instant ≤ sessionActiveTimeout)
  | none => false

/-- `PathState::last_incoming_ping`. -/
def lastIncomingPing (p : PathState U) : Option Nat := p.lastGotPing.map (·.1)

/-- `PathState::last_alive`: the latest of the last pong, payload, call-me-maybe and
incoming ping. -/
def lastAlive (p : PathState U) : Option Nat :=
  ([p.recentPong.map (·.pongAt), p.lastPayloadMsg, p.callMeMaybeTime, p.lastIncomingPing].filterMap id).max?

/-- `PathState::needs_ping`. -/
def needsPing (p : PathState U) (now : Nat) : Bool :=
  match p.lastPing with
  | none => true
  | some lastPing => decide (now - lastPing > discoPingInterval)

/-- `PathState::clear`. -/
def clear (p : PathState U) : PathState U :=
  { p with lastPing := none, lastGotPing := none, callMeMaybeTime := none, recentPong := none }

end PathState

/-! ### The best address -/

/-- `AddrLatency`. -/
structure AddrLatency where
  addr : SocketAddr
  latency : Nat

/-- `AddrLatency::is_better_than`. -/
def AddrLatency.isBetterThan (a b : AddrLatency) : Bool :=
  if a.addr = b.addr then false
  else if a.addr.isIpv6 && b.addr.isIpv4 then
    -- IPv6 is preferred while the latencies are roughly equal
    if a.latency / 10 * 9 < b.latency then true else a.latency < b.latency
  else if a.addr.isIpv4 && b.addr.isIpv6 then
    if b.isBetterThan a then false else a.latency < b.latency
  else a.latency < b.latency
termination_by if a.addr.isIpv4 && b.addr.isIpv6 then 1 else 0
decreasing_by
  rename_i h
  rw [if_pos h, SocketAddr.isIpv6_eq a.addr]
  simp only [Bool.and_eq_true] at h
  simp [h.1, SocketAddr.isIpv6_eq b.addr] at h ⊢

/-- `BestAddrInner`. -/
structure BestAddrInner where
  addr : AddrLatency
  trustUntil : Option Nat
  confirmedAt : Nat

/-- `BestAddrInner::is_trusted`. -/
def BestAddrInner.isTrusted (s : BestAddrInner) (now : Nat) : Bool :=
  match s.trustUntil with
  | some trustUntil => decide (trustUntil ≥ now)
  | none => false

/-- `best_addr::Source`. -/
inductive BestAddrSource where
  | receivedPong
  | bestCandidate
  | udp
deriving DecidableEq, Repr

/-- `Source::trust_until`. -/
def BestAddrSource.trustUntil : BestAddrSource → Nat → Nat
  | .receivedPong, start => start + trustUdpAddrDuration
  | .bestCandidate, start => start + bestCandidateTrustDuration
  | .udp, start => start + trustUdpAddrDuration

/-- `best_addr::State`. -/
inductive BestAddrState where
  | valid (addr : AddrLatency)
  | outdated (addr : AddrLatency)
  | empty

/-- `BestAddr`. -/
structure BestAddr where
  inner : Option BestAddrInner

namespace BestAddr

/-- `BestAddr::is_empty`. -/
def isEmpty (b : BestAddr) : Bool := b.inner.isNone

/-- `BestAddr::addr`. -/
def addr (b : BestAddr) : Option SocketAddr := b.inner.map (·.addr.addr)

/-- `BestAddr::clear`. -/
def clear (_b : BestAddr) : BestAddr := ⟨none⟩

/-- `BestAddr::clear_if_equals`. -/
def clearIfEquals (b : BestAddr) (addr : SocketAddr) : BestAddr :=
  if b.addr = some addr then b.clear else b

/-- `BestAddr::clear_trust`. -/
def clearTrust (b : BestAddr) : BestAddr := ⟨b.inner.map fun state => { state with trustUntil := none }⟩

/-- `BestAddr::insert`. -/
def insert (_b : BestAddr) (addr : SocketAddr) (latency : Nat) (source : BestAddrSource)
    (confirmedAt : Nat) : BestAddr :=
  ⟨some ⟨⟨addr, latency⟩, some (source.trustUntil confirmedAt), confirmedAt⟩⟩

/-- `BestAddr::insert_if_better_or_reconfirm`. -/
def insertIfBetterOrReconfirm (b : BestAddr) (addr : SocketAddr) (latency : Nat)
    (source : BestAddrSource) (confirmedAt : Nat) : BestAddr :=
  match b.inner with
  | none => b.insert addr latency source confirmedAt
  | some state =>
    if !state.isTrusted confirmedAt || AddrLatency.isBetterThan ⟨addr, latency⟩ state.addr then
      b.insert addr latency source confirmedAt
    else if state.addr.addr = addr then
      ⟨some { state with confirmedAt, trustUntil := some (source.trustUntil confirmedAt) }⟩
    else b

/-- `BestAddr::reconfirm_if_used`. -/
def reconfirmIfUsed (b : BestAddr) (addr : SocketAddr) (source : BestAddrSource)
    (confirmedAt : Nat) : BestAddr :=
  match b.inner with
  | some state =>
    if state.addr.addr = addr then
      ⟨some { state with confirmedAt, trustUntil := some (source.trustUntil confirmedAt) }⟩
    else b
  | none => b

/-- `BestAddr::state`. -/
def state (b : BestAddr) (now : Nat) : BestAddrState :=
  match b.inner with
  | none => .empty
  | some state =>
    match state.trustUntil with
    | some expiry => if now < expiry then .valid state.addr else .outdated state.addr
    | none => .outdated state.addr

end BestAddr

/-! ### The UDP paths -/

/-- `UdpSendAddr`. -/
inductive UdpSendAddr where
  | valid (addr : SocketAddr)
  | outdated (addr : SocketAddr)
  | unconfirmed (addr : SocketAddr)
  | none

/-- `NodeUdpPaths`. -/
structure NodeUdpPaths (U : Type) where
  paths : AList fun _ : IpPort => PathState U
  bestAddr : BestAddr
  chosenCandidate : Option IpPort

/-- `IteratorRandom::choose`, with the random draw as an index. -/
def chooseAt {α : Type} (l : List α) (draw : Nat) : Option α := l[draw % l.length]?

namespace NodeUdpPaths

variable {U : Type}

/-- A step of the fold of `assign_best_addr_from_candidates_if_empty`: the path's pong
if its latency is lower, or equal on an IPv6 path. -/
def bestPongStep (bestPong : Option (PongReply U)) (entry : Σ _ : IpPort, PathState U) :
    Option (PongReply U) :=
  let bestLatency := (bestPong.map (·.latency)).getD maxLatency
  match entry.2.recentPong with
  | some pong =>
    if pong.latency < bestLatency ∨ (pong.latency = bestLatency ∧ entry.1.ip.isIpv6 = true) then
      some pong
    else bestPong
  | none => bestPong

/-- The fold of `assign_best_addr_from_candidates_if_empty`: the pong of least latency
under `MAX_LATENCY`. -/
def bestPong (paths : List (Σ _ : IpPort, PathState U)) : Option (PongReply U) :=
  paths.foldl bestPongStep none

/-- `NodeUdpPaths::assign_best_addr_from_candidates_if_empty`. -/
def assignBestAddrFromCandidatesIfEmpty (u : NodeUdpPaths U) : NodeUdpPaths U :=
  if !u.bestAddr.isEmpty then u
  else
    match bestPong u.paths.entries with
    | some pong =>
      match pong.fromAddr with
      | .udp addr =>
        { u with bestAddr := u.bestAddr.insertIfBetterOrReconfirm addr pong.latency .bestCandidate pong.pongAt }
      | .relay _ => u
    | none => u

/-- `NodeUdpPaths::send_addr`. -/
def sendAddr (u : NodeUdpPaths U) (now : Nat) (haveIpv6 : Bool) (draw : Nat) :
    NodeUdpPaths U × UdpSendAddr :=
  let u := u.assignBestAddrFromCandidatesIfEmpty
  match u.bestAddr.state now with
  | .valid addr => (u, .valid addr.addr)
  | .outdated addr => (u, .outdated addr.addr)
  | .empty =>
    let usable := fun (addr : SocketAddr) => addr.isIpv4 || haveIpv6
    match ((u.chosenCandidate.bind u.paths.lookup).bind PathState.udpAddr).filter usable with
    | some addr => (u, .unconfirmed addr)
    | none =>
      let addr := chooseAt ((u.paths.entries.filterMap fun entry => entry.2.udpAddr).filter usable) draw
      ({ u with chosenCandidate := addr.map IpPort.ofSocketAddr },
        match addr with
        | some addr => .unconfirmed addr
        | none => .none)

end NodeUdpPaths

/-! ### A node's state -/

/-- `SentPing`, without its timer. -/
structure SentPing (U : Type) where
  /-- `to`: where it was sent. -/
  toAddr : SendAddr U
  /-- `at`: when it was sent. -/
  sentAt : Nat
  purpose : DiscoPingPurpose

/-- `SendPing`: a ping to send, whose fresh transaction id `ping_sent` is then told. -/
structure SendPing (U : Type) where
  dst : SendAddr U
  purpose : DiscoPingPurpose

/-- `PingHandled`. -/
structure PingHandled (U : Type) where
  role : PingRole
  needsPingBack : Option (SendPing U)

/-- `NodeState`, as far as its paths go: the node id, the last full ping, the relay URL
with its path state, the UDP paths, the sent pings by transaction id, and the times of
last use and last call-me-maybe. -/
structure NodeState (K U : Type) where
  nodeId : K
  lastFullPing : Option Nat
  relayUrl : Option (U × PathState U)
  udpPaths : NodeUdpPaths U
  sentPings : AList fun _ : List UInt8 => SentPing U
  lastUsed : Option Nat
  lastCallMeMaybe : Option Nat

namespace NodeState

variable {K U : Type} [DecidableEq U] (relayOnlyMode : Bool)

/-- `NodeState::new`. -/
def new (nodeId : K) (relayUrl : Option U) (active : Bool) (now : Nat) : NodeState K U :=
  ⟨nodeId, none, relayUrl.map fun url => (url, PathState.new (.relay url)), ⟨∅, ⟨none⟩, none⟩, ∅,
    if active then some now else none, none⟩

/-- `NodeState::relay_url`. -/
def relayUrlOf (n : NodeState K U) : Option U := n.relayUrl.map (·.1)

/-- Storing the state of the path at `ipp`. -/
def setPath (n : NodeState K U) (ipp : IpPort) (st : PathState U) : NodeState K U :=
  { n with udpPaths := { n.udpPaths with paths := n.udpPaths.paths.insert ipp st } }

/-- Changing the best address. -/
def setBestAddr (n : NodeState K U) (bestAddr : BestAddr) : NodeState K U :=
  { n with udpPaths := { n.udpPaths with bestAddr } }

/-- `NodeState::remove_direct_addr`. -/
def removeDirectAddr (n : NodeState K U) (ipPort : IpPort) : NodeState K U :=
  match n.udpPaths.paths.lookup ipPort with
  | none => n
  | some _ =>
    { n with
      udpPaths := { n.udpPaths with
        paths := n.udpPaths.paths.erase ipPort
        bestAddr := n.udpPaths.bestAddr.clearIfEquals ipPort.toSocketAddr } }

/-- `NodeState::ping_timeout`. -/
def pingTimeout (n : NodeState K U) (txId : List UInt8) (now : Nat) : NodeState K U :=
  match n.sentPings.lookup txId with
  | none => n
  | some sp =>
    let n := { n with sentPings := n.sentPings.erase txId }
    match sp.toAddr with
    | .udp addr =>
      match n.udpPaths.paths.lookup (.ofSocketAddr addr) with
      | some pathState =>
        let pathState := { pathState with lastPing := none }
        let considerAlive := match pathState.lastAlive with
          | some lastAlive => decide (now - lastAlive ≤ pingTimeoutDuration)
          | none => false
        if !considerAlive then
          -- no sign of life within the timeout: neither the pong nor the address is kept
          (n.setPath (.ofSocketAddr addr) { pathState with recentPong := none }).setBestAddr
            (n.udpPaths.bestAddr.clearIfEquals addr)
        else n.setPath (.ofSocketAddr addr) pathState
      | none => n.setBestAddr (n.udpPaths.bestAddr.clearIfEquals addr)
    | .relay url =>
      match n.relayUrl with
      | some (homeRelay, relayState) =>
        if homeRelay = url then { n with relayUrl := some (homeRelay, { relayState with lastPing := none }) }
        else n
      | none => n

/-- `NodeState::start_ping`. -/
def startPing (dst : SendAddr U) (purpose : DiscoPingPurpose) : Option (SendPing U) :=
  if relayOnlyMode && !dst.isRelay then none else some ⟨dst, purpose⟩

/-- `NodeState::ping_sent`: a ping is recorded only on a path the node has. -/
def pingSent (n : NodeState K U) (dst : SendAddr U) (txId : List UInt8) (purpose : DiscoPingPurpose)
    (now : Nat) : NodeState K U :=
  let pathFound : Option (NodeState K U) := match dst with
    | .udp addr =>
      (n.udpPaths.paths.lookup (.ofSocketAddr addr)).map fun st =>
        n.setPath (.ofSocketAddr addr) { st with lastPing := some now }
    | .relay url =>
      match n.relayUrl with
      | some (homeRelay, relayState) =>
        if homeRelay = url then some { n with relayUrl := some (homeRelay, { relayState with lastPing := some now }) }
        else none
      | none => none
  match pathFound with
  | none => n
  | some n => { n with sentPings := n.sentPings.insert txId ⟨dst, now, purpose⟩ }

/-- The prune candidates of `prune_direct_addresses`: the inactive paths not alive within
`LAST_ALIVE_PRUNE_DURATION`, with when they were last alive. -/
def pruneCandidates (n : NodeState K U) (now : Nat) : List (IpPort × Option Nat) :=
  ((n.udpPaths.paths.entries.filter fun entry => !entry.2.isActive now).map
    fun entry => (entry.1, entry.2.lastAlive)).filter fun candidate =>
      match candidate.2 with
      | some lastSeen => decide (now - lastSeen > lastAlivePruneDuration)
      | none => true

/-- `NodeState::prune_direct_addresses`: of the candidates, all but
`MAX_INACTIVE_DIRECT_ADDRESSES` go, the longest dead first. -/
def pruneDirectAddresses (n : NodeState K U) (now : Nat) : NodeState K U :=
  let pruneCandidates := n.pruneCandidates now
  let pruneCount := pruneCandidates.length - maxInactiveDirectAddresses
  if pruneCount = 0 then n
  else
    let pruned := (pruneCandidates.mergeSort fun a b => optionLe a.2 b.2).take pruneCount
    pruned.foldl (fun n candidate => n.removeDirectAddr candidate.1) n

/-- `NodeState::send_pings`: a ping to the relay if it needs one, then, unless in relay-only
mode, the paths pruned and a ping to every path that needs one. -/
def sendPings (n : NodeState K U) (now : Nat) : NodeState K U × List (SendPing U) :=
  let relayPing := match n.relayUrl with
    | some (url, state) => if state.needsPing now then (startPing relayOnlyMode (.relay url) .discovery).toList else []
    | none => []
  if relayOnlyMode then (n, relayPing)
  else
    let n := n.pruneDirectAddresses now
    let pings := (n.udpPaths.paths.entries.filter fun entry => entry.2.needsPing now).filterMap
      fun entry => startPing relayOnlyMode (.udp entry.1.toSocketAddr) .discovery
    ({ n with lastFullPing := some now }, relayPing ++ pings)

/-- The body of the loop of `update_from_node_addr`: a new path for an address not known
yet (`or_insert_with`). -/
def addPath (paths : AList fun _ : IpPort => PathState U) (addr : SocketAddr) :
    AList fun _ : IpPort => PathState U :=
  if IpPort.ofSocketAddr addr ∈ paths then paths
  else paths.insert (.ofSocketAddr addr) (PathState.new (.udp addr))

/-- The loop of `update_from_node_addr`. -/
def addPaths (paths : AList fun _ : IpPort => PathState U) (addrs : List SocketAddr) :
    AList fun _ : IpPort => PathState U :=
  addrs.foldl addPath paths

/-- `NodeState::update_from_node_addr`. -/
def updateFromNodeAddr (n : NodeState K U) (info : AddrInfo U) : NodeState K U :=
  let n := if info.relayUrl.isSome ∧ info.relayUrl ≠ n.relayUrlOf then
      { n with relayUrl := info.relayUrl.map fun url => (url, PathState.new (.relay url)) }
    else n
  { n with udpPaths := { n.udpPaths with paths := addPaths n.udpPaths.paths info.directAddresses } }

/-- `NodeState::reset`: back to a relay-only node. -/
def reset (n : NodeState K U) : NodeState K U :=
  { n with
    lastFullPing := none
    udpPaths := { n.udpPaths with
      bestAddr := n.udpPaths.bestAddr.clear
      paths := n.udpPaths.paths.mapValues fun _ es => { es with lastPing := none } } }

/-- The first part of `NodeState::handle_ping`: the path the ping came on, recorded, with
the role the ping plays on it. -/
def recordPing (n : NodeState K U) (path : SendAddr U) (txId : List UInt8) (now : Nat) :
    NodeState K U × PingRole :=
  match path with
  | .udp addr =>
    match n.udpPaths.paths.lookup (.ofSocketAddr addr) with
    | some st =>
      let (st, role) := st.handlePing txId now
      (n.setPath (.ofSocketAddr addr) st, role)
    | none => (n.setPath (.ofSocketAddr addr) (PathState.withPing path txId now), .newPath)
  | .relay url =>
    match n.relayUrl with
    | some (homeUrl, state) =>
      if homeUrl ≠ url then ({ n with relayUrl := some (url, PathState.withPing path txId now) }, .newPath)
      else
        let (state, role) := state.handlePing txId now
        ({ n with relayUrl := some (homeUrl, state) }, role)
    | none => ({ n with relayUrl := some (url, PathState.withPing path txId now) }, .newPath)

/-- `NodeState::handle_ping`: a new UDP path prunes the paths, and a node without a usable
best address pings back on the path. -/
def handlePing (n : NodeState K U) (path : SendAddr U) (txId : List UInt8) (now : Nat) :
    NodeState K U × PingHandled U :=
  let recorded := n.recordPing path txId now
  let role := recorded.2
  let n := if !path.isRelay && role = .newPath then recorded.1.pruneDirectAddresses now else recorded.1
  let needsPingBack := match path, n.udpPaths.bestAddr.state now with
    | .udp _, .empty => startPing relayOnlyMode path .pingBack
    | .udp _, .outdated _ => startPing relayOnlyMode path .pingBack
    | _, _ => none
  (n, ⟨role, needsPingBack⟩)

/-- `NodeState::note_connectivity_change`. -/
def noteConnectivityChange (n : NodeState K U) : NodeState K U :=
  { n with
    udpPaths := { n.udpPaths with
      bestAddr := n.udpPaths.bestAddr.clearTrust
      paths := n.udpPaths.paths.mapValues fun _ es => es.clear } }

/-- What `handle_pong` does with the pong before it promotes the ping's destination: on a
UDP source the path's pong is recorded, or the pong is ignored (`none`) when the source is
not a known path; on a relay source the relay's pong is recorded when it is the home relay. -/
def recordPong (n : NodeState K U) (src : SendAddr U) (reply : PongReply U) :
    Option (NodeState K U × Option (SocketAddr × K)) :=
  match src with
  | .udp addr =>
    (n.udpPaths.paths.lookup (.ofSocketAddr addr)).map fun st =>
      (n.setPath (.ofSocketAddr addr) (st.addPongReply reply), some (addr, n.nodeId))
  | .relay url =>
    match n.relayUrl with
    | some (homeUrl, state) =>
      if homeUrl = url then some ({ n with relayUrl := some (homeUrl, state.addPongReply reply) }, none)
      else some (n, none)
    | none => some (n, none)

/-- `NodeState::handle_pong`, with the address and key it asks the map to index. The
ping's destination `sp.to` becomes the best address if it is better. -/
def handlePong (n : NodeState K U) (m : Pong U) (src : SendAddr U) (now : Nat) :
    Except Panic (NodeState K U × Option (SocketAddr × K)) :=
  match n.sentPings.lookup m.txId with
  | none => .ok (n, none)
  | some sp =>
    let n := { n with sentPings := n.sentPings.erase m.txId }
    let latency := now - sp.sentAt
    match n.recordPong src ⟨latency, now, src, m.pingObservedAddr⟩ with
    | none => .ok (n, none)
    | some (n, nodeMapInsert) =>
      match sp.toAddr with
      | .udp dst =>
        if src.isRelay then .error (.debugAssert "mismatching relay & udp")
        else .ok (n.setBestAddr (n.udpPaths.bestAddr.insertIfBetterOrReconfirm dst latency .receivedPong now),
          nodeMapInsert)
      | .relay _ => .ok (n, nodeMapInsert)

/-- The body of the first loop of `handle_call_me_maybe`: an address that is not IPv6
link-local gets a path if it has none, its call-me-maybe time, and a place in the set of
the message's paths. -/
def callMeMaybeStep (now : Nat)
    (acc : (AList fun _ : IpPort => PathState U) × List IpPort) (peerSockaddr : SocketAddr) :
    (AList fun _ : IpPort => PathState U) × List IpPort :=
  if skipsAddr peerSockaddr then acc
  else
    let ipp := IpPort.ofSocketAddr peerSockaddr
    let st := (acc.1.lookup ipp).getD (PathState.new (.udp peerSockaddr))
    (acc.1.insert ipp { st with callMeMaybeTime := some now }, acc.2.insert ipp)

/-- The first loop of `handle_call_me_maybe`. -/
def callMeMaybePaths (paths : AList fun _ : IpPort => PathState U) (myNumbers : List SocketAddr)
    (now : Nat) : (AList fun _ : IpPort => PathState U) × List IpPort :=
  myNumbers.foldl (callMeMaybeStep now) (paths, [])

/-- The body of the second loop of `handle_call_me_maybe`: the ping time cleared, and the
pong of a path the message does not name. -/
def clearUnnamed (callMeMaybeIpps : List IpPort) (ipp : IpPort) (st : PathState U) : PathState U :=
  let st := { st with lastPing := none }
  if ipp ∉ callMeMaybeIpps then { st with recentPong := none } else st

/-- `NodeState::handle_call_me_maybe`. -/
def handleCallMeMaybe (n : NodeState K U) (m : CallMeMaybe) (now : Nat) :
    NodeState K U × List (SendPing U) :=
  let (paths, callMeMaybeIpps) := callMeMaybePaths n.udpPaths.paths m.myNumbers now
  let paths := paths.mapValues (clearUnnamed callMeMaybeIpps)
  let n := { n with udpPaths := { n.udpPaths with paths } }
  let n := match n.udpPaths.bestAddr.addr with
    | some addr =>
      if IpPort.ofSocketAddr addr ∉ callMeMaybeIpps then
        { n.setBestAddr n.udpPaths.bestAddr.clearTrust with lastCallMeMaybe := none }
      else n
    | none => n
  n.sendPings relayOnlyMode now

/-- `NodeUdpPaths::send_addr` on the node's paths. -/
def sendAddr (n : NodeState K U) (now : Nat) (haveIpv6 : Bool) (draw : Nat) :
    NodeState K U × UdpSendAddr :=
  let (udpPaths, addr) := n.udpPaths.sendAddr now haveIpv6 draw
  ({ n with udpPaths }, addr)

end NodeState

/-! ### Runs -/

/-- The operations on a node's paths. -/
inductive Op (U : Type) where
  | handlePing (path : SendAddr U) (txId : List UInt8) (now : Nat)
  | pingSent (dst : SendAddr U) (txId : List UInt8) (purpose : DiscoPingPurpose) (now : Nat)
  | handlePong (m : Pong U) (src : SendAddr U) (now : Nat)
  | pingTimeout (txId : List UInt8) (now : Nat)
  | handleCallMeMaybe (m : CallMeMaybe) (now : Nat)
  | updateFromNodeAddr (info : AddrInfo U)
  | removeDirectAddr (ipPort : IpPort)
  | pruneDirectAddresses (now : Nat)
  | noteConnectivityChange
  | reset
  | sendAddr (now : Nat) (haveIpv6 : Bool) (draw : Nat)

section Run

variable {K U : Type} [DecidableEq U] (relayOnlyMode : Bool)

/-- One operation, what it returns aside. -/
def step (n : NodeState K U) : Op U → Except Panic (NodeState K U)
  | .handlePing path txId now => .ok (n.handlePing relayOnlyMode path txId now).1
  | .pingSent dst txId purpose now => .ok (n.pingSent dst txId purpose now)
  | .handlePong m src now => (·.1) <$> n.handlePong m src now
  | .pingTimeout txId now => .ok (n.pingTimeout txId now)
  | .handleCallMeMaybe m now => .ok (n.handleCallMeMaybe relayOnlyMode m now).1
  | .updateFromNodeAddr info => .ok (n.updateFromNodeAddr info)
  | .removeDirectAddr ipPort => .ok (n.removeDirectAddr ipPort)
  | .pruneDirectAddresses now => .ok (n.pruneDirectAddresses now)
  | .noteConnectivityChange => .ok n.noteConnectivityChange
  | .reset => .ok n.reset
  | .sendAddr now haveIpv6 draw => .ok (n.sendAddr now haveIpv6 draw).1

/-- A sequence of operations. -/
def run (n : NodeState K U) (ops : List (Op U)) : Except Panic (NodeState K U) :=
  ops.foldlM (step relayOnlyMode) n

end Run

/-! ### The selected address is a known path -/

section Selected

variable {K U : Type} (relayOnlyMode : Bool)

namespace BestAddr

@[simp] theorem addr_clear (b : BestAddr) : b.clear.addr = none := rfl

@[simp] theorem addr_clearTrust (b : BestAddr) : b.clearTrust.addr = b.addr := by
  obtain ⟨inner⟩ := b
  cases inner <;> rfl

theorem addr_clearIfEquals (b : BestAddr) (addr : SocketAddr) :
    (b.clearIfEquals addr).addr = if b.addr = some addr then none else b.addr := by
  unfold clearIfEquals
  split <;> rfl

/-- The address `insert_if_better_or_reconfirm` leaves is the one it was given or the
one that was there. -/
theorem eq_of_addr_insertIfBetterOrReconfirm {b : BestAddr} {addr x : SocketAddr} {latency : Nat}
    {source : BestAddrSource} {confirmedAt : Nat}
    (h : (b.insertIfBetterOrReconfirm addr latency source confirmedAt).addr = some x) :
    x = addr ∨ b.addr = some x := by
  obtain ⟨inner⟩ := b
  cases inner with
  | none =>
    left
    simpa [insertIfBetterOrReconfirm, insert, BestAddr.addr] using h.symm
  | some state =>
    simp only [insertIfBetterOrReconfirm] at h
    split_ifs at h
    · left
      simpa [insert, BestAddr.addr] using h.symm
    · right
      simpa [BestAddr.addr] using h
    · right
      exact h

end BestAddr

namespace PathState

@[simp] theorem recentPong_handlePing (p : PathState U) (txId : List UInt8) (now : Nat) :
    (p.handlePing txId now).1.recentPong = p.recentPong := by
  unfold handlePing
  split
  · rfl
  · dsimp only
    split
    · split <;> rfl
    · rfl

@[simp] theorem recentPong_withPing (path : SendAddr U) (txId : List UInt8) (now : Nat) :
    (withPing path txId now).recentPong = none := by
  rw [withPing, recentPong_handlePing]
  rfl

end PathState

/-- The last pong of the path at `ipp`, if any, came from that path's address. -/
def PongFrom (ipp : IpPort) (st : PathState U) : Prop :=
  ∀ pong addr, st.recentPong = some pong → pong.fromAddr = .udp addr → IpPort.ofSocketAddr addr = ipp

/-- Every path's last pong came from that path's address. -/
def PongsOnPaths (paths : AList fun _ : IpPort => PathState U) : Prop :=
  ∀ ipp st, paths.lookup ipp = some st → PongFrom ipp st

theorem pongFrom_of_recentPong_none {ipp : IpPort} {st : PathState U} (h : st.recentPong = none) :
    PongFrom ipp st := by
  intro pong addr hpong
  rw [h] at hpong
  cases hpong

theorem PongFrom.of_recentPong_eq {ipp : IpPort} {st st' : PathState U} (hst : PongFrom ipp st)
    (h : st'.recentPong = st.recentPong) : PongFrom ipp st' := by
  intro pong addr hpong
  rw [h] at hpong
  exact hst pong addr hpong

namespace PongsOnPaths

variable {paths : AList fun _ : IpPort => PathState U}

theorem insert (h : PongsOnPaths paths) {ipp : IpPort} {st : PathState U} (hst : PongFrom ipp st) :
    PongsOnPaths (paths.insert ipp st) := by
  intro ipp' st' hlookup
  by_cases heq : ipp' = ipp
  · subst heq
    rw [AList.lookup_insert, Option.some.injEq] at hlookup
    subst hlookup
    exact hst
  · rw [AList.lookup_insert_ne heq] at hlookup
    exact h ipp' st' hlookup

theorem erase (h : PongsOnPaths paths) (ipp : IpPort) : PongsOnPaths (paths.erase ipp) := by
  intro ipp' st' hlookup
  by_cases heq : ipp' = ipp
  · subst heq
    rw [AList.lookup_erase] at hlookup
    cases hlookup
  · rw [AList.lookup_erase_ne heq] at hlookup
    exact h ipp' st' hlookup

/-- A change of every path that keeps each path's pong from its path. -/
theorem mapValues (h : PongsOnPaths paths) {f : IpPort → PathState U → PathState U}
    (hf : ∀ ipp st, PongFrom ipp st → PongFrom ipp (f ipp st)) :
    PongsOnPaths (paths.mapValues f) := by
  intro ipp st' hlookup
  rw [AList.lookup_mapValues] at hlookup
  obtain ⟨st, hst, rfl⟩ := Option.map_eq_some_iff.mp hlookup
  exact hf ipp st (h ipp st hst)

end PongsOnPaths

/-! The loops that add paths keep every path, and give a new path no pong. -/

namespace NodeState

variable {paths : AList fun _ : IpPort => PathState U}

theorem mem_addPaths {ipp : IpPort} (h : ipp ∈ paths) (addrs : List SocketAddr) :
    ipp ∈ addPaths paths addrs := by
  induction addrs generalizing paths with
  | nil => exact h
  | cons addr addrs ih =>
    apply ih
    unfold addPath
    split
    · exact h
    · exact (AList.mem_insert _).mpr (.inr h)

theorem pongsOnPaths_addPaths (h : PongsOnPaths paths) (addrs : List SocketAddr) :
    PongsOnPaths (addPaths paths addrs) := by
  induction addrs generalizing paths with
  | nil => exact h
  | cons addr addrs ih =>
    apply ih
    unfold addPath
    split
    · exact h
    · exact h.insert (pongFrom_of_recentPong_none rfl)

theorem mem_callMeMaybeStep {ipp : IpPort} (now : Nat) {acc : (AList fun _ : IpPort => PathState U) × List IpPort}
    (h : ipp ∈ acc.1) (peerSockaddr : SocketAddr) : ipp ∈ (callMeMaybeStep now acc peerSockaddr).1 := by
  unfold callMeMaybeStep
  split
  · exact h
  · exact (AList.mem_insert _).mpr (.inr h)

/-- The path a call-me-maybe names keeps its pong, or is new and has none. -/
theorem pongsOnPaths_callMeMaybeStep (now : Nat) {acc : (AList fun _ : IpPort => PathState U) × List IpPort}
    (h : PongsOnPaths acc.1) (peerSockaddr : SocketAddr) :
    PongsOnPaths (callMeMaybeStep now acc peerSockaddr).1 := by
  unfold callMeMaybeStep
  split
  · exact h
  · apply h.insert
    cases hlookup : acc.1.lookup (IpPort.ofSocketAddr peerSockaddr) with
    | none => exact pongFrom_of_recentPong_none rfl
    | some st => exact (h _ st hlookup).of_recentPong_eq rfl

theorem callMeMaybePaths_spec (h : PongsOnPaths paths) (myNumbers : List SocketAddr) (now : Nat) :
    (∀ ipp ∈ paths, ipp ∈ (callMeMaybePaths paths myNumbers now).1) ∧
      PongsOnPaths (callMeMaybePaths paths myNumbers now).1 := by
  unfold callMeMaybePaths
  -- the loop over the message's addresses, from any accumulator
  suffices ∀ acc : (AList fun _ : IpPort => PathState U) × List IpPort, PongsOnPaths acc.1 →
      (∀ ipp ∈ acc.1, ipp ∈ (myNumbers.foldl (callMeMaybeStep now) acc).1) ∧
        PongsOnPaths (myNumbers.foldl (callMeMaybeStep now) acc).1 from this (paths, []) h
  induction myNumbers with
  | nil => exact fun acc hacc => ⟨fun _ hipp => hipp, hacc⟩
  | cons peerSockaddr myNumbers ih =>
    intro acc hacc
    obtain ⟨hmem, hpongs⟩ := ih _ (pongsOnPaths_callMeMaybeStep now hacc peerSockaddr)
    exact ⟨fun ipp hipp => hmem ipp (mem_callMeMaybeStep now hipp peerSockaddr), hpongs⟩

end NodeState

namespace NodeUdpPaths

/-- The pong the fold picks is the last pong of one of the paths. -/
theorem bestPong_mem {entries : List (Σ _ : IpPort, PathState U)} {pong : PongReply U}
    (h : bestPong entries = some pong) : ∃ entry ∈ entries, entry.2.recentPong = some pong := by
  unfold bestPong at h
  -- from any start, the fold ends at the start or at a path's pong
  suffices ∀ init : Option (PongReply U), entries.foldl bestPongStep init = some pong →
      init = some pong ∨ ∃ entry ∈ entries, entry.2.recentPong = some pong by
    rcases this none h with hnone | hmem
    · cases hnone
    · exact hmem
  clear h
  induction entries with
  | nil => exact fun init hinit => .inl hinit
  | cons entry entries ih =>
    intro init hinit
    rcases ih _ hinit with hstep | ⟨e, he, hpong⟩
    · unfold bestPongStep at hstep
      split at hstep
      · rename_i pong' hpong'
        dsimp only at hstep
        split at hstep
        · cases hstep
          exact .inr ⟨entry, List.mem_cons_self, hpong'⟩
        · exact .inl hstep
      · exact .inl hstep
    · exact .inr ⟨e, List.mem_cons_of_mem _ he, hpong⟩

/-- The address `assign_best_addr_from_candidates_if_empty` leaves is the one that was
there, or the address a path's last pong came from. -/
theorem addr_assignBestAddrFromCandidatesIfEmpty {u : NodeUdpPaths U} {x : SocketAddr}
    (h : u.assignBestAddrFromCandidatesIfEmpty.bestAddr.addr = some x) :
    u.bestAddr.addr = some x ∨
      ∃ ipp st pong, u.paths.lookup ipp = some st ∧ st.recentPong = some pong ∧ pong.fromAddr = .udp x := by
  unfold assignBestAddrFromCandidatesIfEmpty at h
  split at h
  · exact .inl h
  · split at h
    · rename_i pong hpong
      split at h
      · rename_i addr hfrom
        rcases BestAddr.eq_of_addr_insertIfBetterOrReconfirm h with rfl | hold
        · obtain ⟨entry, hentry, hrecent⟩ := bestPong_mem hpong
          exact .inr ⟨entry.1, entry.2, pong, AList.mem_lookup_iff.mpr hentry, hrecent, hfrom⟩
        · exact .inl hold
      · exact .inl h
    · exact .inl h

@[simp] theorem paths_assignBestAddrFromCandidatesIfEmpty (u : NodeUdpPaths U) :
    u.assignBestAddrFromCandidatesIfEmpty.paths = u.paths := by
  unfold assignBestAddrFromCandidatesIfEmpty
  split
  · rfl
  · split
    · split <;> rfl
    · rfl

/-- `send_addr` changes the paths and the best address as the assignment does. -/
theorem sendAddr_fst (u : NodeUdpPaths U) (now : Nat) (haveIpv6 : Bool) (draw : Nat) :
    (u.sendAddr now haveIpv6 draw).1.paths = u.paths ∧
      (u.sendAddr now haveIpv6 draw).1.bestAddr = u.assignBestAddrFromCandidatesIfEmpty.bestAddr := by
  unfold sendAddr
  dsimp only
  split
  · exact ⟨paths_assignBestAddrFromCandidatesIfEmpty u, rfl⟩
  · exact ⟨paths_assignBestAddrFromCandidatesIfEmpty u, rfl⟩
  · split
    · exact ⟨paths_assignBestAddrFromCandidatesIfEmpty u, rfl⟩
    · exact ⟨paths_assignBestAddrFromCandidatesIfEmpty u, rfl⟩

end NodeUdpPaths

/-- **The selected address is a known path**: `best_addr` is an address of one of the
node's paths, and every path's last pong, which `send_addr` may promote, came from that
path. -/
structure Selected (n : NodeState K U) : Prop where
  bestKnown : ∀ addr, n.udpPaths.bestAddr.addr = some addr → IpPort.ofSocketAddr addr ∈ n.udpPaths.paths
  pongsOnPaths : PongsOnPaths n.udpPaths.paths

namespace Selected

variable {n : NodeState K U}

/-- Only the paths and the best address matter. -/
theorem of_udpPaths (h : Selected n) {n' : NodeState K U} (hu : n'.udpPaths = n.udpPaths) :
    Selected n' := by
  obtain ⟨hbest, hpongs⟩ := h
  exact ⟨hu ▸ hbest, hu ▸ hpongs⟩

theorem setPath (h : Selected n) {ipp : IpPort} {st : PathState U} (hst : PongFrom ipp st) :
    Selected (n.setPath ipp st) where
  bestKnown addr haddr := (AList.mem_insert _).mpr (.inr (h.bestKnown addr haddr))
  pongsOnPaths := h.pongsOnPaths.insert hst

/-- A path stored back with its pong kept. -/
theorem setPath_of_lookup (h : Selected n) {ipp : IpPort} {st st' : PathState U}
    (hlookup : n.udpPaths.paths.lookup ipp = some st) (hpong : st'.recentPong = st.recentPong) :
    Selected (n.setPath ipp st') :=
  h.setPath ((h.pongsOnPaths ipp st hlookup).of_recentPong_eq hpong)

/-- New paths that keep the best address's path and every pong on its path. -/
theorem withPaths {paths : AList fun _ : IpPort => PathState U}
    (hbest : ∀ addr, n.udpPaths.bestAddr.addr = some addr → IpPort.ofSocketAddr addr ∈ paths)
    (hpongs : PongsOnPaths paths) : Selected { n with udpPaths := { n.udpPaths with paths } } :=
  ⟨hbest, hpongs⟩

theorem setBestAddr (h : Selected n) {b : BestAddr}
    (hb : ∀ addr, b.addr = some addr → IpPort.ofSocketAddr addr ∈ n.udpPaths.paths) :
    Selected (n.setBestAddr b) :=
  ⟨hb, h.pongsOnPaths⟩

theorem setBestAddr_clearIfEquals (h : Selected n) (addr : SocketAddr) :
    Selected (n.setBestAddr (n.udpPaths.bestAddr.clearIfEquals addr)) := by
  refine h.setBestAddr fun x hx => ?_
  rw [BestAddr.addr_clearIfEquals] at hx
  split at hx
  · cases hx
  · exact h.bestKnown x hx

/-- Removing a path clears it from the best address: the two are compared as the same
`SocketAddr`. -/
theorem removeDirectAddr (h : Selected n) (ipPort : IpPort) : Selected (n.removeDirectAddr ipPort) := by
  unfold NodeState.removeDirectAddr
  split
  · exact h
  · refine ⟨fun addr haddr => ?_, h.pongsOnPaths.erase ipPort⟩
    simp only [BestAddr.addr_clearIfEquals] at haddr
    split at haddr
    · cases haddr
    · rename_i hne
      refine AList.mem_erase.mpr ⟨fun heq => hne ?_, h.bestKnown addr haddr⟩
      rw [haddr, ← heq, IpPort.toSocketAddr_ofSocketAddr]

theorem foldl_removeDirectAddr (h : Selected n) (pruned : List (IpPort × Option Nat)) :
    Selected (pruned.foldl (fun n candidate => n.removeDirectAddr candidate.1) n) := by
  induction pruned generalizing n with
  | nil => exact h
  | cons candidate pruned ih => exact ih (h.removeDirectAddr candidate.1)

theorem pruneDirectAddresses (h : Selected n) (now : Nat) :
    Selected (n.pruneDirectAddresses now) := by
  unfold NodeState.pruneDirectAddresses
  dsimp only
  split
  · exact h
  · exact h.foldl_removeDirectAddr _

theorem reset (h : Selected n) : Selected n.reset where
  bestKnown addr haddr := by cases haddr
  pongsOnPaths := h.pongsOnPaths.mapValues fun _ _ hst => hst.of_recentPong_eq rfl

theorem noteConnectivityChange (h : Selected n) : Selected n.noteConnectivityChange where
  bestKnown addr haddr := by
    have hold : n.udpPaths.bestAddr.addr = some addr := (BestAddr.addr_clearTrust _).symm.trans haddr
    exact AList.mem_mapValues.mpr (h.bestKnown addr hold)
  pongsOnPaths := h.pongsOnPaths.mapValues fun _ _ _ => pongFrom_of_recentPong_none rfl

theorem sendPings (h : Selected n) (now : Nat) : Selected (n.sendPings relayOnlyMode now).1 := by
  unfold NodeState.sendPings
  dsimp only
  split
  · exact h
  · exact (h.pruneDirectAddresses now).of_udpPaths rfl

theorem sendAddr (h : Selected n) (now : Nat) (haveIpv6 : Bool) (draw : Nat) :
    Selected (n.sendAddr now haveIpv6 draw).1 := by
  obtain ⟨hpaths, hbest⟩ := n.udpPaths.sendAddr_fst now haveIpv6 draw
  refine ⟨fun addr haddr => ?_, ?_⟩
  · show IpPort.ofSocketAddr addr ∈ (n.udpPaths.sendAddr now haveIpv6 draw).1.paths
    rw [hpaths]
    rw [show (n.sendAddr now haveIpv6 draw).1.udpPaths = (n.udpPaths.sendAddr now haveIpv6 draw).1 from rfl,
      hbest] at haddr
    rcases NodeUdpPaths.addr_assignBestAddrFromCandidatesIfEmpty haddr with hold | ⟨ipp, st, pong, hlookup, hpong, hfrom⟩
    · exact h.bestKnown addr hold
    · rw [h.pongsOnPaths ipp st hlookup pong addr hpong hfrom]
      exact AList.lookup_isSome.mp (by rw [hlookup]; rfl)
  · show PongsOnPaths (n.udpPaths.sendAddr now haveIpv6 draw).1.paths
    rw [hpaths]
    exact h.pongsOnPaths

theorem handleCallMeMaybe (h : Selected n) (m : CallMeMaybe) (now : Nat) :
    Selected (n.handleCallMeMaybe relayOnlyMode m now).1 := by
  obtain ⟨hmem, hpongs⟩ := NodeState.callMeMaybePaths_spec h.pongsOnPaths m.myNumbers now
  unfold NodeState.handleCallMeMaybe
  generalize NodeState.callMeMaybePaths n.udpPaths.paths m.myNumbers now = named at hmem hpongs
  obtain ⟨paths, callMeMaybeIpps⟩ := named
  have hclear : ∀ ipp (st : PathState U), PongFrom ipp st →
      PongFrom ipp (NodeState.clearUnnamed callMeMaybeIpps ipp st) := by
    intro ipp st hst
    unfold NodeState.clearUnnamed
    split
    · exact pongFrom_of_recentPong_none rfl
    · exact hst.of_recentPong_eq rfl
  have h₁ := @Selected.withPaths K U n _
    (fun addr haddr => AList.mem_mapValues.mpr (hmem _ (h.bestKnown addr haddr)))
    (hpongs.mapValues hclear)
  apply Selected.sendPings
  dsimp only
  split
  · split
    · exact (h₁.setBestAddr fun x hx => h₁.bestKnown x ((BestAddr.addr_clearTrust _).symm.trans hx)).of_udpPaths rfl
    · exact h₁
  · exact h₁

section Relay

variable [DecidableEq U]

theorem updateFromNodeAddr (h : Selected n) (info : AddrInfo U) : Selected (n.updateFromNodeAddr info) := by
  have hrelay : Selected (if info.relayUrl.isSome ∧ info.relayUrl ≠ n.relayUrlOf then
      { n with relayUrl := info.relayUrl.map fun url => (url, PathState.new (.relay url)) } else n) := by
    split
    · exact h.of_udpPaths rfl
    · exact h
  exact ⟨fun addr haddr => NodeState.mem_addPaths (hrelay.bestKnown addr haddr) _,
    NodeState.pongsOnPaths_addPaths hrelay.pongsOnPaths _⟩

theorem pingSent (h : Selected n) (dst : SendAddr U) (txId : List UInt8) (purpose : DiscoPingPurpose)
    (now : Nat) : Selected (n.pingSent dst txId purpose now) := by
  unfold NodeState.pingSent
  dsimp only
  cases dst with
  | udp addr =>
    cases hlookup : n.udpPaths.paths.lookup (IpPort.ofSocketAddr addr) with
    | none =>
      simp only [hlookup, Option.map_none]
      exact h
    | some st =>
      have hst : Selected (n.setPath (IpPort.ofSocketAddr addr) { st with lastPing := some now }) :=
        h.setPath_of_lookup hlookup rfl
      simp only [hlookup, Option.map_some]
      exact hst.of_udpPaths rfl
  | relay url =>
    cases hrelay : n.relayUrl with
    | none => exact h
    | some relay =>
      obtain ⟨homeRelay, relayState⟩ := relay
      by_cases hurl : homeRelay = url
      · simp only [hurl, if_true]
        exact h.of_udpPaths rfl
      · simp only [hurl, if_false]
        exact h

theorem pingTimeout (h : Selected n) (txId : List UInt8) (now : Nat) :
    Selected (n.pingTimeout txId now) := by
  unfold NodeState.pingTimeout
  split
  · exact h
  · rename_i sp _
    have h₁ : Selected { n with sentPings := n.sentPings.erase txId } := h.of_udpPaths rfl
    dsimp only
    split
    · rename_i addr _
      split
      · rename_i st hlookup
        have hkept : Selected ({ n with sentPings := n.sentPings.erase txId }.setPath
            (.ofSocketAddr addr) { st with lastPing := none }) := h₁.setPath_of_lookup hlookup rfl
        have hcleared : Selected (({ n with sentPings := n.sentPings.erase txId }.setPath
            (.ofSocketAddr addr) { st with lastPing := none, recentPong := none }).setBestAddr
              (n.udpPaths.bestAddr.clearIfEquals addr)) :=
          (h₁.setPath (pongFrom_of_recentPong_none rfl)).setBestAddr_clearIfEquals addr
        split <;> split
        all_goals first | exact hcleared | exact hkept
      · exact h₁.setBestAddr_clearIfEquals addr
    · split
      · split
        · exact h₁.of_udpPaths rfl
        · exact h₁
      · exact h₁

theorem recordPing (h : Selected n) (path : SendAddr U) (txId : List UInt8) (now : Nat) :
    Selected (n.recordPing path txId now).1 := by
  unfold NodeState.recordPing
  cases path with
  | udp addr =>
    cases hlookup : n.udpPaths.paths.lookup (IpPort.ofSocketAddr addr) with
    | some st =>
      simp only [hlookup]
      exact h.setPath_of_lookup hlookup (PathState.recentPong_handlePing st txId now)
    | none =>
      simp only [hlookup]
      exact h.setPath (pongFrom_of_recentPong_none (PathState.recentPong_withPing _ _ _))
  | relay url =>
    dsimp only
    split
    · split
      · exact h.of_udpPaths rfl
      · exact h.of_udpPaths rfl
    · exact h.of_udpPaths rfl

theorem handlePing (h : Selected n) (path : SendAddr U) (txId : List UInt8) (now : Nat) :
    Selected (n.handlePing relayOnlyMode path txId now).1 := by
  unfold NodeState.handlePing
  dsimp only
  split
  · exact (h.recordPing path txId now).pruneDirectAddresses now
  · exact h.recordPing path txId now

/-- Recording a pong keeps every path, and puts the pong on the path it came from. -/
theorem recordPong (h : Selected n) {src : SendAddr U} {reply : PongReply U}
    {r : NodeState K U × Option (SocketAddr × K)} (hr : n.recordPong src reply = some r)
    (hfrom : reply.fromAddr = src) :
    Selected r.1 ∧ ∀ ipp ∈ n.udpPaths.paths, ipp ∈ r.1.udpPaths.paths := by
  unfold NodeState.recordPong at hr
  cases src with
  | udp addr =>
    obtain ⟨st, _, rfl⟩ := Option.map_eq_some_iff.mp hr
    refine ⟨h.setPath fun pong addr' hpong hpongFrom => ?_, fun ipp hipp => (AList.mem_insert _).mpr (.inr hipp)⟩
    cases hpong
    rw [hfrom, SendAddr.udp.injEq] at hpongFrom
    rw [hpongFrom]
  | relay url =>
    dsimp only at hr
    split at hr
    · split at hr
      · cases hr
        exact ⟨h.of_udpPaths rfl, fun _ hipp => hipp⟩
      · cases hr
        exact ⟨h, fun _ hipp => hipp⟩
    · cases hr
      exact ⟨h, fun _ hipp => hipp⟩

/-- **A pong keeps the selected address a known path when the ping it answers went to a
path the node still has.** -/
theorem handlePong (h : Selected n) {m : Pong U} {src : SendAddr U} {now : Nat}
    {r : NodeState K U × Option (SocketAddr × K)}
    (hknown : ∀ sp addr, n.sentPings.lookup m.txId = some sp → sp.toAddr = .udp addr →
      IpPort.ofSocketAddr addr ∈ n.udpPaths.paths)
    (hpong : n.handlePong m src now = .ok r) : Selected r.1 := by
  unfold NodeState.handlePong at hpong
  split at hpong
  · cases hpong
    exact h
  · rename_i sp hsp
    have h₁ : Selected { n with sentPings := n.sentPings.erase m.txId } := h.of_udpPaths rfl
    dsimp only at hpong
    split at hpong
    · cases hpong
      exact h₁
    · rename_i n₂ nodeMapInsert hrecord
      obtain ⟨h₂, hkeys⟩ := h₁.recordPong hrecord rfl
      split at hpong
      · rename_i dst hdst
        split at hpong
        · cases hpong
        · cases hpong
          refine h₂.setBestAddr fun x hx => ?_
          rcases BestAddr.eq_of_addr_insertIfBetterOrReconfirm hx with rfl | hold
          · exact hkeys _ (hknown sp x hsp hdst)
          · exact h₂.bestKnown x hold
      · cases hpong
        exact h₂

end Relay

end Selected

/-- A pong to the node answers a ping whose UDP destination is one of its paths. -/
def AnswersKnownPath (n : NodeState K U) : Op U → Prop
  | .handlePong m _ _ => ∀ sp addr, n.sentPings.lookup m.txId = some sp → sp.toAddr = .udp addr →
      IpPort.ofSocketAddr addr ∈ n.udpPaths.paths
  | _ => True

section Runs

variable [DecidableEq U]

/-- Every operation keeps the selected address a known path; a pong does when it answers
a ping to a path the node still has. -/
theorem Selected.step {n n' : NodeState K U} {op : Op U} (h : Selected n) (hop : AnswersKnownPath n op)
    (hstep : Paths.step relayOnlyMode n op = .ok n') : Selected n' := by
  cases op with
  | handlePing path txId now =>
    cases hstep
    exact h.handlePing relayOnlyMode path txId now
  | pingSent dst txId purpose now =>
    cases hstep
    exact h.pingSent dst txId purpose now
  | handlePong m src now =>
    simp only [Paths.step, Functor.map, Except.map] at hstep
    split at hstep
    · cases hstep
    · rename_i r hpong
      cases hstep
      exact h.handlePong hop hpong
  | pingTimeout txId now =>
    cases hstep
    exact h.pingTimeout txId now
  | handleCallMeMaybe m now =>
    cases hstep
    exact h.handleCallMeMaybe relayOnlyMode m now
  | updateFromNodeAddr info =>
    cases hstep
    exact h.updateFromNodeAddr info
  | removeDirectAddr ipPort =>
    cases hstep
    exact h.removeDirectAddr ipPort
  | pruneDirectAddresses now =>
    cases hstep
    exact h.pruneDirectAddresses now
  | noteConnectivityChange =>
    cases hstep
    exact h.noteConnectivityChange
  | reset =>
    cases hstep
    exact h.reset
  | sendAddr now haveIpv6 draw =>
    cases hstep
    exact h.sendAddr now haveIpv6 draw

/-- Along the run, every pong answers a ping to a path the node has when the pong comes. -/
def AnswersKnownPaths : NodeState K U → List (Op U) → Prop
  | _, [] => True
  | n, op :: ops => AnswersKnownPath n op ∧
      ∀ n', Paths.step relayOnlyMode n op = .ok n' → AnswersKnownPaths n' ops

/-- **The selected address stays a known path** along every run whose pongs answer pings to
paths the node still has. -/
theorem Selected.along_run {n n' : NodeState K U} {ops : List (Op U)} (h : Selected n)
    (hops : AnswersKnownPaths relayOnlyMode n ops) (hrun : Paths.run relayOnlyMode n ops = .ok n') :
    Selected n' := by
  induction ops generalizing n with
  | nil =>
    cases hrun
    exact h
  | cons op ops ih =>
    obtain ⟨hop, hrest⟩ := hops
    obtain ⟨n₁, hstep, hrun₁⟩ := Machine.except_bind_eq_ok.mp hrun
    exact ih (h.step relayOnlyMode hop hstep) (hrest n₁ hstep) hrun₁

end Runs

end Selected

/-- A new node has no path and no best address. -/
theorem selected_new {K U : Type} (nodeId : K) (relayUrl : Option U) (active : Bool) (now : Nat) :
    Selected (NodeState.new nodeId relayUrl active now) where
  bestKnown _ haddr := by cases haddr
  pongsOnPaths _ _ hlookup := by cases hlookup

/-- A ping to a path, the path removed, then the pong to that ping from another path: the
removed path becomes the best address of a node that started with none. -/
theorem pong_selects_removed_path :
    let a : SocketAddr := ⟨.v4 [10, 0, 0, 1], 1000⟩
    let b : SocketAddr := ⟨.v4 [10, 0, 0, 2], 1000⟩
    let n₀ : NodeState Nat Nat := NodeState.new 1 none false 0
    Selected n₀ ∧
      ∃ n, run false n₀
          [.updateFromNodeAddr ⟨none, [a, b]⟩, .pingSent (.udp a) [7] .discovery 0,
            .removeDirectAddr (.ofSocketAddr a), .handlePong ⟨[7], .udp b⟩ (.udp b) 10] = .ok n ∧
        n.udpPaths.bestAddr.addr = some a ∧ IpPort.ofSocketAddr a ∉ n.udpPaths.paths ∧ ¬ Selected n := by
  refine ⟨selected_new 1 none false 0, _, rfl, rfl, by decide, fun h => ?_⟩
  exact absurd (h.bestKnown _ rfl) (by decide)

/-- A pong that answers a ping to a path the node still has: the address it selects is a
known path. -/
theorem selected_run_answered_pong :
    let a : SocketAddr := ⟨.v4 [10, 0, 0, 1], 1000⟩
    let n₀ : NodeState Nat Nat := NodeState.new 1 none false 0
    let ops : List (Op Nat) :=
      [.updateFromNodeAddr ⟨none, [a]⟩, .pingSent (.udp a) [7] .discovery 0,
        .handlePong ⟨[7], .udp a⟩ (.udp a) 10]
    Selected n₀ ∧ AnswersKnownPaths false n₀ ops ∧
      ∃ n, run false n₀ ops = .ok n ∧ n.udpPaths.bestAddr.addr = some a ∧ Selected n := by
  intro a n₀ ops
  have hops : AnswersKnownPaths false n₀ ops := by
    refine ⟨trivial, fun n₁ h₁ => ⟨trivial, fun n₂ h₂ => ⟨fun sp addr hsp haddr => ?_, fun _ _ => trivial⟩⟩⟩
    cases h₁
    cases h₂
    cases hsp
    cases haddr
    decide
  have hrun : run false n₀ ops = .ok _ := rfl
  exact ⟨selected_new 1 none false 0, hops, _, hrun, rfl,
    Selected.along_run false (selected_new 1 none false 0) hops hrun⟩

end Iroh.Net.NodeMap.Paths
