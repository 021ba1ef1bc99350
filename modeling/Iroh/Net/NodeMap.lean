import Iroh.Lib.Machine
import Iroh.Net.Disco

/-! The node map of the magic socket (`magicsock/node_map.rs`, `node_map/node_state.rs`):
the known nodes by a local id, with three indexes onto that id: by public key, by the
QUIC-mapped address that stands for the node towards QUIC, and by the UDP addresses
(`IpPort`) packets come from.

A `NodeState` is modelled by what the indexes depend on: its id, key and mapped address,
its relay URL, the UDP paths it knows (the keys of `udp_paths.paths`) and the pings it has
sent. What the paths' timers and pongs decide (whether a node or a path is inactive, and
the order of last use) comes from `Clock`.

`Indexed` is the correspondence the map is meant to keep between its indexes and its
nodes. A call-me-maybe breaks it: the map indexes every address of the message, while the
node skips IPv6 link-local ones (`link_local_address_indexed_without_path`).

Discovering that an address is one of our own removes it from the one node the UDP index
names for it (`removeByIpp_lookup_of_ne`), and a node left without a direct address leaves
the map, relay URL or not (`removeByIpp_drops_node`, `discovered_address_drops_relayed_node`). -/

namespace Iroh.Net.NodeMap

open Machine Disco

/-- `IpPort`. -/
structure IpPort where
  ip : IpAddr
  port : Nat
deriving DecidableEq, Repr

/-- `From<SocketAddr> for IpPort`. -/
def IpPort.ofSocketAddr (addr : SocketAddr) : IpPort := ⟨addr.ip, addr.port⟩

/-- `is_unicast_link_local`, on the octets of an IPv6 address: fe80::/10. -/
def isUnicastLinkLocal (octets : List UInt8) : Bool :=
  octets.getD 0 0 == 0xfe && (octets.getD 1 0 &&& 0xc0) == 0x80

/-- `MAX_INACTIVE_NODES`. -/
def maxInactiveNodes : Nat := 30

/-- `MAX_INACTIVE_DIRECT_ADDRESSES`. -/
def maxInactiveDirectAddresses : Nat := 20

/-- How stopping shows in a debug build: an `expect` or a `debug_assert!`. -/
inductive Panic where
  | expect (message : String)
  | debugAssert (message : String)
deriving DecidableEq, Repr

/-- `SendAddr::relay_url`. -/
def relayUrlOf {U : Type} : SendAddr U → Option U
  | .relay url => some url
  | .udp _ => none

/-- `AddrInfo`. -/
structure AddrInfo (U : Type) where
  relayUrl : Option U
  directAddresses : List SocketAddr

/-- `NodeAddr`. -/
structure NodeAddr (K U : Type) where
  nodeId : K
  info : AddrInfo U

/-- `NodeState`: its id, its `QuicMappedAddr` (by the counter that generated it), its key,
its relay URL, its UDP paths and its sent pings by transaction id. -/
structure NodeState (K U : Type) where
  id : Nat
  quicMappedAddr : Nat
  nodeId : K
  relayUrl : Option U
  paths : List IpPort
  sentPings : AList fun _ : List UInt8 => SendAddr U

/-- `Options`, as far as `NodeState::new` keeps it. -/
structure Options (K U : Type) where
  nodeId : K
  relayUrl : Option U

/-- `PingRole`: a ping on a path the node did not know, or on a known one (`Duplicate`,
`LikelyHeartbeat` or `Activate`, as the path's ping history decides). -/
inductive PingRole where
  | newPath
  | known
deriving DecidableEq, Repr

/-- What the timers decide, outside the model: whether a node is active and when it was
last used, whether a node's path may be pruned (inactive, and not alive within
`LAST_ALIVE_PRUNE_DURATION`) and when it was last alive; and `relay_only_mode()`. -/
structure Clock (K U : Type) where
  isActive : NodeState K U → Bool
  lastUsed : NodeState K U → Option Nat
  prunable : NodeState K U → IpPort → Bool
  lastAlive : NodeState K U → IpPort → Option Nat
  relayOnlyMode : Bool

/-- The order of `Option<Instant>`: never before any time. -/
def optionLe : Option Nat → Option Nat → Bool
  | none, _ => true
  | some _, none => false
  | some a, some b => decide (a ≤ b)

/-! ### A node's state -/

section NodeState

variable {K U : Type} [DecidableEq U] (clock : Clock K U)

/-- `NodeState::new`. -/
def NodeState.new (id quicMappedAddr : Nat) (options : Options K U) : NodeState K U :=
  ⟨id, quicMappedAddr, options.nodeId, options.relayUrl, [], ∅⟩

/-- `NodeState::remove_direct_addr`. -/
def NodeState.removeDirectAddr (n : NodeState K U) (ipPort : IpPort) : NodeState K U :=
  { n with paths := n.paths.erase ipPort }

/-- `NodeState::prune_direct_addresses`: of the prunable paths, all but
`MAX_INACTIVE_DIRECT_ADDRESSES` go, the longest dead first. -/
def NodeState.pruneDirectAddresses (n : NodeState K U) : NodeState K U :=
  let pruneCandidates := (n.paths.filter (clock.prunable n)).map fun ipp => (ipp, clock.lastAlive n ipp)
  let pruneCount := pruneCandidates.length - maxInactiveDirectAddresses
  if pruneCount = 0 then n
  else
    let pruned := (pruneCandidates.mergeSort fun a b => optionLe a.2 b.2).take pruneCount
    pruned.foldl (fun n c => n.removeDirectAddr c.1) n

/-- `NodeState::send_pings`, as far as it changes the paths. -/
def NodeState.sendPings (n : NodeState K U) : NodeState K U :=
  if clock.relayOnlyMode then n else n.pruneDirectAddresses clock

/-- `NodeState::update_from_node_addr`. -/
def NodeState.updateFromNodeAddr (n : NodeState K U) (info : AddrInfo U) : NodeState K U :=
  let n := if info.relayUrl.isSome ∧ info.relayUrl ≠ n.relayUrl then { n with relayUrl := info.relayUrl }
    else n
  { n with paths := info.directAddresses.foldl (fun paths addr => paths.insert (.ofSocketAddr addr)) n.paths }

/-- `NodeState::handle_ping`, with the role the ping plays. -/
def NodeState.handlePing (n : NodeState K U) (path : SendAddr U) : NodeState K U × PingRole :=
  match path with
  | .udp addr =>
    if IpPort.ofSocketAddr addr ∈ n.paths then (n, .known)
    else ({ n with paths := n.paths.insert (.ofSocketAddr addr) }.pruneDirectAddresses clock, .newPath)
  | .relay url =>
    match n.relayUrl with
    | some homeUrl => if homeUrl ≠ url then ({ n with relayUrl := some url }, .newPath) else (n, .known)
    | none => ({ n with relayUrl := some url }, .newPath)

/-- `NodeState::handle_pong`, with the address and key it asks the map to index. -/
def NodeState.handlePong (n : NodeState K U) (txId : List UInt8) (src : SendAddr U) :
    NodeState K U × Option (SocketAddr × K) :=
  match n.sentPings.lookup txId with
  | none => (n, none)
  | some _ =>
    let n := { n with sentPings := n.sentPings.erase txId }
    match src with
    | .udp addr => if IpPort.ofSocketAddr addr ∈ n.paths then (n, some (addr, n.nodeId)) else (n, none)
    | .relay _ => (n, none)

/-- Whether the loop of `NodeState::handle_call_me_maybe` skips an address. -/
def skipsAddr (addr : SocketAddr) : Bool :=
  match addr.ip with
  | .v6 octets => isUnicastLinkLocal octets
  | .v4 _ => false

/-- `NodeState::handle_call_me_maybe`. -/
def NodeState.handleCallMeMaybe (n : NodeState K U) (m : CallMeMaybe) : NodeState K U :=
  let paths := m.myNumbers.foldl
    (fun paths addr => if skipsAddr addr then paths else paths.insert (.ofSocketAddr addr)) n.paths
  NodeState.sendPings clock { n with paths }

/-- `NodeState::receive_udp`. -/
def NodeState.receiveUdp (n : NodeState K U) (addr : IpPort) : Except Panic (NodeState K U) :=
  if addr ∈ n.paths then .ok n
  else .error (.debugAssert "node map inconsistency by_ip_port <-> direct addr")

/-- `NodeState::receive_relay`. -/
def NodeState.receiveRelay (n : NodeState K U) (url : U) : NodeState K U :=
  match n.relayUrl with
  | some _ => n
  | none => { n with relayUrl := some url }

/-- `NodeState::ping_sent`. -/
def NodeState.pingSent (n : NodeState K U) (dst : SendAddr U) (txId : List UInt8) : NodeState K U :=
  let pathFound := match dst with
    | .udp addr => decide (IpPort.ofSocketAddr addr ∈ n.paths)
    | .relay url => decide (n.relayUrl = some url)
  if pathFound then { n with sentPings := n.sentPings.insert txId dst } else n

end NodeState

/-! ### The map -/

/-- `NodeMapInner`, with `ADDR_COUNTER`, the process-wide counter of
`QuicMappedAddr::generate`. -/
structure NodeMapInner (K U : Type) where
  byNodeKey : AList fun _ : K => Nat
  byIpPort : AList fun _ : IpPort => Nat
  byQuicMappedAddr : AList fun _ : Nat => Nat
  byId : AList fun _ : Nat => NodeState K U
  nextId : Nat
  addrCounter : Nat

/-- `NodeStateKey`. -/
inductive NodeStateKey (K : Type) where
  | idx (id : Nat)
  | nodeId (nodeId : K)
  | quicMappedAddr (addr : Nat)
  | ipPort (ipPort : IpPort)

namespace NodeMapInner

variable {K U : Type} [DecidableEq K] [DecidableEq U] (clock : Clock K U)

/-- `NodeMapInner::default`. -/
def empty : NodeMapInner K U := ⟨∅, ∅, ∅, ∅, 0, 0⟩

/-- `NodeMapInner::get_id`. -/
def getId (m : NodeMapInner K U) : NodeStateKey K → Option Nat
  | .idx id => some id
  | .nodeId nodeKey => m.byNodeKey.lookup nodeKey
  | .quicMappedAddr addr => m.byQuicMappedAddr.lookup addr
  | .ipPort ipp => m.byIpPort.lookup ipp

/-- `NodeMapInner::get_mut`, with the id the node is stored under. -/
def getMut (m : NodeMapInner K U) (key : NodeStateKey K) : Option (Nat × NodeState K U) :=
  (m.getId key).bind fun id => (m.byId.lookup id).map fun n => (id, n)

/-- Storing back a node changed through `get_mut`. -/
def setNode (m : NodeMapInner K U) (id : Nat) (n : NodeState K U) : NodeMapInner K U :=
  { m with byId := m.byId.insert id n }

/-- `NodeMapInner::insert_node`. -/
def insertNode (m : NodeMapInner K U) (options : Options K U) : NodeMapInner K U × NodeState K U :=
  let id := m.nextId
  let nodeState := NodeState.new id m.addrCounter options
  ({ m with
      nextId := id + 1
      addrCounter := m.addrCounter + 1
      byQuicMappedAddr := m.byQuicMappedAddr.insert nodeState.quicMappedAddr id
      byNodeKey := m.byNodeKey.insert nodeState.nodeId id
      byId := m.byId.insert id nodeState }, nodeState)

/-- `NodeMapInner::get_or_insert_with`, with the id the node is stored under. -/
def getOrInsertWith (m : NodeMapInner K U) (key : NodeStateKey K) (f : Options K U) :
    Except Panic (NodeMapInner K U × Nat × NodeState K U) :=
  match m.getId key with
  | none =>
    let (m, n) := m.insertNode f
    .ok (m, m.nextId - 1, n)
  | some id =>
    match m.byId.lookup id with
    | some n => .ok (m, id, n)
    | none => .error (.expect "is not empty")

/-- `NodeMapInner::set_node_state_for_ip_port`. -/
def setNodeStateForIpPort (m : NodeMapInner K U) (ipp : IpPort) (id : Nat) : NodeMapInner K U :=
  { m with byIpPort := m.byIpPort.insert ipp id }

/-- `NodeMapInner::set_node_key_for_ip_port`. -/
def setNodeKeyForIpPort (m : NodeMapInner K U) (ipp : IpPort) (nk : K) : NodeMapInner K U :=
  let m := match m.byIpPort.lookup ipp with
    | some id =>
      let m := if nk ∈ m.byNodeKey then m else { m with byNodeKey := m.byNodeKey.insert nk id }
      { m with byIpPort := m.byIpPort.erase ipp }
    | none => m
  match m.byNodeKey.lookup nk with
  | some id => { m with byIpPort := m.byIpPort.insert ipp id }
  | none => m

/-- `NodeMapInner::add_node_addr`. -/
def addNodeAddr (m : NodeMapInner K U) (nodeAddr : NodeAddr K U) : Except Panic (NodeMapInner K U) := do
  let (m, id, n) ← m.getOrInsertWith (.nodeId nodeAddr.nodeId) ⟨nodeAddr.nodeId, nodeAddr.info.relayUrl⟩
  let n := n.updateFromNodeAddr nodeAddr.info
  let m := m.setNode id n
  return nodeAddr.info.directAddresses.foldl
    (fun (m : NodeMapInner K U) addr => m.setNodeStateForIpPort (.ofSocketAddr addr) n.id) m

/-- `NodeMapInner::remove_by_ipp`. -/
def removeByIpp (m : NodeMapInner K U) (ipp : IpPort) : NodeMapInner K U :=
  match m.byIpPort.lookup ipp with
  | none => m
  | some id =>
    let m := { m with byIpPort := m.byIpPort.erase ipp }
    match m.byId.lookup id with
    | none => m
    | some n =>
      let n := n.removeDirectAddr ipp
      if n.paths = [] then
        { m with
          byNodeKey := m.byNodeKey.erase n.nodeId
          byQuicMappedAddr := m.byQuicMappedAddr.erase n.quicMappedAddr
          byId := m.byId.erase id }
      else m.setNode id n

/-- `NodeMapInner::on_direct_addr_discovered`. -/
def onDirectAddrDiscovered (m : NodeMapInner K U) (discovered : List IpPort) : NodeMapInner K U :=
  discovered.foldl removeByIpp m

/-- `NodeMapInner::receive_udp`. -/
def receiveUdp (m : NodeMapInner K U) (udpAddr : SocketAddr) :
    Except Panic (NodeMapInner K U × Option (K × Nat)) :=
  let ipPort := IpPort.ofSocketAddr udpAddr
  match m.getMut (.ipPort ipPort) with
  | none => .ok (m, none)
  | some (id, n) => do
    let n ← n.receiveUdp ipPort
    return (m.setNode id n, some (n.nodeId, n.quicMappedAddr))

/-- `NodeMapInner::receive_relay`. -/
def receiveRelay (m : NodeMapInner K U) (relayUrl : U) (src : K) :
    Except Panic (NodeMapInner K U × Nat) := do
  let (m, id, n) ← m.getOrInsertWith (.nodeId src) ⟨src, some relayUrl⟩
  let n := n.receiveRelay relayUrl
  return (m.setNode id n, n.quicMappedAddr)

/-- `NodeMapInner::handle_ping`. -/
def handlePing (m : NodeMapInner K U) (sender : K) (src : SendAddr U) :
    Except Panic (NodeMapInner K U × PingRole) := do
  let (m, id, n) ← m.getOrInsertWith (.nodeId sender) ⟨sender, relayUrlOf src⟩
  let (n, role) := n.handlePing clock src
  let m := m.setNode id n
  match src, role with
  | .udp addr, .newPath => return (m.setNodeKeyForIpPort (.ofSocketAddr addr) sender, role)
  | _, _ => return (m, role)

/-- `NodeMapInner::handle_pong`. -/
def handlePong (m : NodeMapInner K U) (sender : K) (src : SendAddr U) (pong : Pong U) :
    NodeMapInner K U :=
  match m.getMut (.nodeId sender) with
  | none => m
  | some (id, ns) =>
    let (ns, insert) := ns.handlePong pong.txId src
    let m := m.setNode id ns
    match insert with
    | some (src, key) => m.setNodeKeyForIpPort (.ofSocketAddr src) key
    | none => m

/-- `NodeMapInner::handle_call_me_maybe`: every address of the message is indexed for the
node before the node handles the message. -/
def handleCallMeMaybe (m : NodeMapInner K U) (sender : K) (cm : CallMeMaybe) : NodeMapInner K U :=
  let m := match m.getId (.nodeId sender) with
    | some id => cm.myNumbers.foldl
        (fun (m : NodeMapInner K U) number => m.setNodeStateForIpPort (.ofSocketAddr number) id) m
    | none => m
  match m.getMut (.nodeId sender) with
  | none => m
  | some (id, ns) => m.setNode id (ns.handleCallMeMaybe clock cm)

/-- The loop body of `NodeMapInner::prune_inactive`, for one node's key. -/
def pruneNode (m : NodeMapInner K U) (publicKey : K) : Except Panic (NodeMapInner K U) :=
  match m.byNodeKey.lookup publicKey with
  | none => .error (.debugAssert "missing by_node_key entry for pk in by_id")
  | some id =>
    let m := { m with byNodeKey := m.byNodeKey.erase publicKey }
    match m.byId.lookup id with
    | none => .error (.debugAssert "missing by_id entry for id in by_node_key")
    | some ep =>
      let m := { m with byId := m.byId.erase id }
      let m := ep.paths.foldl (fun m ipPort => { m with byIpPort := m.byIpPort.erase ipPort }) m
      .ok { m with byQuicMappedAddr := m.byQuicMappedAddr.erase ep.quicMappedAddr }

/-- `NodeMapInner::prune_inactive`: of the inactive nodes, all but `MAX_INACTIVE_NODES` go,
the least recently used first. -/
def pruneInactive (m : NodeMapInner K U) : Except Panic (NodeMapInner K U) :=
  let pruneCandidates := ((m.byId.entries.map (·.2)).filter fun n => !clock.isActive n).map
    fun n => (n.nodeId, clock.lastUsed n)
  let pruneCount := pruneCandidates.length - maxInactiveNodes
  if pruneCount = 0 then .ok m
  else
    let pruned := (pruneCandidates.mergeSort fun a b => optionLe a.2 b.2).take pruneCount
    pruned.foldlM (fun m c => m.pruneNode c.1) m

/-- `NodeMap::notify_ping_sent`. -/
def notifyPingSent (m : NodeMapInner K U) (id : Nat) (dst : SendAddr U) (txId : List UInt8) :
    NodeMapInner K U :=
  match m.getMut (.idx id) with
  | none => m
  | some (id, ep) => m.setNode id (ep.pingSent dst txId)

end NodeMapInner

/-- The operations of the node map the magic socket calls. -/
inductive Op (K U : Type) where
  | addNodeAddr (nodeAddr : NodeAddr K U)
  | receiveUdp (udpAddr : SocketAddr)
  | receiveRelay (relayUrl : U) (src : K)
  | handlePing (sender : K) (src : SendAddr U)
  | handlePong (sender : K) (src : SendAddr U) (pong : Pong U)
  | handleCallMeMaybe (sender : K) (cm : CallMeMaybe)
  | onDirectAddrDiscovered (discovered : List IpPort)
  | pruneInactive
  | notifyPingSent (id : Nat) (dst : SendAddr U) (txId : List UInt8)

section Run

variable {K U : Type} [DecidableEq K] [DecidableEq U] (clock : Clock K U)

/-- One operation on the map, what it returns aside. -/
def step (m : NodeMapInner K U) : Op K U → Except Panic (NodeMapInner K U)
  | .addNodeAddr nodeAddr => m.addNodeAddr nodeAddr
  | .receiveUdp udpAddr => (·.1) <$> m.receiveUdp udpAddr
  | .receiveRelay relayUrl src => (·.1) <$> m.receiveRelay relayUrl src
  | .handlePing sender src => (·.1) <$> m.handlePing clock sender src
  | .handlePong sender src pong => .ok (m.handlePong sender src pong)
  | .handleCallMeMaybe sender cm => .ok (m.handleCallMeMaybe clock sender cm)
  | .onDirectAddrDiscovered discovered => .ok (m.onDirectAddrDiscovered discovered)
  | .pruneInactive => m.pruneInactive clock
  | .notifyPingSent id dst txId => .ok (m.notifyPingSent id dst txId)

/-- A sequence of operations. -/
def run (m : NodeMapInner K U) (ops : List (Op K U)) : Except Panic (NodeMapInner K U) :=
  ops.foldlM (step clock) m

end Run

/-! ### The indexes -/

section Indexed

variable {K U : Type} [DecidableEq K] [DecidableEq U]

/-- The correspondence between the indexes and the nodes: the key and mapped address
indexes name exactly the node with that key or address, and the UDP index names a node
that has the address among its paths (what `NodeState::receive_udp` asserts). -/
structure Indexed (m : NodeMapInner K U) : Prop where
  byNodeKey : ∀ k id, m.byNodeKey.lookup k = some id ↔ ∃ n, m.byId.lookup id = some n ∧ n.nodeId = k
  byQuicMappedAddr : ∀ a id,
    m.byQuicMappedAddr.lookup a = some id ↔ ∃ n, m.byId.lookup id = some n ∧ n.quicMappedAddr = a
  byIpPort : ∀ ipp id, m.byIpPort.lookup ipp = some id →
    ∃ n, m.byId.lookup id = some n ∧ ipp ∈ n.paths

omit [DecidableEq U] in
/-- An address indexed for a node that does not have it as a path breaks the
correspondence. -/
theorem not_indexed_of_unpathed {m : NodeMapInner K U} (ipp : IpPort) (id : Nat)
    {n : NodeState K U} (hipp : m.byIpPort.lookup ipp = some id) (hn : m.byId.lookup id = some n)
    (hpath : ipp ∉ n.paths) : ¬ Indexed m := by
  intro h
  obtain ⟨n', hn', hmem⟩ := h.byIpPort ipp id hipp
  rw [hn, Option.some.injEq] at hn'
  subst hn'
  exact hpath hmem

end Indexed

/-! ### Discovering our own addresses -/

section Discovery

variable {K U : Type} [DecidableEq K]

/-- `remove_by_ipp` changes only the node the UDP index names for the address: every other
node is kept as it is, whatever its paths. -/
theorem removeByIpp_lookup_of_ne {m : NodeMapInner K U} {ipp : IpPort} {id id' : Nat}
    (hipp : m.byIpPort.lookup ipp = some id) (hne : id' ≠ id) :
    (m.removeByIpp ipp).byId.lookup id' = m.byId.lookup id' := by
  unfold NodeMapInner.removeByIpp
  simp only [hipp]
  split
  · rfl
  · split
    · exact AList.lookup_erase_ne hne
    · exact AList.lookup_insert_ne hne

/-- Node 1 at the addresses a and b and node 2 at a alone: the UDP index names node 2 for a,
and removing a leaves node 1 as it was. -/
theorem removeByIpp_lookup_of_ne_shared :
    let clock : Clock Nat Nat := ⟨fun _ => false, fun _ => none, fun _ _ => false, fun _ _ => none, false⟩
    let a : SocketAddr := ⟨.v4 [192, 168, 0, 1], 1000⟩
    let b : SocketAddr := ⟨.v4 [192, 168, 0, 2], 1000⟩
    ∃ m, run clock NodeMapInner.empty [.addNodeAddr ⟨1, ⟨some 7, [a, b]⟩⟩, .addNodeAddr ⟨2, ⟨some 7, [a]⟩⟩] =
        .ok m ∧ m.byIpPort.lookup (.ofSocketAddr a) = some 1 ∧ (0 : Nat) ≠ 1 ∧
      (m.removeByIpp (.ofSocketAddr a)).byId.lookup 0 = m.byId.lookup 0 := by
  intro clock a b
  obtain ⟨m, hrun, hipp⟩ : ∃ m, run clock NodeMapInner.empty
      [.addNodeAddr ⟨1, ⟨some 7, [a, b]⟩⟩, .addNodeAddr ⟨2, ⟨some 7, [a]⟩⟩] = .ok m ∧
      m.byIpPort.lookup (.ofSocketAddr a) = some 1 := ⟨_, rfl, rfl⟩
  exact ⟨m, hrun, hipp, by decide, removeByIpp_lookup_of_ne hipp (by decide)⟩

/-- A node for which the address was its last path leaves the map: its entry, its key and
its mapped address go, whatever its relay URL. -/
theorem removeByIpp_drops_node {m : NodeMapInner K U} {ipp : IpPort} {id : Nat} {n : NodeState K U}
    (hipp : m.byIpPort.lookup ipp = some id) (hn : m.byId.lookup id = some n)
    (hlast : (n.removeDirectAddr ipp).paths = []) :
    (m.removeByIpp ipp).byId.lookup id = none ∧
      (m.removeByIpp ipp).byNodeKey.lookup n.nodeId = none ∧
      (m.removeByIpp ipp).byQuicMappedAddr.lookup n.quicMappedAddr = none := by
  unfold NodeMapInner.removeByIpp
  simp only [hipp, hn, hlast, if_true]
  exact ⟨AList.lookup_erase _ _, AList.lookup_erase _ _, AList.lookup_erase _ _⟩

/-- Node 2 at the address a alone, relay 7: removing a drops it from the map. -/
theorem removeByIpp_drops_node_relayed :
    let clock : Clock Nat Nat := ⟨fun _ => false, fun _ => none, fun _ _ => false, fun _ _ => none, false⟩
    let a : SocketAddr := ⟨.v4 [192, 168, 0, 1], 1000⟩
    let b : SocketAddr := ⟨.v4 [192, 168, 0, 2], 1000⟩
    ∃ m n, run clock NodeMapInner.empty [.addNodeAddr ⟨1, ⟨some 7, [a, b]⟩⟩, .addNodeAddr ⟨2, ⟨some 7, [a]⟩⟩] =
        .ok m ∧ m.byIpPort.lookup (.ofSocketAddr a) = some 1 ∧ m.byId.lookup 1 = some n ∧
      n.relayUrl = some 7 ∧ (n.removeDirectAddr (.ofSocketAddr a)).paths = [] ∧
      (m.removeByIpp (.ofSocketAddr a)).byId.lookup 1 = none ∧
      (m.removeByIpp (.ofSocketAddr a)).byNodeKey.lookup n.nodeId = none ∧
      (m.removeByIpp (.ofSocketAddr a)).byQuicMappedAddr.lookup n.quicMappedAddr = none := by
  intro clock a b
  obtain ⟨m, n, hrun, hipp, hn, hrelay, hlast⟩ : ∃ m n, run clock NodeMapInner.empty
      [.addNodeAddr ⟨1, ⟨some 7, [a, b]⟩⟩, .addNodeAddr ⟨2, ⟨some 7, [a]⟩⟩] = .ok m ∧
      m.byIpPort.lookup (.ofSocketAddr a) = some 1 ∧ m.byId.lookup 1 = some n ∧ n.relayUrl = some 7 ∧
      (n.removeDirectAddr (.ofSocketAddr a)).paths = [] := ⟨_, _, rfl, rfl, rfl, rfl, rfl⟩
  exact ⟨m, n, hrun, hipp, hn, hrelay, hlast, removeByIpp_drops_node hipp hn hlast⟩

end Discovery

/-- Node 1 has the addresses a and b, node 2 the address a, both the relay 7. When a turns
out to be one of our own addresses, the UDP index names node 2 alone: node 2, left without
a direct address, leaves the map with its key and mapped address although its relay still
reaches it, and node 1 keeps a as a path. -/
theorem discovered_address_drops_relayed_node (clock : Clock Nat Nat) :
    let a : SocketAddr := ⟨.v4 [192, 168, 0, 1], 1000⟩
    let b : SocketAddr := ⟨.v4 [192, 168, 0, 2], 1000⟩
    ∃ m m', run clock NodeMapInner.empty [.addNodeAddr ⟨1, ⟨some 7, [a, b]⟩⟩, .addNodeAddr ⟨2, ⟨some 7, [a]⟩⟩] =
        .ok m ∧
      step clock m (.onDirectAddrDiscovered [.ofSocketAddr a]) = .ok m' ∧
      (∃ n, m.byId.lookup 1 = some n ∧ n.nodeId = 2 ∧ n.relayUrl = some 7) ∧
      m'.byId.lookup 1 = none ∧ m'.byNodeKey.lookup 2 = none ∧ m'.byQuicMappedAddr.lookup 1 = none ∧
      ∃ n, m'.byId.lookup 0 = some n ∧ IpPort.ofSocketAddr a ∈ n.paths := by
  refine ⟨_, _, rfl, rfl, ⟨_, rfl, rfl, rfl⟩, rfl, rfl, rfl, _, rfl, ?_⟩
  decide

/-- fe80::1, port 1000: an IPv6 link-local address. -/
def linkLocal : SocketAddr := ⟨.v6 (0xfe :: 0x80 :: List.replicate 13 0 ++ [1]), 1000⟩

/-- Node 1 becomes known through relay 7, then sends a call-me-maybe with its link-local
address. The map indexes the address for node 1, which has no such path, and a packet from
that address then trips the assertion of `NodeState::receive_udp`. -/
theorem link_local_address_indexed_without_path (clock : Clock Nat Nat) :
    ∃ m, run clock NodeMapInner.empty [.receiveRelay 7 1, .handleCallMeMaybe 1 ⟨[linkLocal]⟩] = .ok m ∧
      m.byIpPort.lookup (.ofSocketAddr linkLocal) = some 0 ∧
      (∃ n, m.byId.lookup 0 = some n ∧ n.nodeId = 1 ∧ n.paths = []) ∧ ¬ Indexed m ∧
      step clock m (.receiveUdp linkLocal) =
        .error (.debugAssert "node map inconsistency by_ip_port <-> direct addr") := by
  obtain ⟨isActive, lastUsed, prunable, lastAlive, relayOnlyMode⟩ := clock
  cases relayOnlyMode <;>
  · refine ⟨_, rfl, rfl, ⟨_, rfl, rfl, rfl⟩, ?_, rfl⟩
    refine not_indexed_of_unpathed (.ofSocketAddr linkLocal) 0 rfl rfl ?_
    exact List.not_mem_nil

end Iroh.Net.NodeMap
