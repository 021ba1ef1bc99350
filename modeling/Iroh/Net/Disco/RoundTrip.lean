import Iroh.Net.Disco

/-! Disco messages written (`as_bytes` in `disco.rs`) and read back (`from_bytes`).

`Message::as_bytes` writes the type and version bytes and the payload. An address goes
out as the 16 octets of an IPv6 address, an IPv4 address mapped into IPv6, and its port
least significant byte first. Reading it back maps an IPv4-mapped address to IPv4
(`to_canonical`), so a message comes back with its addresses canonical (`Message.canon`,
`Message.fromBytes_asBytes`), and a message whose addresses are canonical is the only
one with its bytes (`Message.asBytes_injective`).

The round trip rests on the codecs of keys and relay URLs (`Codec`): a key's 32 bytes read
back to the key, and a relay URL's text, at least the two bytes of a `scheme:`, parses back
to the URL. An IPv6 socket address's flow info and scope id are not in the model: `as_bytes`
does not write them, and the decoder's `SocketAddr::new` sets them to zero. -/

namespace Iroh.Net.Disco

/-- The codecs the messages take from outside: `Env`'s decoders, and the encoders
`PublicKey::as_ref` and `RelayUrl`'s `to_string`, each read back by its decoder. -/
structure Codec (K U : Type) extends Env K U where
  keyBytes : K → List UInt8
  urlBytes : U → List UInt8
  length_keyBytes : ∀ k, (keyBytes k).length = publicKeyLength
  publicKey_keyBytes : ∀ k, publicKey (keyBytes k) = .ok k
  two_le_length_urlBytes : ∀ u, 2 ≤ (urlBytes u).length
  relayUrl_urlBytes : ∀ u, relayUrl (urlBytes u) = .ok u

/-! ### Encoders -/

/-- `t as u8` of a `MessageType`. -/
def MessageType.toU8 : MessageType → UInt8
  | .ping => 0x01
  | .pong => 0x02
  | .callMeMaybe => 0x03

/-- `msg_header`. -/
def msgHeader (t : MessageType) (ver : UInt8) : List UInt8 := [t.toU8, ver]

/-- The 16 octets an address is sent as: `Ipv4Addr::to_ipv6_mapped` of an IPv4 address,
`Ipv6Addr::octets` of an IPv6 one. -/
def IpAddr.ipv6Octets : IpAddr → List UInt8
  | .v4 octets => List.replicate 10 0 ++ [0xff, 0xff] ++ octets
  | .v6 octets => octets

/-- `socket_addr_as_bytes`: the port as `u16::to_le_bytes`. -/
def socketAddrAsBytes (addr : SocketAddr) : List UInt8 :=
  addr.ip.ipv6Octets ++ [UInt8.ofNat addr.port, UInt8.ofNat (addr.port / 256)]

variable {K U : Type} (codec : Codec K U)

/-- `Ping::as_bytes`. -/
def Ping.asBytes (ping : Ping K) : List UInt8 :=
  msgHeader .ping v0 ++ ping.txId ++ codec.keyBytes ping.nodeKey

/-- `send_addr_to_vec`. -/
def sendAddrToVec : SendAddr U → List UInt8
  | .relay url => 1 :: codec.urlBytes url
  | .udp ip => 0 :: socketAddrAsBytes ip

/-- `Pong::as_bytes`. -/
def Pong.asBytes (pong : Pong U) : List UInt8 :=
  msgHeader .pong v0 ++ pong.txId ++ sendAddrToVec codec pong.pingObservedAddr

/-- `CallMeMaybe::as_bytes`: each address in its chunk of `EP_LENGTH` bytes. -/
def CallMeMaybe.asBytes (callMeMaybe : CallMeMaybe) : List UInt8 :=
  msgHeader .callMeMaybe v0 ++ callMeMaybe.myNumbers.flatMap socketAddrAsBytes

/-- `Message::as_bytes`. -/
def Message.asBytes : Message K U → List UInt8
  | .ping p => Ping.asBytes codec p
  | .pong p => Pong.asBytes codec p
  | .callMeMaybe c => c.asBytes

/-! ### What comes back -/

/-- `IpAddr::to_canonical`. -/
def IpAddr.toCanonical : IpAddr → IpAddr
  | .v4 octets => .v4 octets
  | .v6 octets => ipFromOctets octets

/-- A socket address as it comes back from the wire: its IP address canonical. -/
def SocketAddr.canon (addr : SocketAddr) : SocketAddr := ⟨addr.ip.toCanonical, addr.port⟩

/-- A pong's address as it comes back: a relay URL unchanged. -/
def SendAddr.canon : SendAddr U → SendAddr U
  | .udp addr => .udp addr.canon
  | .relay url => .relay url

/-- A message as it comes back from the wire. -/
def Message.canon : Message K U → Message K U
  | .ping p => .ping p
  | .pong p => .pong ⟨p.txId, p.pingObservedAddr.canon⟩
  | .callMeMaybe c => .callMeMaybe ⟨c.myNumbers.map SocketAddr.canon⟩

/-- An IP address of as many octets as `Ipv4Addr` and `Ipv6Addr` hold. -/
def IpAddr.Valid : IpAddr → Prop
  | .v4 octets => octets.length = 4
  | .v6 octets => octets.length = 16

instance : DecidablePred IpAddr.Valid
  | .v4 octets => inferInstanceAs (Decidable (octets.length = 4))
  | .v6 octets => inferInstanceAs (Decidable (octets.length = 16))

/-- A socket address with a valid IP address and a `u16` port. -/
def SocketAddr.Valid (addr : SocketAddr) : Prop := addr.ip.Valid ∧ addr.port < 65536

instance : DecidablePred SocketAddr.Valid := fun addr =>
  inferInstanceAs (Decidable (addr.ip.Valid ∧ addr.port < 65536))

/-- A pong's address that is valid: a valid socket address, or any relay URL. -/
def SendAddr.Valid : SendAddr U → Prop
  | .udp addr => addr.Valid
  | .relay _ => True

/-- A message with the sizes its Rust types fix: a transaction id of `TX_LEN` bytes and
valid addresses. -/
def Message.Valid : Message K U → Prop
  | .ping p => p.txId.length = txLen
  | .pong p => p.txId.length = txLen ∧ p.pingObservedAddr.Valid
  | .callMeMaybe c => ∀ addr ∈ c.myNumbers, addr.Valid

/-! ### Addresses back from their bytes -/

theorem IpAddr.length_ipv6Octets {ip : IpAddr} (h : ip.Valid) : ip.ipv6Octets.length = 16 := by
  cases ip with
  | v4 octets =>
    have h4 : octets.length = 4 := h
    simp [ipv6Octets, h4]
  | v6 octets => exact h

/-- The 16 octets an address is sent as read back to the canonical address. -/
theorem IpAddr.ipFromOctets_ipv6Octets {ip : IpAddr} (h : ip.Valid) :
    ipFromOctets ip.ipv6Octets = ip.toCanonical := by
  cases ip with
  | v4 octets =>
    have hmapped : (List.replicate 10 (0 : UInt8) ++ [0xff, 0xff]).length = 12 := rfl
    simp only [ipFromOctets, ipv6Octets, toCanonical, List.take_left' hmapped, List.drop_left' hmapped,
      if_pos]
  | v6 octets => rfl

theorem length_socketAddrAsBytes {addr : SocketAddr} (h : addr.Valid) :
    (socketAddrAsBytes addr).length = epLength := by
  simp [socketAddrAsBytes, IpAddr.length_ipv6Octets h.1, epLength]

/-- An address read back from its bytes is the canonical address. -/
theorem socketAddrFromBytes_socketAddrAsBytes {addr : SocketAddr} (h : addr.Valid) :
    socketAddrFromBytes (socketAddrAsBytes addr) = addr.canon := by
  have h16 := IpAddr.length_ipv6Octets h.1
  have hport : (UInt8.ofNat addr.port).toNat + 256 * (UInt8.ofNat (addr.port / 256)).toNat = addr.port := by
    have hlt := h.2
    simp only [UInt8.toNat_ofNat']
    omega
  have hlow : (socketAddrAsBytes addr).getD 16 0 = UInt8.ofNat addr.port := by
    simp [socketAddrAsBytes, List.getD_eq_getElem?_getD, h16]
  have hhigh : (socketAddrAsBytes addr).getD 17 0 = UInt8.ofNat (addr.port / 256) := by
    simp [socketAddrAsBytes, List.getD_eq_getElem?_getD, h16]
  have hip : (socketAddrAsBytes addr).take 16 = addr.ip.ipv6Octets := List.take_left' h16
  rw [socketAddrFromBytes, hlow, hhigh, hport, hip, IpAddr.ipFromOctets_ipv6Octets h.1]
  rfl

theorem length_flatMap_socketAddrAsBytes {addrs : List SocketAddr} (h : ∀ addr ∈ addrs, addr.Valid) :
    (addrs.flatMap socketAddrAsBytes).length = epLength * addrs.length := by
  induction addrs with
  | nil => rfl
  | cons addr addrs ih =>
    rw [List.flatMap_cons, List.length_append, length_socketAddrAsBytes (h addr List.mem_cons_self),
      ih fun a ha => h a (List.mem_cons_of_mem _ ha), List.length_cons, Nat.mul_succ]
    omega

/-- `chunks_exact` cuts addresses written one after another back apart. -/
theorem chunksExact_flatMap {addrs : List SocketAddr} (h : ∀ addr ∈ addrs, addr.Valid) (fuel : Nat)
    (hfuel : addrs.length ≤ fuel) :
    chunksExact epLength fuel (addrs.flatMap socketAddrAsBytes) = addrs.map socketAddrAsBytes := by
  induction addrs generalizing fuel with
  | nil => cases fuel <;> simp [chunksExact, epLength]
  | cons addr addrs ih =>
    obtain ⟨fuel, rfl⟩ : ∃ m, fuel = m + 1 := ⟨fuel - 1, by simp at hfuel; omega⟩
    have hlen := length_socketAddrAsBytes (h addr List.mem_cons_self)
    rw [List.flatMap_cons, chunksExact, if_pos ⟨by decide, by simp [hlen]⟩, List.take_left' hlen,
      List.drop_left' hlen, ih (fun a ha => h a (List.mem_cons_of_mem _ ha)) fuel (by simpa using hfuel),
      List.map_cons]

/-- A pong's address read back from its bytes. -/
theorem sendAddrFromBytes_sendAddrToVec {addr : SendAddr U} (h : addr.Valid) :
    sendAddrFromBytes codec.toEnv (sendAddrToVec codec addr) = .ok addr.canon := by
  cases addr with
  | udp addr =>
    have hlen := length_socketAddrAsBytes h
    simp [sendAddrFromBytes, sendAddrToVec, ensure, hlen, epLength, socketAddrFromBytes_socketAddrAsBytes h,
      SendAddr.canon]
  | relay url =>
    have hlen := codec.two_le_length_urlBytes url
    simp [sendAddrFromBytes, sendAddrToVec, ensure, hlen, codec.relayUrl_urlBytes, liftError, SendAddr.canon,
      bind, Except.bind]
    rfl

/-! ### Messages back from their bytes -/

variable (env : Env K U)

/-- `Message::from_bytes` on a header: the decoder of its type, on the payload. -/
theorem Message.fromBytes_msgHeader (t : MessageType) (ver : UInt8) (p : List UInt8) :
    Message.fromBytes env (msgHeader t ver ++ p) =
      match t with
      | .ping => Ping.fromBytes env ver p >>= fun ping => pure (.ping ping)
      | .pong => Pong.fromBytes env ver p >>= fun pong => pure (.pong pong)
      | .callMeMaybe => CallMeMaybe.fromBytes ver p >>= fun c => pure (.callMeMaybe c) := by
  cases t <;> rfl

theorem Ping.fromBytes_asBytes {ping : Ping K} (h : ping.txId.length = txLen) :
    Ping.fromBytes codec.toEnv v0 (ping.txId ++ codec.keyBytes ping.nodeKey) = .ok ping := by
  have hkey := codec.length_keyBytes ping.nodeKey
  have hlong : (ping.txId ++ codec.keyBytes ping.nodeKey).length ≥ pingLen := by
    simp [h, hkey, pingLen]
  have htx : slice (ping.txId ++ codec.keyBytes ping.nodeKey) 0 txLen = .ok ping.txId := by
    rw [slice_eq_ok (Nat.zero_le _) (by simp [h])]
    simp [← h]
  have hraw : slice (ping.txId ++ codec.keyBytes ping.nodeKey) txLen (txLen + publicKeyLength) =
      .ok (codec.keyBytes ping.nodeKey) := by
    rw [slice_eq_ok (by omega) (by simp [h, hkey])]
    simp [← h, ← hkey]
  simp [Ping.fromBytes, ensure, h, hkey, htx, hraw, codec.publicKey_keyBytes, liftError, bind,
    Except.bind, pingLen]
  rfl

theorem Pong.fromBytes_asBytes {pong : Pong U} (h : pong.txId.length = txLen)
    (haddr : pong.pingObservedAddr.Valid) :
    Pong.fromBytes codec.toEnv v0 (pong.txId ++ sendAddrToVec codec pong.pingObservedAddr) =
      .ok ⟨pong.txId, pong.pingObservedAddr.canon⟩ := by
  have htx : slice (pong.txId ++ sendAddrToVec codec pong.pingObservedAddr) 0 txLen = .ok pong.txId := by
    rw [slice_eq_ok (Nat.zero_le _) (by simp [h])]
    simp [← h]
  have hrest : sliceFrom (pong.txId ++ sendAddrToVec codec pong.pingObservedAddr) txLen =
      .ok (sendAddrToVec codec pong.pingObservedAddr) := by
    rw [sliceFrom_eq_ok (by simp [h])]
    simp [← h]
  simp [Pong.fromBytes, ensure, htx, hrest, sendAddrFromBytes_sendAddrToVec codec haddr, bind, Except.bind]
  rfl

theorem CallMeMaybe.fromBytes_asBytes {addrs : List SocketAddr} (h : ∀ addr ∈ addrs, addr.Valid) :
    CallMeMaybe.fromBytes v0 (addrs.flatMap socketAddrAsBytes) = .ok ⟨addrs.map SocketAddr.canon⟩ := by
  have hlen := length_flatMap_socketAddrAsBytes h
  have hchunks := chunksExact_flatMap h (epLength * addrs.length) (by simp [epLength]; omega)
  have hmap : (addrs.map socketAddrAsBytes).map socketAddrFromBytes = addrs.map SocketAddr.canon := by
    rw [List.map_map]
    exact List.map_congr_left fun addr ha => socketAddrFromBytes_socketAddrAsBytes (h addr ha)
  simp [CallMeMaybe.fromBytes, ensure, hlen, hchunks, hmap, bind, Except.bind]
  rfl

/-- A valid message is read back from its bytes with its addresses canonical. -/
theorem Message.fromBytes_asBytes {m : Message K U} (h : m.Valid) :
    Message.fromBytes codec.toEnv (m.asBytes codec) = .ok m.canon := by
  cases m with
  | ping ping =>
    rw [Message.asBytes, Ping.asBytes, List.append_assoc, Message.fromBytes_msgHeader,
      Ping.fromBytes_asBytes codec h]
    rfl
  | pong pong =>
    rw [Message.asBytes, Pong.asBytes, List.append_assoc, Message.fromBytes_msgHeader,
      Pong.fromBytes_asBytes codec h.1 h.2]
    rfl
  | callMeMaybe c =>
    rw [Message.asBytes, CallMeMaybe.asBytes, Message.fromBytes_msgHeader, CallMeMaybe.fromBytes_asBytes h]
    rfl

/-- Two valid messages whose addresses are canonical and whose bytes agree are the same. -/
theorem Message.asBytes_injective {m m' : Message K U} (hm : m.Valid) (hm' : m'.Valid)
    (hc : m.canon = m) (hc' : m'.canon = m') (h : m.asBytes codec = m'.asBytes codec) : m = m' := by
  have hback := Message.fromBytes_asBytes codec hm
  rw [h, Message.fromBytes_asBytes codec hm', hc, hc'] at hback
  exact (Except.ok.inj hback).symm

/-! ### The round trip -/

/-- Every disco message, with the sizes its Rust types fix, reads back from `as_bytes` with
its addresses canonical and its relay URL unchanged, and `as_bytes` tells such messages
apart once their addresses are canonical. -/
theorem disco_message_round_trip :
    (∀ m : Message K U, m.Valid → Message.fromBytes codec.toEnv (m.asBytes codec) = .ok m.canon) ∧
    (∀ m m' : Message K U, m.Valid → m'.Valid → m.canon = m → m'.canon = m' →
      m.asBytes codec = m'.asBytes codec → m = m') :=
  ⟨fun _ h => Message.fromBytes_asBytes codec h,
    fun _ _ hm hm' hc hc' h => Message.asBytes_injective codec hm hm' hc hc' h⟩

end Iroh.Net.Disco
