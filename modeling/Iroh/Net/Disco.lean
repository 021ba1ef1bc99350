import Mathlib

/-! Disco messages (`disco.rs`): the plaintext of a sealed box, decoded by
`Message::from_bytes`.

A message is a type byte, a version byte and a payload. A `Ping` carries a
transaction id and the sender's key, a `Pong` a transaction id and the address the
ping was seen from, a `CallMeMaybe` a list of addresses of 18 bytes each. The
decoders check lengths with `ensure!` before they slice, except `Pong::from_bytes`,
which slices `p[..TX_LEN]` first: a short `Pong` panics instead of failing
(`fromBytes_panics_iff`).

Decoding a public key (`PublicKey::try_from`) and a relay URL (`from_utf8` and
`Url::parse`) is outside the model (`Env`), with the texts of their errors. -/

namespace Iroh.Net.Disco

/-- How decoding stops: an `Err` with its text, or a panic. -/
inductive Failure where
  | error (message : String)
  | panic (message : String)
deriving DecidableEq, Repr

/-- `TX_LEN`. -/
def txLen : Nat := 12

/-- `PUBLIC_KEY_LENGTH`. -/
def publicKeyLength : Nat := 32

/-- `PING_LEN`. -/
def pingLen : Nat := txLen + publicKeyLength

/-- `EP_LENGTH`: a 16 byte IP address and a 2 byte port. -/
def epLength : Nat := 16 + 2

/-- `V0`. -/
def v0 : UInt8 := 0

/-- What the decoders take from outside: a public key from its bytes, and a relay
URL from its bytes, each with the text of its error. -/
structure Env (K U : Type) where
  publicKey : List UInt8 → Except String K
  relayUrl : List UInt8 → Except String U

/-- `MessageType`. -/
inductive MessageType where
  | ping
  | pong
  | callMeMaybe
deriving DecidableEq, Repr

/-- `MessageType::try_from`. -/
def MessageType.tryFrom : UInt8 → Option MessageType
  | 0x01 => some .ping
  | 0x02 => some .pong
  | 0x03 => some .callMeMaybe
  | _ => none

/-- `IpAddr`, by its octets. -/
inductive IpAddr where
  | v4 (octets : List UInt8)
  | v6 (octets : List UInt8)
deriving DecidableEq, Repr

/-- `SocketAddr`. -/
structure SocketAddr where
  ip : IpAddr
  port : Nat
deriving DecidableEq, Repr

/-- `SendAddr`. -/
inductive SendAddr (U : Type) where
  | udp (addr : SocketAddr)
  | relay (url : U)
deriving DecidableEq, Repr

/-- `Ping`. -/
structure Ping (K : Type) where
  txId : List UInt8
  nodeKey : K
deriving DecidableEq, Repr

/-- `Pong`. -/
structure Pong (U : Type) where
  txId : List UInt8
  pingObservedAddr : SendAddr U
deriving DecidableEq, Repr

/-- `CallMeMaybe`. -/
structure CallMeMaybe where
  myNumbers : List SocketAddr
deriving DecidableEq, Repr

/-- `Message`. -/
inductive Message (K U : Type) where
  | ping (ping : Ping K)
  | pong (pong : Pong U)
  | callMeMaybe (callMeMaybe : CallMeMaybe)
deriving DecidableEq, Repr

/-! ### Slices and checks -/

/-- `ensure!`. -/
def ensure (condition : Bool) (message : String) : Except Failure Unit :=
  if condition then .ok () else .error (.error message)

/-- `p[a..b]` (and `p[..b]` for `a = 0`), which panics out of range with the texts
of `core::slice::index`. -/
def slice (p : List UInt8) (a b : Nat) : Except Failure (List UInt8) :=
  if b < a then .error (.panic ("slice index starts at " ++ toString a ++ " but ends at " ++ toString b))
  else if p.length < b then
    .error (.panic ("range end index " ++ toString b ++ " out of range for slice of length " ++
      toString p.length))
  else .ok ((p.drop a).take (b - a))

/-- `p[a..]`, which panics out of range. -/
def sliceFrom (p : List UInt8) (a : Nat) : Except Failure (List UInt8) :=
  if p.length < a then
    .error (.panic ("range start index " ++ toString a ++ " out of range for slice of length " ++
      toString p.length))
  else .ok (p.drop a)

/-- An error from outside, with its text. -/
def liftError {α : Type} : Except String α → Except Failure α
  | .ok a => .ok a
  | .error message => .error (.error message)

/-- `chunks_exact(n)`: the whole chunks of `n` bytes, at most `fuel` of them. -/
def chunksExact (n : Nat) : Nat → List UInt8 → List (List UInt8)
  | 0, _ => []
  | fuel + 1, p => if 0 < n ∧ n ≤ p.length then p.take n :: chunksExact n fuel (p.drop n) else []

/-! ### Decoders -/

/-- `Ipv6Addr::to_canonical` of `IpAddr::from([u8; 16])`: an IPv4-mapped address
is the IPv4 address. -/
def ipFromOctets (octets : List UInt8) : IpAddr :=
  if octets.take 12 = List.replicate 10 0 ++ [0xff, 0xff] then .v4 (octets.drop 12) else .v6 octets

/-- `socket_addr_from_bytes`, on the 18 bytes of an address: the port is little
endian. -/
def socketAddrFromBytes (p : List UInt8) : SocketAddr :=
  ⟨ipFromOctets (p.take 16), (p.getD 16 0).toNat + 256 * (p.getD 17 0).toNat⟩

variable {K U : Type} (env : Env K U)

/-- `Ping::from_bytes`. -/
def Ping.fromBytes (ver : UInt8) (p : List UInt8) : Except Failure (Ping K) := do
  ensure (ver == v0) "invalid version"
  -- deliberately lax on longer messages
  ensure (p.length ≥ pingLen) "message too short"
  let txId ← slice p 0 txLen
  let rawKey ← slice p txLen (txLen + publicKeyLength)
  let nodeKey ← liftError (env.publicKey rawKey)
  return ⟨txId, nodeKey⟩

/-- `send_addr_from_bytes`. -/
def sendAddrFromBytes (p : List UInt8) : Except Failure (SendAddr U) := do
  ensure (p.length > 2) "too short"
  match p with
  | 0 :: rest =>
    if rest.length = epLength then return .udp (socketAddrFromBytes rest)
    else throw (.error "invalid length")
  | 1 :: rest => return .relay (← liftError (env.relayUrl rest))
  | b :: _ => throw (.error ("invalid addr type " ++ toString b))
  | [] => throw (.panic "index out of bounds")

/-- `Pong::from_bytes`: the transaction id is sliced before any length check. -/
def Pong.fromBytes (ver : UInt8) (p : List UInt8) : Except Failure (Pong U) := do
  ensure (ver == v0) "invalid version"
  let txId ← slice p 0 txLen
  let src ← sendAddrFromBytes env (← sliceFrom p txLen)
  return ⟨txId, src⟩

/-- `CallMeMaybe::from_bytes`. -/
def CallMeMaybe.fromBytes (ver : UInt8) (p : List UInt8) : Except Failure CallMeMaybe := do
  ensure (ver == v0) "invalid version"
  ensure (p.length % epLength == 0) "invalid entries"
  return ⟨(chunksExact epLength p.length p).map socketAddrFromBytes⟩

/-- `Message::from_bytes`. -/
def Message.fromBytes (p : List UInt8) : Except Failure (Message K U) := do
  ensure (p.length ≥ 2) "message too short"
  match p with
  | t :: ver :: p =>
    match MessageType.tryFrom t with
    | some .ping => return .ping (← Ping.fromBytes env ver p)
    | some .pong => return .pong (← Pong.fromBytes env ver p)
    | some .callMeMaybe => return .callMeMaybe (← CallMeMaybe.fromBytes ver p)
    | none => throw (.error ("unknown message type: " ++ toString t))
  | _ => throw (.panic "index out of bounds")

/-! ### Where decoding panics -/

/-- The decoder panics. -/
def Panics {α : Type} (x : Except Failure α) : Prop := ∃ message, x = .error (.panic message)

theorem panics_bind_iff {α β : Type} {x : Except Failure α} {f : α → Except Failure β} :
    Panics (x >>= f) ↔ Panics x ∨ ∃ a, x = .ok a ∧ Panics (f a) := by
  cases x <;> simp [Panics, bind, Except.bind]

@[simp] theorem panics_map_iff {α β : Type} {x : Except Failure α} {f : α → β} :
    Panics (f <$> x) ↔ Panics x := by
  cases x <;> simp [Panics, Functor.map, Except.map]

@[simp] theorem not_panics_pure {α : Type} (a : α) : ¬ Panics (pure a : Except Failure α) := by
  simp [Panics, pure, Except.pure]

@[simp] theorem not_panics_ok {α : Type} (a : α) : ¬ Panics (.ok a : Except Failure α) := by
  simp [Panics]

@[simp] theorem throw_eq {α : Type} (f : Failure) : (throw f : Except Failure α) = .error f := rfl

@[simp] theorem not_panics_error {α : Type} (message : String) :
    ¬ Panics (.error (.error message) : Except Failure α) := by
  simp [Panics]

@[simp] theorem not_panics_ensure (condition : Bool) (message : String) :
    ¬ Panics (ensure condition message) := by
  cases condition <;> simp [ensure, Panics]

@[simp] theorem not_panics_liftError {α : Type} (x : Except String α) : ¬ Panics (liftError x) := by
  cases x <;> simp [liftError, Panics]

@[simp] theorem ensure_eq_ok (condition : Bool) (message : String) (u : Unit) :
    ensure condition message = .ok u ↔ condition = true := by
  cases condition <;> simp [ensure]

theorem slice_eq_ok {p : List UInt8} {a b : Nat} (hab : a ≤ b) (hb : b ≤ p.length) :
    slice p a b = .ok ((p.drop a).take (b - a)) := by
  simp [slice, Nat.not_lt.mpr hab, Nat.not_lt.mpr hb]

theorem panics_slice_iff {p : List UInt8} {a b : Nat} :
    Panics (slice p a b) ↔ ¬ (a ≤ b ∧ b ≤ p.length) := by
  unfold slice
  split
  · simp only [Panics, Except.error.injEq, Failure.panic.injEq, exists_eq', true_iff]
    omega
  · split <;> simp_all [Panics]

theorem sliceFrom_eq_ok {p : List UInt8} {a : Nat} (ha : a ≤ p.length) :
    sliceFrom p a = .ok (p.drop a) := by
  simp [sliceFrom, Nat.not_lt.mpr ha]

/-- `Ping::from_bytes` checks the length before it slices. -/
theorem Ping.not_panics_fromBytes (ver : UInt8) (p : List UInt8) :
    ¬ Panics (Ping.fromBytes env ver p) := by
  simp only [Ping.fromBytes, panics_bind_iff, not_panics_ensure, ensure_eq_ok, false_or,
    not_exists, not_and]
  intro _ _ _ hlen
  have hp : pingLen ≤ p.length := by simpa using hlen
  rw [slice_eq_ok (Nat.zero_le _) (by simp [pingLen] at hp ⊢; omega),
    slice_eq_ok (by simp [txLen]) (by simpa [pingLen] using hp)]
  simp

/-- `send_addr_from_bytes` checks the length before it reads the first byte. -/
theorem not_panics_sendAddrFromBytes (p : List UInt8) :
    ¬ Panics (sendAddrFromBytes env p : Except Failure (SendAddr U)) := by
  simp only [sendAddrFromBytes, panics_bind_iff, not_panics_ensure, ensure_eq_ok, false_or,
    not_exists, not_and]
  intro _ hlen
  split
  · split <;> simp
  · simp
  · simp
  · simp at hlen

/-- `CallMeMaybe::from_bytes` only cuts whole chunks. -/
theorem CallMeMaybe.not_panics_fromBytes (ver : UInt8) (p : List UInt8) :
    ¬ Panics (CallMeMaybe.fromBytes ver p) := by
  simp [CallMeMaybe.fromBytes, panics_bind_iff]

theorem MessageType.tryFrom_eq_pong {t : UInt8} : MessageType.tryFrom t = some .pong ↔ t = 0x02 := by
  unfold MessageType.tryFrom
  split <;> simp_all

/-- **`Pong::from_bytes` panics exactly on a short payload** of the right version. -/
theorem Pong.panics_fromBytes_iff (ver : UInt8) (p : List UInt8) :
    Panics (Pong.fromBytes env ver p : Except Failure (Pong U)) ↔ ver = v0 ∧ p.length < txLen := by
  by_cases hv : ver = v0
  · by_cases hl : p.length < txLen
    · have hs : Panics (slice p 0 txLen) := panics_slice_iff.mpr (by omega)
      obtain ⟨_, hs⟩ := hs
      simp [Pong.fromBytes, ensure, hv, hs, bind, Except.bind, Panics, hl]
    · have hs := slice_eq_ok (p := p) (Nat.zero_le txLen) (Nat.not_lt.mp hl)
      have hf := sliceFrom_eq_ok (p := p) (Nat.not_lt.mp hl)
      simp only [Pong.fromBytes, ensure, hv, beq_self_eq_true, if_true, hs, hf, hl, and_false,
        iff_false, panics_bind_iff, not_panics_ok, false_or, not_exists, not_and]
      intro _ _ _ _ rest _
      simp [not_panics_sendAddrFromBytes]
  · simp [Pong.fromBytes, ensure, hv, bind, Except.bind, Panics]

/-- **`Message::from_bytes` panics exactly on a `Pong` of version 0 whose payload is
shorter than a transaction id.** Every other input decodes or fails with an error. -/
theorem fromBytes_panics_iff (p : List UInt8) :
    Panics (Message.fromBytes env p : Except Failure (Message K U)) ↔
      ∃ rest, p = 0x02 :: 0 :: rest ∧ rest.length < txLen := by
  rcases p with _ | ⟨t, _ | ⟨ver, rest⟩⟩
  · simp [Message.fromBytes, ensure, bind, Except.bind, Panics]
  · simp [Message.fromBytes, ensure, bind, Except.bind, Panics]
  · have hlen : ((t :: ver :: rest).length ≥ 2) = True := by simp
    simp only [Message.fromBytes, ensure, hlen, decide_true, if_true]
    cases ht : MessageType.tryFrom t with
    | none =>
      have : t ≠ 0x02 := fun h => by simp [MessageType.tryFrom_eq_pong.mpr h] at ht
      simp [panics_bind_iff, this]
    | some m =>
      cases m with
      | ping =>
        have : t ≠ 0x02 := fun h => by simp [MessageType.tryFrom_eq_pong.mpr h] at ht
        simp [panics_bind_iff, this, Ping.not_panics_fromBytes]
      | pong =>
        have : t = 0x02 := MessageType.tryFrom_eq_pong.mp ht
        simp [panics_bind_iff, this, Pong.panics_fromBytes_iff, v0]
      | callMeMaybe =>
        have : t ≠ 0x02 := fun h => by simp [MessageType.tryFrom_eq_pong.mpr h] at ht
        simp [panics_bind_iff, this, CallMeMaybe.not_panics_fromBytes]

/-- The plaintext \[0x02, 0x00\] names a `Pong` of version 0 with an empty payload, and
`p[..TX_LEN]` panics on it before `try_into` could report "message too short". -/
theorem short_pong_panics :
    (Message.fromBytes env [0x02, 0x00] : Except Failure (Message K U)) =
      .error (.panic "range end index 12 out of range for slice of length 0") := rfl

end Iroh.Net.Disco
