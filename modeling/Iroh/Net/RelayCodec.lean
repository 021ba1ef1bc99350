import Iroh.Lib.Machine
import Iroh.Lib.Slice

/-! The relay protocol's framing (`relay/codec.rs`): `Frame` and `DerpCodec`.

A frame on the wire is its type byte, the length of its body as a big-endian `u32`, and
the body (`write_to`), whose length `Frame::len` computes; `from_bytes` reads a body back
for a type. Keys are 32 bytes that `PublicKey::try_from` reads back to the key they came
from (`KeyBytes`); a signature is any 64 bytes.

The length `Frame::len` gives is the length of what `write_to` writes, whatever order it
lists a client info's fields in (`length_writeTo`). A frame whose packet fits
`MAX_PACKET_SIZE` reads back from its body (`fromBytes_writeTo`), and what `from_bytes`
accepts is the body of the frame it returns (`writeTo_of_fromBytes`). `decode` takes a
frame from the front of the buffer, yields nothing on a strict prefix, never panics, and
consumes exactly the encoding of what it yields (`decode_eq_some`). `encode` accepts every
frame up to `MAX_FRAME_SIZE` (`encode_eq_ok_iff`), so a packet over `MAX_PACKET_SIZE` is
written but not read back (`decode_bytes_of_too_long`). -/

namespace Iroh.Net.Relay

open Slice

/-- `MAX_PACKET_SIZE`. -/
def maxPacketSize : Nat := 64 * 1024

/-- `MAX_FRAME_SIZE`. -/
def maxFrameSize : Nat := 1024 * 1024

/-- `PUBLIC_KEY_LENGTH`. -/
def publicKeyLength : Nat := 32

/-- `Signature::BYTE_SIZE`. -/
def signatureByteSize : Nat := 64

/-- `HEADER_LEN`. -/
def headerLen : Nat := 5

/-- `MAGIC.as_bytes()`: the UTF-8 bytes of `RELAY🔑`. -/
def magic : List UInt8 := [82, 69, 76, 65, 89, 240, 159, 148, 145]

/-- `PREFERRED`. -/
def preferred : UInt8 := 1

/-- `NOT_PREFERRED`. -/
def notPreferred : UInt8 := 0

/-- `FrameType`. -/
inductive FrameType where
  | clientInfo
  | sendPacket
  | recvPacket
  | keepAlive
  | notePreferred
  | peerGone
  | ping
  | pong
  | health
  | restarting
  | unknown
deriving DecidableEq, Repr

namespace FrameType

/-- `From<FrameType> for u8`. -/
def toU8 : FrameType → UInt8
  | .clientInfo => 2
  | .sendPacket => 4
  | .recvPacket => 5
  | .keepAlive => 6
  | .notePreferred => 7
  | .peerGone => 8
  | .ping => 12
  | .pong => 13
  | .health => 14
  | .restarting => 15
  | .unknown => 255

/-- `From<u8> for FrameType`: every other byte is `Unknown`. -/
def fromU8 (b : UInt8) : FrameType :=
  match b with
  | 2 => .clientInfo
  | 4 => .sendPacket
  | 5 => .recvPacket
  | 6 => .keepAlive
  | 7 => .notePreferred
  | 8 => .peerGone
  | 12 => .ping
  | 13 => .pong
  | 14 => .health
  | 15 => .restarting
  | _ => .unknown

end FrameType

/-- `PublicKey` as its 32 bytes: `as_ref` and `TryFrom<&[u8]>`, which reads a key's bytes
back to it and returns a key only for its bytes. -/
structure KeyBytes (K : Type) where
  toBytes : K → List UInt8
  tryFrom : List UInt8 → Except String K
  length_toBytes : ∀ k, (toBytes k).length = publicKeyLength
  tryFrom_toBytes : ∀ k, tryFrom (toBytes k) = .ok k
  toBytes_of_tryFrom : ∀ bytes k, tryFrom bytes = .ok k → toBytes k = bytes

/-- Keys that are any 32 bytes: the simplest keys the codec can carry. -/
def KeyBytes.raw : KeyBytes { bytes : List UInt8 // bytes.length = publicKeyLength } where
  toBytes k := k.1
  tryFrom bytes := if h : bytes.length = publicKeyLength then .ok ⟨bytes, h⟩ else .error "invalid length"
  length_toBytes k := k.2
  tryFrom_toBytes k := dif_pos k.2
  toBytes_of_tryFrom bytes k h := by
    split_ifs at h with hlen
    cases h
    rfl

/-- `Frame`. -/
inductive Frame (K : Type) where
  | clientInfo (clientPublicKey : K) (message : List UInt8) (signature : Vector UInt8 64)
  | sendPacket (dstKey : K) (packet : List UInt8)
  | recvPacket (srcKey : K) (content : List UInt8)
  | keepAlive
  | notePreferred (preferred : Bool)
  | peerGone (peer : K)
  | ping (data : Vector UInt8 8)
  | pong (data : Vector UInt8 8)
  | health (problem : List UInt8)
  | restarting (reconnectIn tryFor : UInt32)

/-- `Signature::from_slice`. -/
def signatureFromSlice (s : List UInt8) : Except (Fault String) (Vector UInt8 64) :=
  arrayOr 64 (.error "signature error") s

/-- `[0u8; n].copy_from_slice(src)`. -/
def copyFromSlice (n : Nat) (src : List UInt8) : Except (Fault String) (Vector UInt8 n) :=
  arrayOr n (.panic ("source slice length (" ++ toString src.length ++
    ") does not match destination slice length (" ++ toString n ++ ")")) src

/-- `<[u8; n]>::try_from(s)?`. -/
def tryIntoArray (n : Nat) (s : List UInt8) : Except (Fault String) (Vector UInt8 n) :=
  arrayOr n (.error "could not convert slice to array") s

namespace Frame

variable {K : Type} (keys : KeyBytes K)

/-- `Frame::typ`. -/
def typ : Frame K → FrameType
  | .clientInfo .. => .clientInfo
  | .sendPacket .. => .sendPacket
  | .recvPacket .. => .recvPacket
  | .keepAlive => .keepAlive
  | .notePreferred .. => .notePreferred
  | .peerGone .. => .peerGone
  | .ping .. => .ping
  | .pong .. => .pong
  | .health .. => .health
  | .restarting .. => .restarting

/-- `Frame::len`: the length of the body, with the client info's fields in another order
than `write_to` writes them. -/
def len : Frame K → Nat
  | .clientInfo _ message _ => magic.length + publicKeyLength + message.length + signatureByteSize
  | .sendPacket _ packet => publicKeyLength + packet.length
  | .recvPacket _ content => publicKeyLength + content.length
  | .keepAlive => 0
  | .notePreferred _ => 1
  | .peerGone _ => publicKeyLength
  | .ping _ => 8
  | .pong _ => 8
  | .health problem => problem.length
  | .restarting .. => 4 + 4

/-- `Frame::write_to`: the body. -/
def writeTo : Frame K → List UInt8
  | .clientInfo clientPublicKey message signature =>
    magic ++ keys.toBytes clientPublicKey ++ signature.toList ++ message
  | .sendPacket dstKey packet => keys.toBytes dstKey ++ packet
  | .recvPacket srcKey content => keys.toBytes srcKey ++ content
  | .keepAlive => []
  | .notePreferred p => [if p then preferred else notPreferred]
  | .peerGone peer => keys.toBytes peer
  | .ping data => data.toList
  | .pong data => data.toList
  | .health problem => problem
  | .restarting reconnectIn tryFor => u32ToBeBytes reconnectIn ++ u32ToBeBytes tryFor

/-- Whether a packet the frame carries fits `MAX_PACKET_SIZE`, as `from_bytes` checks. -/
def packetFits : Frame K → Bool
  | .sendPacket _ packet => decide (packet.length ≤ maxPacketSize)
  | .recvPacket _ content => decide (content.length ≤ maxPacketSize)
  | _ => true

/-- The frame as `encode` writes it: the type, the body's length, the body. -/
def bytes (f : Frame K) : List UInt8 :=
  f.typ.toU8 :: (u32ToBeBytes (UInt32.ofNat f.len) ++ f.writeTo keys)

/-- `Frame::encode_for_ws_msg`. -/
def encodeForWsMsg (f : Frame K) : List UInt8 := f.typ.toU8 :: f.writeTo keys

/-- The body of a packet frame: a key, then at most `MAX_PACKET_SIZE` bytes. -/
def packetBody (content : List UInt8) (lengthMessage : String) :
    Except (Fault String) (K × List UInt8) := do
  ensure (content.length ≥ publicKeyLength) (lengthMessage ++ toString content.length)
  let packetLen := content.length - publicKeyLength
  ensure (packetLen ≤ maxPacketSize)
    ("data packet longer (" ++ toString packetLen ++ ") than max of " ++ toString maxPacketSize)
  let key ← liftErr (keys.tryFrom (← range content 0 publicKeyLength))
  let packet ← rangeFrom content publicKeyLength
  pure (key, packet)

/-- `Frame::from_bytes`. -/
def fromBytes (frameType : FrameType) (content : List UInt8) : Except (Fault String) (Frame K) :=
  match frameType with
  | .clientInfo => do
    ensure (content.length ≥ publicKeyLength + signatureByteSize + magic.length)
      ("invalid client info frame length: " ++ toString content.length)
    ensure ((← range content 0 magic.length) = magic) "invalid client info frame magic"
    let start := magic.length
    let clientPublicKey ← liftErr (keys.tryFrom (← range content start (start + publicKeyLength)))
    let start := start + publicKeyLength
    let signature ← signatureFromSlice (← range content start (start + signatureByteSize))
    let start := start + signatureByteSize
    let message ← rangeFrom content start
    pure (.clientInfo clientPublicKey message signature)
  | .sendPacket => do
    let (dstKey, packet) ← packetBody keys content "invalid send packet frame length: "
    pure (.sendPacket dstKey packet)
  | .recvPacket => do
    let (srcKey, content) ← packetBody keys content "invalid recv packet frame length: "
    pure (.recvPacket srcKey content)
  | .keepAlive => do
    ensure content.isEmpty "invalid keep alive frame length"
    pure .keepAlive
  | .notePreferred => do
    ensure (content.length == 1) "invalid note preferred frame length"
    let byte ← index content 0
    if byte = preferred then pure (.notePreferred true)
    else if byte = notPreferred then pure (.notePreferred false)
    else throw (.error "invalid note preferred frame content")
  | .peerGone => do
    ensure (content.length == publicKeyLength) "invalid peer gone frame length"
    let peer ← liftErr (keys.tryFrom (← range content 0 32))
    pure (.peerGone peer)
  | .ping => do
    ensure (content.length == 8) "invalid ping frame length"
    let data ← copyFromSlice 8 (← range content 0 8)
    pure (.ping data)
  | .pong => do
    ensure (content.length == 8) "invalid pong frame length"
    let data ← copyFromSlice 8 (← range content 0 8)
    pure (.pong data)
  | .health => pure (.health content)
  | .restarting => do
    ensure (content.length == 4 + 4) ("invalid restarting frame length: " ++ toString content.length)
    let reconnectIn := u32FromBeBytes (← tryIntoArray 4 (← range content 0 4))
    let tryFor := u32FromBeBytes (← tryIntoArray 4 (← rangeFrom content 4))
    pure (.restarting reconnectIn tryFor)
  | .unknown => throw (.error "invalid frame type: Unknown")

/-- `Frame::decode_from_ws_msg`. -/
def decodeFromWsMsg (vec : List UInt8) : Except (Fault String) (Frame K) :=
  match vec with
  | [] => .error (.error "error parsing relay::codec::Frame: too few bytes (0)")
  | byte :: rest => fromBytes keys (.fromU8 byte) rest

end Frame

section Codec

variable {K : Type} (keys : KeyBytes K)

/-- `DerpCodec::decode`: the frame at the front of the buffer and the rest, or no frame
and the buffer as it was while the frame is incomplete. -/
def decode (src : List UInt8) : Except (Fault String) (Option (Frame K) × List UInt8) :=
  if src.length < headerLen then .ok (none, src)
  else
    match src.head? with
    | none => .ok (none, src)
    | some typeByte =>
      -- `src.get(1..5)` is there: the buffer has five bytes
      let frameLen := beValue ((src.drop 1).take 4)
      if frameLen > maxFrameSize then
        .error (.error ("Frame of length " ++ toString frameLen ++ " is too large."))
      else if src.length < headerLen + frameLen then .ok (none, src)
      else do
        let frame ← Frame.fromBytes keys (.fromU8 typeByte) ((src.drop headerLen).take frameLen)
        pure (some frame, src.drop (headerLen + frameLen))

/-- `DerpCodec::encode`: the frame appended to the buffer, if its body fits
`MAX_FRAME_SIZE`. -/
def encode (frame : Frame K) (dst : List UInt8) : Except String (List UInt8) :=
  let frameLen := frame.len
  if frameLen > maxFrameSize then .error ("Frame of length " ++ toString frameLen ++ " is too large.")
  else .ok (dst ++ frame.typ.toU8 :: (u32ToBeBytes (UInt32.ofNat frameLen) ++ frame.writeTo keys))

/-- Frames encoded one after another into one buffer. -/
def encodeAll : List (Frame K) → List UInt8 → Except String (List UInt8)
  | [], dst => .ok dst
  | frame :: frames, dst => do
    let dst ← encode keys frame dst
    encodeAll frames dst

/-- `FramedRead` on a buffer: `decode` called until it yields no frame, at most `fuel`
times. -/
def decodeAll : Nat → List UInt8 → Except (Fault String) (List (Frame K) × List UInt8)
  | 0, src => .ok ([], src)
  | fuel + 1, src =>
    match decode keys src with
    | .ok (some frame, src) => (decodeAll fuel src).map fun r => (frame :: r.1, r.2)
    | .ok (none, src) => .ok ([], src)
    | .error e => .error e

end Codec


/-! ### Frame types and lengths -/

namespace FrameType

@[simp] theorem fromU8_toU8 (t : FrameType) : fromU8 t.toU8 = t := by
  cases t <;> rfl

/-- A byte that names a frame type is that type's byte. -/
theorem toU8_fromU8 {b : UInt8} (h : fromU8 b ≠ .unknown) : (fromU8 b).toU8 = b := by
  unfold fromU8 at h ⊢
  split <;> simp_all [toU8]

end FrameType

namespace Frame

variable {K : Type} (keys : KeyBytes K)

@[simp] theorem typ_ne_unknown (f : Frame K) : f.typ ≠ .unknown := by
  cases f <;> simp [typ]

/-- `Frame::len` is the length of what `write_to` writes. -/
theorem length_writeTo (f : Frame K) : (f.writeTo keys).length = f.len := by
  cases f <;> simp [writeTo, len, keys.length_toBytes, signatureByteSize]
  omega

theorem length_bytes (f : Frame K) : (f.bytes keys).length = headerLen + f.len := by
  simp [bytes, length_writeTo, headerLen]
  omega

/-! ### Reading a body back -/

theorem packetBody_of_split {content packet : List UInt8} {k : K} (lengthMessage : String)
    (hc : content = keys.toBytes k ++ packet) (h : packet.length ≤ maxPacketSize) :
    packetBody keys content lengthMessage = .ok (k, packet) := by
  have hkey := keys.length_toBytes k
  have hlen : content.length = publicKeyLength + packet.length := by simp [hc, hkey]
  have hlong : decide (content.length ≥ publicKeyLength) = true := by simp [hlen]
  have hfits : decide (content.length - publicKeyLength ≤ maxPacketSize) = true := by
    simp [hlen, h]
  have hkeyRange : (range content 0 publicKeyLength : Except (Fault String) _) = .ok (keys.toBytes k) :=
    range_of_split (p := []) (r := packet) (by simp [hc]) rfl (by simp [hkey])
  simp only [packetBody, ensure_of_true _ hlong, ensure_of_true _ hfits, ok_bind, hkeyRange,
    keys.tryFrom_toBytes, liftErr_ok, rangeFrom_of_split hc hkey]
  rfl

/-- A packet over `MAX_PACKET_SIZE` is refused with the size it has. -/
theorem packetBody_of_too_long {content packet : List UInt8} {k : K} (lengthMessage : String)
    (hc : content = keys.toBytes k ++ packet) (h : maxPacketSize < packet.length) :
    packetBody keys content lengthMessage = .error (.error ("data packet longer (" ++
      toString packet.length ++ ") than max of " ++ toString maxPacketSize)) := by
  have hkey := keys.length_toBytes k
  have hlen : content.length = publicKeyLength + packet.length := by simp [hc, hkey]
  have hlong : decide (content.length ≥ publicKeyLength) = true := by simp [hlen]
  have hpacket : content.length - publicKeyLength = packet.length := by omega
  have hlonger : decide (packet.length ≤ maxPacketSize) = false := decide_eq_false (by omega)
  simp only [packetBody, ensure_of_true _ hlong, ok_bind, hpacket, ensure_of_false _ hlonger, error_bind]

theorem fromBytes_clientInfo {content message : List UInt8} {k : K} {signature : Vector UInt8 64}
    (hc : content = magic ++ keys.toBytes k ++ signature.toList ++ message) :
    fromBytes keys .clientInfo content = .ok (.clientInfo k message signature) := by
  have hkey := keys.length_toBytes k
  have hlen : content.length = magic.length + publicKeyLength + signatureByteSize + message.length := by
    simp [hc, hkey, signatureByteSize]
    omega
  have hlong : decide (content.length ≥ publicKeyLength + signatureByteSize + magic.length) = true := by
    simp only [hlen, decide_eq_true_eq]
    omega
  have hmagic : (range content 0 magic.length : Except (Fault String) _) = .ok magic :=
    range_of_split (p := []) (r := keys.toBytes k ++ signature.toList ++ message) (by simp [hc]) rfl rfl
  have hkeyRange : (range content magic.length (magic.length + publicKeyLength) :
      Except (Fault String) _) = .ok (keys.toBytes k) :=
    range_of_split (p := magic) (r := signature.toList ++ message) (by simp [hc]) rfl (by simp [hkey])
  have hsig : (range content (magic.length + publicKeyLength)
      (magic.length + publicKeyLength + signatureByteSize) : Except (Fault String) _) =
      .ok signature.toList :=
    range_of_split (p := magic ++ keys.toBytes k) (r := message) (by simp [hc]) (by simp [hkey])
      (by simp [signatureByteSize])
  have hmessage : (rangeFrom content (magic.length + publicKeyLength + signatureByteSize) :
      Except (Fault String) _) = .ok message :=
    rangeFrom_of_split (p := magic ++ keys.toBytes k ++ signature.toList) (by simp [hc])
      (by simp [hkey, signatureByteSize]; omega)
  simp only [fromBytes, ensure_of_true _ hlong, ok_bind, hmagic, hkeyRange, keys.tryFrom_toBytes, liftErr_ok, hsig, signatureFromSlice, arrayOr_toList, hmessage]
  rfl

/-- Each frame whose packet fits reads back from its body. -/
theorem fromBytes_writeTo (f : Frame K) (h : f.packetFits = true) :
    fromBytes keys f.typ (f.writeTo keys) = .ok f := by
  cases f with
  | clientInfo k message signature => exact fromBytes_clientInfo keys rfl
  | sendPacket k packet =>
    have hbody := packetBody_of_split (k := k) keys "invalid send packet frame length: " rfl
      (by simpa [packetFits] using h)
    simp only [typ, writeTo, fromBytes, hbody, ok_bind]
    rfl
  | recvPacket k content =>
    have hbody := packetBody_of_split (k := k) keys "invalid recv packet frame length: " rfl
      (by simpa [packetFits] using h)
    simp only [typ, writeTo, fromBytes, hbody, ok_bind]
    rfl
  | keepAlive => rfl
  | notePreferred p => cases p <;> rfl
  | peerGone k =>
    have hkey := keys.length_toBytes k
    have hrange : (range (keys.toBytes k) 0 32 : Except (Fault String) _) = .ok (keys.toBytes k) :=
      range_of_split (p := []) (r := []) (by simp) rfl (by simpa [publicKeyLength] using hkey)
    have hlen : ((keys.toBytes k).length == publicKeyLength) = true := by simp [hkey]
    simp only [typ, writeTo, fromBytes, ensure_of_true _ hlen, ok_bind, hrange,
      keys.tryFrom_toBytes, liftErr_ok]
    rfl
  | ping data =>
    have hrange : (range data.toList 0 8 : Except (Fault String) _) = .ok data.toList :=
      range_of_split (p := []) (r := []) (by simp) rfl (by simp)
    have hlen : (data.toList.length == 8) = true := by simp
    simp only [typ, writeTo, fromBytes, ensure_of_true _ hlen, ok_bind, hrange, copyFromSlice,
      arrayOr_toList]
    rfl
  | pong data =>
    have hrange : (range data.toList 0 8 : Except (Fault String) _) = .ok data.toList :=
      range_of_split (p := []) (r := []) (by simp) rfl (by simp)
    have hlen : (data.toList.length == 8) = true := by simp
    simp only [typ, writeTo, fromBytes, ensure_of_true _ hlen, ok_bind, hrange, copyFromSlice,
      arrayOr_toList]
    rfl
  | health problem => rfl
  | restarting reconnectIn tryFor =>
    have hfirst : (range (u32ToBeBytes reconnectIn ++ u32ToBeBytes tryFor) 0 4 :
        Except (Fault String) _) = .ok (u32ToBeBytes reconnectIn) :=
      range_of_split (p := []) (r := u32ToBeBytes tryFor) (by simp) rfl (by simp)
    have hsecond : (rangeFrom (u32ToBeBytes reconnectIn ++ u32ToBeBytes tryFor) 4 :
        Except (Fault String) _) = .ok (u32ToBeBytes tryFor) :=
      rangeFrom_of_split rfl (by simp)
    have hlen : ((u32ToBeBytes reconnectIn ++ u32ToBeBytes tryFor).length == 4 + 4) = true := by simp
    simp only [typ, writeTo, fromBytes, ensure_of_true _ hlen, ok_bind, hfirst, hsecond,
      tryIntoArray, arrayOr_of_length (length_u32ToBeBytes _), u32FromBeBytes_u32ToBeBytes]
    rfl

/-! ### What a body read back is -/

@[simp] theorem length_magic : magic.length = 9 := rfl

/-- A range inside the buffer, as the slice of it that it is. -/
theorem range_eq {content : List UInt8} {a b : Nat} (hab : a ≤ b) (hb : b ≤ content.length) :
    (range content a b : Except (Fault String) _) = .ok ((content.drop a).take (b - a)) :=
  range_of_le hab hb

theorem packetBody_eq_ok {content packet : List UInt8} {k : K} {lengthMessage : String}
    (h : packetBody keys content lengthMessage = .ok (k, packet)) : keys.toBytes k ++ packet = content := by
  simp only [packetBody, ensure_bind_eq_ok] at h
  obtain ⟨hlong, -, h⟩ := h
  have hlen : publicKeyLength ≤ content.length := by simpa using hlong
  rw [range_eq (Nat.zero_le _) hlen, ok_bind] at h
  obtain ⟨key, hkey, h⟩ := Machine.except_bind_eq_ok.mp h
  rw [rangeFrom_of_le hlen, ok_bind] at h
  cases h
  rw [keys.toBytes_of_tryFrom _ _ (liftErr_eq_ok.mp hkey)]
  simp

theorem writeTo_of_fromBytes_clientInfo {content : List UInt8} {g : Frame K}
    (h : fromBytes keys .clientInfo content = .ok g) : g.typ = .clientInfo ∧ g.writeTo keys = content := by
  simp only [fromBytes, ensure_bind_eq_ok] at h
  obtain ⟨hlong, h⟩ := h
  have hlen : 105 ≤ content.length := by
    simpa [publicKeyLength, signatureByteSize] using hlong
  rw [range_eq (Nat.zero_le _) (by simp; omega), ok_bind, ensure_bind_eq_ok] at h
  obtain ⟨hmagic, h⟩ := h
  rw [range_eq (by simp) (by simp [publicKeyLength]; omega), ok_bind] at h
  obtain ⟨k, hk, h⟩ := Machine.except_bind_eq_ok.mp h
  rw [range_eq (by simp) (by simp [publicKeyLength, signatureByteSize]; omega), ok_bind] at h
  obtain ⟨signature, hsig, h⟩ := Machine.except_bind_eq_ok.mp h
  rw [rangeFrom_of_le (by simp [publicKeyLength, signatureByteSize]; omega), ok_bind] at h
  cases h
  have hmagic' : content.take 9 = magic := by simpa using hmagic
  have hkey : keys.toBytes k = (content.drop 9).take 32 := by
    simpa [publicKeyLength] using keys.toBytes_of_tryFrom _ _ (liftErr_eq_ok.mp hk)
  have hsig' : signature.toList = (content.drop 41).take 64 := by
    simpa [publicKeyLength, signatureByteSize] using arrayOr_eq_ok.mp hsig
  refine ⟨rfl, ?_⟩
  simp only [writeTo, hkey, hsig', length_magic, publicKeyLength, signatureByteSize, List.append_assoc,
    take_drop_append_drop content (show 41 + 64 = 105 by rfl),
    take_drop_append_drop content (show 9 + 32 = 41 by rfl)]
  rw [← hmagic', List.take_append_drop]

/-- What `from_bytes` accepts is the body of the frame it returns, of the type it was
asked for. -/
theorem writeTo_of_fromBytes {t : FrameType} {content : List UInt8} {g : Frame K}
    (h : fromBytes keys t content = .ok g) : g.typ = t ∧ g.writeTo keys = content := by
  cases t with
  | clientInfo => exact writeTo_of_fromBytes_clientInfo keys h
  | sendPacket =>
    obtain ⟨⟨k, packet⟩, hbody, h⟩ := Machine.except_bind_eq_ok.mp h
    cases h
    exact ⟨rfl, packetBody_eq_ok keys hbody⟩
  | recvPacket =>
    obtain ⟨⟨k, packet⟩, hbody, h⟩ := Machine.except_bind_eq_ok.mp h
    cases h
    exact ⟨rfl, packetBody_eq_ok keys hbody⟩
  | keepAlive =>
    obtain ⟨hempty, h⟩ := ensure_bind_eq_ok.mp h
    cases h
    exact ⟨rfl, (List.isEmpty_iff.mp hempty).symm⟩
  | notePreferred =>
    obtain ⟨hlen, h⟩ := ensure_bind_eq_ok.mp h
    obtain ⟨byte, rfl⟩ := List.length_eq_one_iff.mp (by simpa using hlen)
    rw [index_of_lt (by simp), ok_bind] at h
    simp only [List.getElem_cons_zero] at h
    split at h
    · cases h
      exact ⟨rfl, by simp_all [writeTo]⟩
    · split at h
      · cases h
        exact ⟨rfl, by simp_all [writeTo]⟩
      · cases h
  | peerGone =>
    obtain ⟨hlen, h⟩ := ensure_bind_eq_ok.mp h
    have hlen : content.length = 32 := by simpa [publicKeyLength] using hlen
    rw [range_eq (Nat.zero_le _) hlen.ge, ok_bind] at h
    obtain ⟨k, hk, h⟩ := Machine.except_bind_eq_ok.mp h
    cases h
    refine ⟨rfl, ?_⟩
    simpa [writeTo, ← hlen] using keys.toBytes_of_tryFrom _ _ (liftErr_eq_ok.mp hk)
  | ping =>
    obtain ⟨hlen, h⟩ := ensure_bind_eq_ok.mp h
    have hlen : content.length = 8 := by simpa using hlen
    rw [range_eq (Nat.zero_le _) hlen.ge, ok_bind] at h
    obtain ⟨data, hdata, h⟩ := Machine.except_bind_eq_ok.mp h
    cases h
    exact ⟨rfl, by simpa [writeTo, ← hlen] using arrayOr_eq_ok.mp hdata⟩
  | pong =>
    obtain ⟨hlen, h⟩ := ensure_bind_eq_ok.mp h
    have hlen : content.length = 8 := by simpa using hlen
    rw [range_eq (Nat.zero_le _) hlen.ge, ok_bind] at h
    obtain ⟨data, hdata, h⟩ := Machine.except_bind_eq_ok.mp h
    cases h
    exact ⟨rfl, by simpa [writeTo, ← hlen] using arrayOr_eq_ok.mp hdata⟩
  | health =>
    cases h
    exact ⟨rfl, rfl⟩
  | restarting =>
    obtain ⟨hlen, h⟩ := ensure_bind_eq_ok.mp h
    have hlen : content.length = 8 := by simpa using hlen
    rw [range_eq (Nat.zero_le _) (by omega), ok_bind] at h
    obtain ⟨first, hfirst, h⟩ := Machine.except_bind_eq_ok.mp h
    rw [rangeFrom_of_le (by omega), ok_bind] at h
    obtain ⟨second, hsecond, h⟩ := Machine.except_bind_eq_ok.mp h
    cases h
    refine ⟨rfl, ?_⟩
    simp only [writeTo, u32ToBeBytes_u32FromBeBytes, arrayOr_eq_ok.mp hfirst, arrayOr_eq_ok.mp hsecond]
    simp
  | unknown => cases h

/-- A packet frame over `MAX_PACKET_SIZE` is refused when read back from its body. -/
theorem fromBytes_writeTo_of_too_long (f : Frame K) (h : f.packetFits = false) :
    fromBytes keys f.typ (f.writeTo keys) = .error (.error ("data packet longer (" ++
      toString (f.len - publicKeyLength) ++ ") than max of " ++ toString maxPacketSize)) := by
  cases f with
  | sendPacket k packet =>
    have hbody := packetBody_of_too_long (k := k) keys "invalid send packet frame length: " rfl
      (by simpa [packetFits] using h)
    simp only [typ, writeTo, fromBytes, hbody, error_bind, len, Nat.add_sub_cancel_left]
  | recvPacket k content =>
    have hbody := packetBody_of_too_long (k := k) keys "invalid recv packet frame length: " rfl
      (by simpa [packetFits] using h)
    simp only [typ, writeTo, fromBytes, hbody, error_bind, len, Nat.add_sub_cancel_left]
  | _ => simp [packetFits] at h

/-! ### `from_bytes` never panics

Each slice it takes lies within the bounds the length check before it has established. -/

theorem not_panics_packetBody (content : List UInt8) (lengthMessage : String) :
    ¬ Panics (packetBody keys content lengthMessage) := by
  simp only [packetBody, panics_ensure_bind_iff]
  rintro ⟨hlong, -, h⟩
  have hlen : publicKeyLength ≤ content.length := by simpa using hlong
  rw [range_eq (Nat.zero_le _) hlen, ok_bind, panics_bind_iff] at h
  rcases h with h | ⟨key, -, h⟩
  · exact not_panics_liftErr _ h
  · rw [rangeFrom_of_le hlen, ok_bind] at h
    exact not_panics_pure _ h

theorem not_panics_fromBytes_clientInfo (content : List UInt8) :
    ¬ Panics (fromBytes keys .clientInfo content : Except (Fault String) (Frame K)) := by
  simp only [fromBytes, panics_ensure_bind_iff]
  rintro ⟨hlong, h⟩
  have hlen : 105 ≤ content.length := by
    simpa [publicKeyLength, signatureByteSize] using hlong
  rw [range_eq (Nat.zero_le _) (by simp; omega), ok_bind, panics_ensure_bind_iff] at h
  obtain ⟨-, h⟩ := h
  rw [range_eq (by simp) (by simp [publicKeyLength]; omega), ok_bind, panics_bind_iff] at h
  rcases h with h | ⟨k, -, h⟩
  · exact not_panics_liftErr _ h
  rw [range_eq (by simp) (by simp [publicKeyLength, signatureByteSize]; omega), ok_bind,
    panics_bind_iff] at h
  rcases h with h | ⟨signature, -, h⟩
  · exact not_panics_arrayOr_error _ _ h
  rw [rangeFrom_of_le (by simp [publicKeyLength, signatureByteSize]; omega), ok_bind] at h
  exact not_panics_pure _ h

/-- A fixed-size body cut from a buffer of that size, as a ping's or pong's is. -/
theorem not_panics_copy {content : List UInt8} {n : Nat} (h : content.length = n) :
    ¬ Panics ((range content 0 n : Except (Fault String) _) >>= copyFromSlice n) := by
  rw [range_eq (Nat.zero_le _) h.ge, ok_bind]
  exact not_panics_arrayOr (by simp [h])

theorem not_panics_fromBytes (t : FrameType) (content : List UInt8) :
    ¬ Panics (fromBytes keys t content : Except (Fault String) (Frame K)) := by
  cases t with
  | clientInfo => exact not_panics_fromBytes_clientInfo keys content
  | sendPacket =>
    rw [fromBytes, panics_bind_iff]
    rintro (h | ⟨_, -, h⟩)
    · exact not_panics_packetBody keys content _ h
    · exact not_panics_pure _ h
  | recvPacket =>
    rw [fromBytes, panics_bind_iff]
    rintro (h | ⟨_, -, h⟩)
    · exact not_panics_packetBody keys content _ h
    · exact not_panics_pure _ h
  | keepAlive => simp [fromBytes]
  | notePreferred =>
    simp only [fromBytes, panics_ensure_bind_iff]
    rintro ⟨hlen, h⟩
    rw [index_of_lt (by simp at hlen; omega), ok_bind] at h
    split at h
    · exact not_panics_pure _ h
    · split at h
      · exact not_panics_pure _ h
      · exact not_panics_error _ h
  | peerGone =>
    simp only [fromBytes, panics_ensure_bind_iff]
    rintro ⟨hlen, h⟩
    rw [range_eq (Nat.zero_le _) (by simp [publicKeyLength] at hlen; omega), ok_bind,
      panics_bind_iff] at h
    rcases h with h | ⟨_, -, h⟩
    · exact not_panics_liftErr _ h
    · exact not_panics_pure _ h
  | ping =>
    simp only [fromBytes, panics_ensure_bind_iff]
    rintro ⟨hlen, h⟩
    rw [← bind_assoc, panics_bind_iff] at h
    rcases h with h | ⟨_, -, h⟩
    · exact not_panics_copy (by simpa using hlen) h
    · exact not_panics_pure _ h
  | pong =>
    simp only [fromBytes, panics_ensure_bind_iff]
    rintro ⟨hlen, h⟩
    rw [← bind_assoc, panics_bind_iff] at h
    rcases h with h | ⟨_, -, h⟩
    · exact not_panics_copy (by simpa using hlen) h
    · exact not_panics_pure _ h
  | health => simp [fromBytes]
  | restarting =>
    simp only [fromBytes, panics_ensure_bind_iff]
    rintro ⟨hlen, h⟩
    have hlen : content.length = 8 := by simpa using hlen
    rw [range_eq (Nat.zero_le _) (by omega), ok_bind, panics_bind_iff] at h
    rcases h with h | ⟨_, -, h⟩
    · exact not_panics_arrayOr_error _ _ h
    rw [rangeFrom_of_le (by omega), ok_bind, panics_bind_iff] at h
    rcases h with h | ⟨_, -, h⟩
    · exact not_panics_arrayOr_error _ _ h
    · exact not_panics_pure _ h
  | unknown => simp [fromBytes]

end Frame

/-! ### The codec on a buffer -/

section CodecRuns

variable {K : Type} (keys : KeyBytes K)

theorem decode_of_short {src : List UInt8} (h : src.length < headerLen) :
    decode keys src = .ok (none, src) := by
  simp [decode, h]

/-- The decoder on a buffer that starts with a type byte, a length of at most
`MAX_FRAME_SIZE` and a body of that length: it reads the body for that type and leaves
what follows. -/
theorem decode_cons_append (typeByte : UInt8) {header body rest : List UInt8}
    (hheader : header.length = 4) (hbody : body.length = beValue header)
    (hmax : beValue header ≤ maxFrameSize) :
    decode keys (typeByte :: (header ++ (body ++ rest))) =
      (Frame.fromBytes keys (.fromU8 typeByte) body).map fun g => (some g, rest) := by
  have hshort : ¬ (typeByte :: (header ++ (body ++ rest))).length < headerLen := by
    simp [hheader, headerLen]
  have hincomplete : ¬ (typeByte :: (header ++ (body ++ rest))).length < headerLen + beValue header := by
    simp [hheader, hbody, headerLen]
    omega
  have hframeLen : ((typeByte :: (header ++ (body ++ rest))).drop 1).take 4 = header := by
    simp [List.take_left' hheader]
  have hcontent : ((typeByte :: (header ++ (body ++ rest))).drop headerLen).take (beValue header) = body := by
    simp [headerLen, List.drop_left' hheader, List.take_left' hbody]
  have hrest : (typeByte :: (header ++ (body ++ rest))).drop (headerLen + beValue header) = rest := by
    simp [headerLen, ← List.drop_drop, List.drop_left' hheader, List.drop_left' hbody]
  simp only [decode, if_neg hshort, List.head?_cons, hframeLen, gt_iff_lt, if_neg (Nat.not_lt.mpr hmax),
    if_neg hincomplete, hcontent, hrest]
  cases Frame.fromBytes keys (.fromU8 typeByte) body <;> rfl

/-- The decoder on a buffer that holds a header and less than the body: no frame yet. -/
theorem decode_cons_of_incomplete (typeByte : UInt8) {header tail : List UInt8}
    (hheader : header.length = 4) (hmax : beValue header ≤ maxFrameSize)
    (htail : tail.length < beValue header) :
    decode keys (typeByte :: (header ++ tail)) = .ok (none, typeByte :: (header ++ tail)) := by
  have hshort : ¬ (typeByte :: (header ++ tail)).length < headerLen := by
    simp [hheader, headerLen]
  have hincomplete : (typeByte :: (header ++ tail)).length < headerLen + beValue header := by
    simp [hheader, headerLen]
    omega
  have hframeLen : ((typeByte :: (header ++ tail)).drop 1).take 4 = header := by
    simp [List.take_left' hheader]
  simp only [decode, if_neg hshort, List.head?_cons, hframeLen, gt_iff_lt, if_neg (Nat.not_lt.mpr hmax),
    if_pos hincomplete]

theorem beValue_length (f : Frame K) (h : f.len ≤ maxFrameSize) :
    beValue (u32ToBeBytes (UInt32.ofNat f.len)) = f.len := by
  have hlt : f.len < 4294967296 := by
    unfold maxFrameSize at h
    omega
  simp [u32ToBeBytes, beValue_beBytes, hlt]

/-- The decoder on an encoded frame reads its body back and leaves what follows. -/
theorem decode_bytes_append (f : Frame K) (rest : List UInt8) (h : f.len ≤ maxFrameSize) :
    decode keys (f.bytes keys ++ rest) =
      (Frame.fromBytes keys f.typ (f.writeTo keys)).map fun g => (some g, rest) := by
  have hlen := beValue_length f h
  rw [Frame.bytes, List.cons_append, List.append_assoc,
    decode_cons_append keys _ (length_u32ToBeBytes _) (by rw [hlen, Frame.length_writeTo]) (by rw [hlen]; exact h),
    FrameType.fromU8_toU8]

/-- An encoded frame whose packet fits decodes to itself, consuming its encoding. -/
theorem decode_bytes_of_packetFits (f : Frame K) (rest : List UInt8) (h : f.len ≤ maxFrameSize)
    (hfits : f.packetFits = true) : decode keys (f.bytes keys ++ rest) = .ok (some f, rest) := by
  rw [decode_bytes_append keys f rest h, Frame.fromBytes_writeTo keys f hfits]
  rfl

/-- An encoded frame whose packet is over `MAX_PACKET_SIZE` is refused. -/
theorem decode_bytes_of_too_long (f : Frame K) (rest : List UInt8) (h : f.len ≤ maxFrameSize)
    (hfits : f.packetFits = false) :
    decode keys (f.bytes keys ++ rest) = .error (.error ("data packet longer (" ++
      toString (f.len - publicKeyLength) ++ ") than max of " ++ toString maxPacketSize)) := by
  rw [decode_bytes_append keys f rest h, Frame.fromBytes_writeTo_of_too_long keys f hfits]
  rfl

/-- A strict prefix of an encoded frame is not a frame yet, and nothing of it is consumed. -/
theorem decode_of_partial_frame (f : Frame K) {p : List UInt8} (h : f.len ≤ maxFrameSize)
    (hp : p <+: f.bytes keys) (hlt : p.length < (f.bytes keys).length) :
    decode keys p = .ok (none, p) := by
  by_cases hshort : p.length < headerLen
  · exact decode_of_short keys hshort
  have hlenBytes := Frame.length_bytes keys f
  have hp' : p = (f.bytes keys).take p.length := List.prefix_iff_eq_take.mp hp
  have hsplit : p = f.typ.toU8 :: (u32ToBeBytes (UInt32.ofNat f.len) ++
      (f.writeTo keys).take (p.length - headerLen)) := by
    obtain ⟨m, hm⟩ : ∃ m, p.length = m + 4 + 1 := ⟨p.length - 5, by simp [headerLen] at hshort; omega⟩
    conv_lhs => rw [hp']
    rw [hm, Frame.bytes, List.take_succ_cons, List.take_append, length_u32ToBeBytes,
      List.take_of_length_le (by simp)]
    simp [headerLen]
  have hplen : p.length < headerLen + f.len := hlenBytes ▸ hlt
  rw [hsplit]
  apply decode_cons_of_incomplete keys _ (length_u32ToBeBytes _) (by rw [beValue_length f h]; exact h)
  rw [beValue_length f h, List.length_take, Frame.length_writeTo]
  simp only [headerLen] at hshort hplen ⊢
  omega

/-- What the decoder yields is the frame whose encoding it consumed, and that frame
`encode` accepts. -/
theorem decode_eq_some {src rest : List UInt8} {g : Frame K} (h : decode keys src = .ok (some g, rest)) :
    ∃ consumed, src = consumed ++ rest ∧ g.bytes keys = consumed ∧ g.len ≤ maxFrameSize := by
  unfold decode at h
  split at h
  · cases h
  rename_i hshort
  obtain ⟨typeByte, tail, rfl⟩ : ∃ typeByte tail, src = typeByte :: tail := by
    cases src with
    | nil => simp [headerLen] at hshort
    | cons typeByte tail => exact ⟨typeByte, tail, rfl⟩
  simp only [List.head?_cons, List.drop_succ_cons, List.drop_zero] at h
  split at h
  · cases h
  rename_i hmax
  split at h
  · cases h
  rename_i hcomplete
  obtain ⟨g', hg, h⟩ := Machine.except_bind_eq_ok.mp h
  cases h
  set n := beValue (tail.take 4) with hn
  have hdrop : (typeByte :: tail).drop headerLen = tail.drop 4 := rfl
  have hdropRest : (typeByte :: tail).drop (headerLen + n) = tail.drop (4 + n) := by
    rw [show headerLen + n = 4 + n + 1 by simp [headerLen]; omega]
    rfl
  rw [hdrop] at hg
  rw [hdropRest]
  have hheader : (tail.take 4).length = 4 := by
    simp [headerLen] at hshort
    simp
    omega
  obtain ⟨htyp, hbody⟩ := Frame.writeTo_of_fromBytes keys hg
  have hlen : g.len = n := by
    rw [← Frame.length_writeTo keys, hbody]
    simp [headerLen] at hcomplete ⊢
    omega
  refine ⟨typeByte :: (tail.take 4 ++ (tail.drop 4).take n), ?_, ?_, ?_⟩
  · rw [List.cons_append, List.append_assoc, take_drop_append_drop tail rfl, List.take_append_drop]
  · rw [Frame.bytes, hlen, hn, u32ToBeBytes_ofNat_beValue hheader, hbody, htyp,
      FrameType.toU8_fromU8 (htyp ▸ Frame.typ_ne_unknown g)]
  · rw [hlen]
    exact Nat.not_lt.mp hmax

/-- The decoder never panics. -/
theorem not_panics_decode (src : List UInt8) : ¬ Panics (decode keys src : Except (Fault String) _) := by
  unfold decode
  split
  · exact not_panics_ok _
  split
  · exact not_panics_ok _
  dsimp only
  split
  · exact not_panics_error _
  split
  · exact not_panics_ok _
  rw [panics_bind_iff]
  rintro (h | ⟨g, -, h⟩)
  · exact Frame.not_panics_fromBytes keys _ _ h
  · exact not_panics_pure _ h

theorem encode_of_le (f : Frame K) (dst : List UInt8) (h : f.len ≤ maxFrameSize) :
    encode keys f dst = .ok (dst ++ f.bytes keys) := by
  simp [encode, Nat.not_lt.mpr h, Frame.bytes]

/-- `encode` accepts exactly the frames up to `MAX_FRAME_SIZE`. -/
theorem encode_eq_ok_iff (f : Frame K) (dst : List UInt8) :
    (∃ buf, encode keys f dst = .ok buf) ↔ f.len ≤ maxFrameSize := by
  constructor
  · rintro ⟨buf, h⟩
    by_contra hlong
    simp [encode, Nat.lt_of_not_le hlong] at h
  · intro h
    exact ⟨_, encode_of_le keys f dst h⟩

/-- Frames encoded one after another are their encodings one after another. -/
theorem encodeAll_eq (frames : List (Frame K)) (dst : List UInt8)
    (h : ∀ f ∈ frames, f.len ≤ maxFrameSize) :
    encodeAll keys frames dst = .ok (dst ++ frames.flatMap (Frame.bytes keys)) := by
  induction frames generalizing dst with
  | nil => simp [encodeAll]
  | cons f frames ih =>
    rw [encodeAll, encode_of_le keys f dst (h f List.mem_cons_self)]
    show encodeAll keys frames (dst ++ f.bytes keys) = _
    rw [ih _ fun g hg => h g (List.mem_cons_of_mem f hg)]
    simp

/-- Encoded frames whose packets fit decode back in order, and then there is no frame. -/
theorem decodeAll_flatMap_bytes (frames : List (Frame K))
    (h : ∀ f ∈ frames, f.len ≤ maxFrameSize ∧ f.packetFits = true) (fuel : Nat) (hfuel : frames.length < fuel) :
    decodeAll keys fuel (frames.flatMap (Frame.bytes keys)) = .ok (frames, []) := by
  induction frames generalizing fuel with
  | nil =>
    obtain ⟨fuel, rfl⟩ : ∃ n, fuel = n + 1 := ⟨fuel - 1, by simp at hfuel; omega⟩
    simp [decodeAll, decode_of_short keys (show [].length < headerLen by simp [headerLen])]
  | cons f frames ih =>
    obtain ⟨fuel, rfl⟩ : ∃ n, fuel = n + 1 := ⟨fuel - 1, by simp at hfuel; omega⟩
    obtain ⟨hlen, hfits⟩ := h f List.mem_cons_self
    rw [List.flatMap_cons, decodeAll, decode_bytes_of_packetFits keys f _ hlen hfits]
    simp only
    rw [ih (fun g hg => h g (List.mem_cons_of_mem f hg)) fuel (by simpa using hfuel)]
    rfl

/-- A websocket message carries the frame's type byte and body, and reads back to it. -/
theorem decodeFromWsMsg_encodeForWsMsg (f : Frame K) (h : f.packetFits = true) :
    Frame.decodeFromWsMsg keys (f.encodeForWsMsg keys) = .ok f := by
  simp only [Frame.encodeForWsMsg, Frame.decodeFromWsMsg, FrameType.fromU8_toU8]
  exact Frame.fromBytes_writeTo keys f h

/-- The decoder accepts an encoded frame exactly when its packet fits. -/
theorem decode_bytes_eq_ok_iff (f : Frame K) (rest : List UInt8) (h : f.len ≤ maxFrameSize) :
    (∃ r, decode keys (f.bytes keys ++ rest) = .ok r) ↔ f.packetFits = true := by
  constructor
  · rintro ⟨r, hr⟩
    by_contra hfits
    rw [decode_bytes_of_too_long keys f rest h (by simpa using hfits)] at hr
    cases hr
  · intro hfits
    exact ⟨_, decode_bytes_of_packetFits keys f rest h hfits⟩

/-- What the decoder consumed for a frame is what `encode` writes for it. -/
theorem encode_of_decode {src rest : List UInt8} {g : Frame K}
    (h : decode keys src = .ok (some g, rest)) :
    ∃ consumed, src = consumed ++ rest ∧ encode keys g [] = .ok consumed := by
  obtain ⟨consumed, hsrc, hbytes, hlen⟩ := decode_eq_some keys h
  refine ⟨consumed, hsrc, ?_⟩
  rw [encode_of_le keys g [] hlen, hbytes, List.nil_append]

end CodecRuns

/-! ### The round trip -/

section RoundTrip

variable {K : Type} (keys : KeyBytes K)

/-- The relay codec on frames up to `MAX_FRAME_SIZE` whose packets fit `MAX_PACKET_SIZE`:
frames encoded into one buffer decode back in order, each consuming its `5 + len` bytes,
and then there is no frame; a strict prefix is no frame and is not consumed; a websocket
message reads back to its frame. The decoder never panics, and what it yields is the
frame whose encoding it consumed. `encode` accepts exactly the frames up to
`MAX_FRAME_SIZE`, of which the decoder accepts exactly those whose packets fit. -/
theorem relay_codec_round_trip :
    (∀ frames : List (Frame K), (∀ f ∈ frames, f.len ≤ maxFrameSize ∧ f.packetFits = true) →
      encodeAll keys frames [] = .ok (frames.flatMap (Frame.bytes keys)) ∧
        decodeAll keys (frames.length + 1) (frames.flatMap (Frame.bytes keys)) = .ok (frames, [])) ∧
    (∀ (f : Frame K) (rest : List UInt8), f.len ≤ maxFrameSize → f.packetFits = true →
      decode keys (f.bytes keys ++ rest) = .ok (some f, rest) ∧
        (f.bytes keys).length = headerLen + f.len) ∧
    decode keys [] = .ok (none, []) ∧
    (∀ (f : Frame K) (p : List UInt8), f.len ≤ maxFrameSize → p <+: f.bytes keys →
      p.length < (f.bytes keys).length → decode keys p = .ok (none, p)) ∧
    (∀ f : Frame K, f.packetFits = true → Frame.decodeFromWsMsg keys (f.encodeForWsMsg keys) = .ok f) ∧
    (∀ src, ¬ Panics (decode keys src)) ∧
    (∀ (src rest : List UInt8) (g : Frame K), decode keys src = .ok (some g, rest) →
      ∃ consumed, src = consumed ++ rest ∧ encode keys g [] = .ok consumed) ∧
    (∀ (f : Frame K) (dst : List UInt8), (∃ buf, encode keys f dst = .ok buf) ↔ f.len ≤ maxFrameSize) ∧
    (∀ (f : Frame K) (rest : List UInt8), f.len ≤ maxFrameSize →
      ((∃ r, decode keys (f.bytes keys ++ rest) = .ok r) ↔ f.packetFits = true)) := by
  refine ⟨fun frames h => ⟨?_, ?_⟩, fun f rest h hfits => ⟨?_, ?_⟩, ?_, fun f p h hp hlt => ?_,
    fun f h => ?_, not_panics_decode keys, fun src rest g h => encode_of_decode keys h,
    encode_eq_ok_iff keys, decode_bytes_eq_ok_iff keys⟩
  · simpa using encodeAll_eq keys frames [] fun f hf => (h f hf).1
  · exact decodeAll_flatMap_bytes keys frames h _ (Nat.lt_succ_self _)
  · exact decode_bytes_of_packetFits keys f rest h hfits
  · exact Frame.length_bytes keys f
  · exact decode_of_short keys (by simp [headerLen])
  · exact decode_of_partial_frame keys f h hp hlt
  · exact decodeFromWsMsg_encodeForWsMsg keys f h

/-- A send packet one byte over `MAX_PACKET_SIZE`, whatever its key: `encode` writes it,
and `decode` refuses what it wrote. -/
theorem oversized_packet_encoded_not_decoded (k : K) :
    let f : Frame K := .sendPacket k (List.replicate 65537 0)
    encode keys f [] = .ok (f.bytes keys) ∧
      decode keys (f.bytes keys) = .error (.error "data packet longer (65537) than max of 65536") := by
  intro f
  -- through the equations of `len` and `packetFits`: evaluating the packet's length in the
  -- kernel would build all its bytes
  have hlen : f.len = publicKeyLength + 65537 := by
    rw [show f.len = publicKeyLength + (List.replicate 65537 (0 : UInt8)).length from Frame.len.eq_2 _ _,
      List.length_replicate]
  have hmax : f.len ≤ maxFrameSize := by
    rw [hlen]
    decide
  have hfits : f.packetFits = false := by
    rw [show f.packetFits = decide ((List.replicate 65537 (0 : UInt8)).length ≤ maxPacketSize) from
      Frame.packetFits.eq_1 _ _, List.length_replicate]
    decide
  refine ⟨by rw [encode_of_le keys f [] hmax, List.nil_append], ?_⟩
  rw [← List.append_nil (f.bytes keys), decode_bytes_of_too_long keys f [] hmax hfits, hlen]
  rfl

theorem oversized_send_packet_rejected :
    let f : Frame { bytes : List UInt8 // bytes.length = publicKeyLength } :=
      .sendPacket ⟨List.replicate 32 0, rfl⟩ (List.replicate 65537 0)
    encode KeyBytes.raw f [] = .ok (f.bytes KeyBytes.raw) ∧
      decode KeyBytes.raw (f.bytes KeyBytes.raw) =
        .error (.error "data packet longer (65537) than max of 65536") :=
  oversized_packet_encoded_not_decoded KeyBytes.raw _

end RoundTrip

end Iroh.Net.Relay
