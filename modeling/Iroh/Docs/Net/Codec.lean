import Iroh.Docs.Engine
import Iroh.Docs.Entry
import Iroh.Lib.Postcard

/-! The framing of the docs sync protocol (`net/codec.rs`): `SyncCodec`.

A frame is the body's length as a big-endian `u32`, then the body, the postcard
serialization of a `Message`. `decode` takes a frame from the front of its buffer
and leaves the rest (`decode_frame`), and while the frame is incomplete leaves the
buffer as it is (`decode_of_prefix`). `encode` appends the length to the buffer but
writes the body from the buffer's fifth byte on, so it appends a frame exactly when
the buffer is empty (`encode_eq_append_iff`).

The framed writer flushes after each message it sends, so the stream it writes is
its frames one after another, and the reader takes the messages back in order
(`decodeFrames_sendAll`). Two messages encoded into one buffer before a flush
overwrite each other: the second body lands on the first
(`encode_twice_keeps_second`).

How postcard writes the protocol messages inside `Init` and `Sync` is left a
parameter. -/

namespace Iroh.Docs.Net

open Ranger Engine

/-- `ProtocolMessage`. -/
abbrev ProtocolMessage := Ranger.Message SignedEntry RecordIdentifier

/-- `Message`. -/
inductive Message where
  | init (ns : NamespaceId) (message : ProtocolMessage)
  | sync (message : ProtocolMessage)
  | abort (reason : AbortReason)

/-! ### Postcard -/

/-- The variant index postcard writes for an `AbortReason`. -/
def abortReasonIndex : AbortReason → Nat
  | .notFound => 0
  | .alreadySyncing => 1
  | .internalServerError => 2

/-- The `AbortReason` of a variant index. -/
def abortReasonOfIndex : Nat → Option AbortReason
  | 0 => some .notFound
  | 1 => some .alreadySyncing
  | 2 => some .internalServerError
  | _ => none

/-- `Message` as postcard writes it, given how it writes protocol messages: the
variant's index, then the fields. -/
def Message.serialize (serializeProtocol : ProtocolMessage → List UInt8) : Message → List UInt8
  | .init ns message => Postcard.varintU32 0 ++ Slice.beBytes 32 ns.val ++ serializeProtocol message
  | .sync message => Postcard.varintU32 1 ++ serializeProtocol message
  | .abort reason => Postcard.varintU32 2 ++ Postcard.varintU32 (abortReasonIndex reason)

/-- `Message` as postcard reads it, given how it reads protocol messages. -/
def Message.take (takeProtocol : List UInt8 → Option (ProtocolMessage × List UInt8))
    (bytes : List UInt8) : Option (Message × List UInt8) := do
  let (variant, bytes) ← Postcard.takeVarintU32 bytes
  match variant with
  | 0 =>
    let (ns, bytes) ← Postcard.takeArray 32 bytes
    let (message, bytes) ← takeProtocol bytes
    pure (.init (Fin.ofNat _ (Slice.beValue ns)) message, bytes)
  | 1 =>
    let (message, bytes) ← takeProtocol bytes
    pure (.sync message, bytes)
  | 2 =>
    let (index, bytes) ← Postcard.takeVarintU32 bytes
    let reason ← abortReasonOfIndex index
    pure (.abort reason, bytes)
  | _ => none

/-- `postcard::from_bytes::<Message>`: what follows the message is ignored. -/
def Message.deserialize (takeProtocol : List UInt8 → Option (ProtocolMessage × List UInt8))
    (bytes : List UInt8) : Option Message :=
  (Message.take takeProtocol bytes).map Prod.fst

/-! ### The codec -/

/-- `MAX_MESSAGE_SIZE`. -/
def MAX_MESSAGE_SIZE : Nat := 1024 * 1024 * 1024

/-- The errors of `SyncCodec`. -/
inductive CodecError where
  /-- an `ensure!` on a length failed, with its text -/
  | tooLarge (message : String)
  /-- `postcard::from_bytes` failed -/
  | postcard
deriving DecidableEq, Repr

section Codec
variable {α : Type} (serialize : α → List UInt8) (deserialize : List UInt8 → Option α)

/-- A frame: the body's length, then the body. -/
def frame (item : α) : List UInt8 :=
  Slice.u32ToBeBytes (UInt32.ofNat (serialize item).length) ++ serialize item

/-- `SyncCodec::encode`: the length appended with `put_u32`, the buffer grown with
zeros to four bytes past the body's length, and the body written from the fifth byte
on with `postcard::to_slice`. -/
def encode (item : α) (dst : List UInt8) : Except CodecError (List UInt8) :=
  let body := serialize item
  let len := body.length
  if MAX_MESSAGE_SIZE < len then
    .error (.tooLarge ("attempting to send message that is too large " ++ toString len))
  else
    let dst := dst ++ Slice.u32ToBeBytes (UInt32.ofNat len)
    let dst := if dst.length < 4 + len then dst ++ List.replicate (4 + len - dst.length) 0 else dst
    .ok (dst.take 4 ++ body ++ dst.drop (4 + len))

/-- `SyncCodec::decode`: the item and the rest of the buffer, or no item and the
buffer as it was while the frame is incomplete. -/
def decode (src : List UInt8) : Except CodecError (Option α × List UInt8) :=
  if src.length < 4 then .ok (none, src)
  else
    let frameLen := Slice.beValue (src.take 4)
    if MAX_MESSAGE_SIZE < frameLen then
      .error (.tooLarge ("received message that is too large: " ++ toString frameLen))
    else if src.length < 4 + frameLen then .ok (none, src)
    else
      match deserialize ((src.drop 4).take frameLen) with
      | some message => .ok (some message, src.drop (4 + frameLen))
      | none => .error .postcard

/-- `FramedRead` on a buffer: `decode` called until it yields no item, at most `fuel`
times. -/
def decodeFrames : Nat → List UInt8 → Except CodecError (List α × List UInt8)
  | 0, src => .ok ([], src)
  | fuel + 1, src =>
    match decode deserialize src with
    | .ok (some item, src) => (decodeFrames fuel src).map fun r => (item :: r.1, r.2)
    | .ok (none, src) => .ok ([], src)
    | .error e => .error e

/-- `FramedWrite::send` for each item in turn: the item is encoded into the write
buffer, which is empty, and the flush writes the buffer out. -/
def sendAll : List α → Except CodecError (List UInt8)
  | [] => .ok []
  | item :: rest => do
    let bytes ← encode serialize item []
    let more ← sendAll rest
    pure (bytes ++ more)

/-- Items encoded one after another into one buffer, as `feed` does before a flush. -/
def encodeAll : List α → List UInt8 → Except CodecError (List UInt8)
  | [], dst => .ok dst
  | item :: rest, dst => do
    let dst ← encode serialize item dst
    encodeAll rest dst

/-! ### Frames -/

theorem beValue_frameLength {len : Nat} (h : len ≤ MAX_MESSAGE_SIZE) :
    Slice.beValue (Slice.u32ToBeBytes (UInt32.ofNat len)) = len := by
  have hlt : len < 4294967296 := by unfold MAX_MESSAGE_SIZE at h; omega
  simp [Slice.u32ToBeBytes, Slice.beValue_beBytes, Nat.mod_eq_of_lt hlt]

theorem length_frame (item : α) : (frame serialize item).length = 4 + (serialize item).length := by
  simp [frame]

/-- What `encode` writes, in one formula for buffers of either size: the buffer with
the length appended, padded to four bytes past the body's length, and the body over
its bytes from the fifth on. -/
theorem encode_eq_ok {item : α} (hmax : (serialize item).length ≤ MAX_MESSAGE_SIZE) (dst : List UInt8) :
    encode serialize item dst =
      let padded := dst ++ Slice.u32ToBeBytes (UInt32.ofNat (serialize item).length) ++
        List.replicate (4 + (serialize item).length - (dst.length + 4)) 0
      .ok (padded.take 4 ++ serialize item ++ padded.drop (4 + (serialize item).length)) := by
  simp only [encode, if_neg (Nat.not_lt.mpr hmax), List.length_append, Slice.length_u32ToBeBytes]
  split_ifs with hpad
  · rfl
  · rw [show 4 + (serialize item).length - (dst.length + 4) = 0 by omega, List.replicate_zero, List.append_nil]

/-- Into an empty buffer `encode` writes one frame. -/
theorem encode_nil {item : α} (hmax : (serialize item).length ≤ MAX_MESSAGE_SIZE) :
    encode serialize item [] = .ok (frame serialize item) := by
  rw [encode_eq_ok serialize hmax]
  have hlen := Slice.length_u32ToBeBytes (UInt32.ofNat (serialize item).length)
  simp only [List.nil_append, List.length_nil, Nat.zero_add, List.take_left' hlen, frame]
  rw [List.drop_eq_nil_of_le (by simp), List.append_nil]

/-- The buffer `encode` leaves is as long as the buffer with the length appended, or
as the frame if that is longer. -/
theorem length_encode {item : α} (hmax : (serialize item).length ≤ MAX_MESSAGE_SIZE) {dst out : List UInt8}
    (h : encode serialize item dst = .ok out) :
    out.length = max (dst.length + 4) (4 + (serialize item).length) := by
  rw [encode_eq_ok serialize hmax] at h
  injection h with h
  rw [← h]
  simp only [List.length_append, List.length_take, List.length_drop, List.length_replicate,
    Slice.length_u32ToBeBytes]
  omega

/-- **`encode` appends a frame exactly when the buffer is empty**, for a body that is
not empty: otherwise the body overwrites what the buffer held from its fifth byte on. -/
theorem encode_eq_append_iff {item : α} (hmax : (serialize item).length ≤ MAX_MESSAGE_SIZE)
    (hbody : serialize item ≠ []) (dst : List UInt8) :
    encode serialize item dst = .ok (dst ++ frame serialize item) ↔ dst = [] := by
  constructor
  · intro h
    have hlen := length_encode serialize hmax h
    have hpos : 0 < (serialize item).length := List.length_pos_iff.mpr hbody
    rw [List.length_append, length_frame] at hlen
    exact List.length_eq_zero_iff.mp (by omega)
  · rintro rfl
    rw [encode_nil serialize hmax, List.nil_append]

/-- A one-byte body encoded into a buffer that holds a byte: no frame is appended. -/
theorem encode_eq_append_iff_one_byte :
    let serialize : UInt8 → List UInt8 := fun b => [b]
    (serialize 7).length ≤ MAX_MESSAGE_SIZE ∧ serialize 7 ≠ [] ∧
      encode serialize 7 [9] ≠ .ok ([9] ++ frame serialize 7) := by
  intro serialize
  have hmax : (serialize 7).length ≤ MAX_MESSAGE_SIZE := by
    show 1 ≤ 1024 * 1024 * 1024
    norm_num
  have hbody : serialize 7 ≠ [] := List.cons_ne_nil _ _
  refine ⟨hmax, hbody, fun h => ?_⟩
  cases (encode_eq_append_iff serialize hmax hbody [9]).mp h

/-- **`decode` takes a frame from the front of its buffer**, leaving what follows. -/
theorem decode_frame {item : α} (hround : deserialize (serialize item) = some item)
    (hmax : (serialize item).length ≤ MAX_MESSAGE_SIZE) (rest : List UInt8) :
    decode deserialize (frame serialize item ++ rest) = .ok (some item, rest) := by
  have hlen4 := Slice.length_u32ToBeBytes (UInt32.ofNat (serialize item).length)
  have hsrc : frame serialize item ++ rest =
      Slice.u32ToBeBytes (UInt32.ofNat (serialize item).length) ++ (serialize item ++ rest) := by
    rw [frame, List.append_assoc]
  have hlen : (frame serialize item ++ rest).length = 4 + (serialize item).length + rest.length := by
    rw [List.length_append, length_frame]
  unfold decode
  rw [if_neg (by omega), hsrc, List.take_left' hlen4, beValue_frameLength hmax, if_neg (Nat.not_lt.mpr hmax),
    ← hsrc, if_neg (by omega), hsrc, List.drop_left' hlen4, List.take_left' rfl, hround,
    ← List.append_assoc, List.drop_left' (by simp [hlen4])]

/-- **While a frame is incomplete `decode` yields nothing and consumes nothing.** -/
theorem decode_of_prefix {item : α} {p : List UInt8} (hp : p <+: frame serialize item)
    (hlt : p.length < (frame serialize item).length) (hmax : (serialize item).length ≤ MAX_MESSAGE_SIZE) :
    decode deserialize p = .ok (none, p) := by
  unfold decode
  by_cases h4 : p.length < 4
  · rw [if_pos h4]
  · -- the prefix holds the length's four bytes
    have htake : p.take 4 = Slice.u32ToBeBytes (UInt32.ofNat (serialize item).length) := by
      rw [List.prefix_iff_eq_take.mp hp, List.take_take, Nat.min_eq_left (by omega), frame,
        List.take_left' (Slice.length_u32ToBeBytes _)]
    rw [length_frame] at hlt
    rw [if_neg h4, htake, beValue_frameLength hmax, if_neg (Nat.not_lt.mpr hmax), if_pos hlt]

/-- The length of a frame with a one-byte body, without the body: nothing is decoded and
nothing consumed. -/
theorem decode_of_prefix_length_only :
    let serialize : UInt8 → List UInt8 := fun b => [b]
    [0, 0, 0, 1] <+: frame serialize 7 ∧ ([0, 0, 0, 1] : List UInt8).length < (frame serialize 7).length ∧
      (serialize 7).length ≤ MAX_MESSAGE_SIZE ∧ decode List.head? [0, 0, 0, 1] = .ok (none, [0, 0, 0, 1]) := by
  intro serialize
  have hp : [0, 0, 0, 1] <+: frame serialize 7 := by decide
  have hlt : ([0, 0, 0, 1] : List UInt8).length < (frame serialize 7).length := by decide
  have hmax : (serialize 7).length ≤ MAX_MESSAGE_SIZE := by
    show 1 ≤ 1024 * 1024 * 1024
    norm_num
  exact ⟨hp, hlt, hmax, decode_of_prefix serialize List.head? hp hlt hmax⟩

/-- Frames one after another are read back in order, and then nothing. -/
theorem decodeFrames_frames (items : List α) (hround : ∀ item ∈ items, deserialize (serialize item) = some item)
    (hmax : ∀ item ∈ items, (serialize item).length ≤ MAX_MESSAGE_SIZE) :
    decodeFrames deserialize (items.length + 1) (items.flatMap (frame serialize)) = .ok (items, []) := by
  induction items with
  | nil => rfl
  | cons item items ih =>
    have hnext := ih (fun i hi => hround i (List.mem_cons_of_mem _ hi)) fun i hi => hmax i (List.mem_cons_of_mem _ hi)
    rw [List.flatMap_cons, List.length_cons, decodeFrames,
      decode_frame serialize deserialize (hround item (List.mem_cons_self ..)) (hmax item (List.mem_cons_self ..))]
    simp only [hnext]
    rfl

theorem sendAll_eq (items : List α) (hmax : ∀ item ∈ items, (serialize item).length ≤ MAX_MESSAGE_SIZE) :
    sendAll serialize items = .ok (items.flatMap (frame serialize)) := by
  induction items with
  | nil => rfl
  | cons item items ih =>
    rw [sendAll, encode_nil serialize (hmax item (List.mem_cons_self ..)),
      ih fun i hi => hmax i (List.mem_cons_of_mem _ hi)]
    rfl

/-- **Messages sent one at a time are read back in order**, and then no more. -/
theorem decodeFrames_sendAll (items : List α) (hround : ∀ item, deserialize (serialize item) = some item)
    (hmax : ∀ item ∈ items, (serialize item).length ≤ MAX_MESSAGE_SIZE) :
    ∃ bytes, sendAll serialize items = .ok bytes ∧
      decodeFrames deserialize (items.length + 1) bytes = .ok (items, []) :=
  ⟨_, sendAll_eq serialize items hmax, decodeFrames_frames serialize deserialize items (fun i _ => hround i) hmax⟩

/-- Two bytes sent as messages of one byte each. -/
theorem decodeFrames_sendAll_bytes :
    let serialize : UInt8 → List UInt8 := fun b => [b]
    let deserialize : List UInt8 → Option UInt8 := List.head?
    (∀ item, deserialize (serialize item) = some item) ∧
      (∀ item ∈ ([1, 2] : List UInt8), (serialize item).length ≤ MAX_MESSAGE_SIZE) ∧
      ∃ bytes, sendAll serialize [1, 2] = .ok bytes ∧
        decodeFrames deserialize (([1, 2] : List UInt8).length + 1) bytes = .ok ([1, 2], []) := by
  intro serialize deserialize
  have hround : ∀ item, deserialize (serialize item) = some item := fun _ => rfl
  have hmax : ∀ item ∈ ([1, 2] : List UInt8), (serialize item).length ≤ MAX_MESSAGE_SIZE := by
    intro item _
    show 1 ≤ 1024 * 1024 * 1024
    norm_num
  exact ⟨hround, hmax, decodeFrames_sendAll serialize deserialize [1, 2] hround hmax⟩

/-- Encoding reads each item only through its serialization. -/
theorem encodeAll_eq_map (items : List α) (dst : List UInt8) :
    encodeAll serialize items dst = encodeAll id (items.map serialize) dst := by
  induction items generalizing dst with
  | nil => rfl
  | cons item items ih =>
    show (encode id (serialize item) dst >>= fun dst => encodeAll serialize items dst) =
      (encode id (serialize item) dst >>= fun dst => encodeAll id (items.map serialize) dst)
    simp only [ih]

end Codec

/-- **Two messages encoded into one buffer before a flush leave only the second**:
the aborts `NotFound` and then `AlreadySyncing` encoded into an empty buffer leave the
second body over the first; the reader returns `AlreadySyncing` alone and keeps the
second length, waiting for a body that never comes. -/
theorem encode_twice_keeps_second (serializeProtocol : ProtocolMessage → List UInt8)
    (takeProtocol : List UInt8 → Option (ProtocolMessage × List UInt8)) :
    encodeAll (Message.serialize serializeProtocol) [.abort .notFound, .abort .alreadySyncing] [] =
        .ok [0, 0, 0, 2, 2, 1, 0, 0, 0, 2] ∧
      decodeFrames (Message.deserialize takeProtocol) 3 [0, 0, 0, 2, 2, 1, 0, 0, 0, 2] =
        .ok ([.abort .alreadySyncing], [0, 0, 0, 2]) := by
  constructor
  · -- the writer sees the messages only through their bytes, which leave no variable
    rw [encodeAll_eq_map]
    simp only [List.map_cons, List.map_nil, Message.serialize]
    decide
  · set_option maxRecDepth 4000 in rfl

end Iroh.Docs.Net
