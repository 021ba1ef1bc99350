import Iroh.Net.RelayCodec

/-! Datagrams sent over a relay, several to a packet: `PacketizeIter` (`magicsock/relay_actor.rs`,
used by `RelayActor::send_relay`) packs them, `PacketSplitIter` (`magicsock.rs`, used by
`process_relay_read_result`) takes them apart.

An item goes into a packet as its length, two bytes least significant first, then its
bytes (`encodeItem`). `PacketizeIter::next` moves items into its buffer while they fit
in `N` bytes and yields the buffer; `PacketSplitIter::next` reads one item back, or an
`UnexpectedEof` error, and then nothing, where the packet is cut short.

For items of at most `N - 2` bytes the packer never panics, and its packets, each a
non-empty batch of items, come out in order (`packets_spec`); each packet splits back into
its batch (`items_encodeAll`). On any bytes the splitter never panics and yields items
whose encodings spell a prefix of the bytes, then at most one error (`items_spec`). -/

namespace Iroh.Net.Magicsock

open Slice Relay

/-- `PAYLAOD_SIZE` of `send_relay`: what a `SendPacket` carries after its key. -/
def payloadSize : Nat := maxPacketSize - publicKeyLength

/-- An item as a packet holds it: its length as a little-endian `u16`, then its bytes. -/
def encodeItem (item : List UInt8) : List UInt8 := u16ToLeBytes (UInt16.ofNat item.length) ++ item

/-- Items one after another. -/
def encodeAll (items : List (List UInt8)) : List UInt8 := items.flatMap encodeItem

@[simp] theorem length_encodeItem (item : List UInt8) : (encodeItem item).length = item.length + 2 := by
  simp [encodeItem]
  omega

@[simp] theorem encodeAll_nil : encodeAll [] = [] := rfl

@[simp] theorem encodeAll_cons (item : List UInt8) (items : List (List UInt8)) :
    encodeAll (item :: items) = encodeItem item ++ encodeAll items := rfl

/-! ### `PacketizeIter` -/

/-- `PacketizeIter<I, N>`: the items still to come, and the packet being filled. -/
structure PacketizeIter where
  iter : List (List UInt8)
  buffer : List UInt8

/-- `PacketizeIter::new`. -/
def PacketizeIter.new (items : List (List UInt8)) : PacketizeIter := ⟨items, []⟩

/-- The `while let` loop of `PacketizeIter::next`: items move into the buffer while they
fit. Both checks on an item's size panic. -/
def fill (n : Nat) : List (List UInt8) → List UInt8 → Except (Fault Empty) (List (List UInt8) × List UInt8)
  | [], buffer => .ok ([], buffer)
  | item :: items, buffer =>
    if item.length + 2 ≤ n then
      if item.length < 65536 then
        if buffer.length + item.length + 2 > n then .ok (item :: items, buffer)
        else fill n items (buffer ++ u16ToLeBytes (UInt16.ofNat item.length) ++ item)
      else .error (.panic "items < 64k size: TryFromIntError(())")
    else .error (.panic "assertion failed: next_bytes.len() + 2 <= N")

/-- `PacketizeIter::next`: the buffer once it holds something, split off. -/
def PacketizeIter.next (n : Nat) (s : PacketizeIter) :
    Except (Fault Empty) (Option (List UInt8) × PacketizeIter) := do
  let (iter, buffer) ← fill n s.iter s.buffer
  if !buffer.isEmpty then pure (some buffer, ⟨iter, []⟩) else pure (none, ⟨iter, buffer⟩)

/-- The `for packet in PacketizeIter::new(contents)` loop of `send_relay`: `next` until
it yields `None`, at most `fuel` times. -/
def PacketizeIter.packets (n : Nat) : Nat → PacketizeIter → Except (Fault Empty) (List (List UInt8))
  | 0, _ => .ok []
  | fuel + 1, s =>
    match s.next n with
    | .ok (some packet, s) => (packets n fuel s).map (packet :: ·)
    | .ok (none, _) => .ok []
    | .error e => .error e

/-! ### `PacketSplitIter` -/

/-- `io::Error::new(ErrorKind::UnexpectedEof, "")`, the one error the splitter yields. -/
inductive SplitError where
  | unexpectedEof
deriving DecidableEq, Repr

/-- `PacketSplitIter`: the bytes of the packet not yet read. -/
structure PacketSplitIter where
  bytes : List UInt8

/-- `PacketSplitIter::fail`: the bytes cleared and the error yielded. -/
def PacketSplitIter.fail : Option (Except SplitError (List UInt8)) × PacketSplitIter :=
  (some (.error .unexpectedEof), ⟨[]⟩)

/-- `PacketSplitIter::next`. -/
def PacketSplitIter.next (s : PacketSplitIter) :
    Except (Fault Empty) (Option (Except SplitError (List UInt8)) × PacketSplitIter) :=
  if s.bytes.length > 0 then
    if s.bytes.length < 2 then .ok fail
    else do
      let (len, bytes) ← getU16Le s.bytes
      if bytes.length < len.toNat then .ok fail
      else do
        let (item, bytes) ← splitTo bytes len.toNat
        pure (some (.ok item), ⟨bytes⟩)
  else .ok (none, s)

/-- The `for part in parts` loop of `process_relay_read_result`: `next` until it yields
`None`, at most `fuel` times. -/
def PacketSplitIter.items : Nat → PacketSplitIter →
    Except (Fault Empty) (List (Except SplitError (List UInt8)))
  | 0, _ => .ok []
  | fuel + 1, s =>
    match s.next with
    | .ok (some item, s) => (items fuel s).map (item :: ·)
    | .ok (none, _) => .ok []
    | .error e => .error e

/-! ### What the packer yields -/

section Packetize

variable {n : Nat}

theorem length_encodeAll_pos {items : List (List UInt8)} (h : items ≠ []) : 0 < (encodeAll items).length := by
  obtain ⟨item, items, rfl⟩ := List.exists_cons_of_ne_nil h
  simp

/-- The loop of `next`, on items that each fit an empty packet: it moves a run of them
from the front into the buffer, as many as fit, and at least one if the buffer was
empty. -/
theorem fill_spec (hn : n ≤ 65537) (items : List (List UInt8)) (hitems : ∀ d ∈ items, d.length + 2 ≤ n)
    (buffer : List UInt8) (hbuffer : buffer.length ≤ n) :
    ∃ taken rest, items = taken ++ rest ∧ fill n items buffer = .ok (rest, buffer ++ encodeAll taken) ∧
      (buffer ++ encodeAll taken).length ≤ n ∧ (buffer = [] → items ≠ [] → taken ≠ []) := by
  induction items generalizing buffer with
  | nil => exact ⟨[], [], rfl, by simp [fill], by simpa using hbuffer, fun _ h => absurd rfl h⟩
  | cons item items ih =>
    have hitem := hitems item List.mem_cons_self
    have hshort : item.length < 65536 := by omega
    by_cases hfull : buffer.length + item.length + 2 > n
    · -- the item waits for the next packet; an empty one would have taken it
      refine ⟨[], item :: items, rfl, ?_, by simpa using hbuffer, ?_⟩
      · simp [fill, hitem, hshort, hfull]
      · rintro rfl -
        simp at hfull
        omega
    · obtain ⟨taken, rest, hsplit, hfill, hlen, -⟩ := ih (fun d hd => hitems d (List.mem_cons_of_mem _ hd))
        (buffer ++ encodeItem item) (by simp; omega)
      refine ⟨item :: taken, rest, by rw [hsplit]; rfl, ?_, by simpa using hlen, fun _ _ => List.cons_ne_nil _ _⟩
      rw [fill, if_pos hitem, if_pos hshort, if_neg hfull]
      simpa [encodeItem] using hfill

/-- `next` on items with an empty buffer yields a packet of a non-empty run of them. -/
theorem next_of_ne_nil (hn : n ≤ 65537) {items : List (List UInt8)} (hitems : ∀ d ∈ items, d.length + 2 ≤ n)
    (hne : items ≠ []) :
    ∃ taken rest, taken ≠ [] ∧ items = taken ++ rest ∧ (encodeAll taken).length ≤ n ∧
      PacketizeIter.next n ⟨items, []⟩ = .ok (some (encodeAll taken), ⟨rest, []⟩) := by
  obtain ⟨taken, rest, hsplit, hfill, hlen, hprogress⟩ := fill_spec hn items hitems [] (by simp)
  have htaken := hprogress rfl hne
  have hnonempty : (encodeAll taken).isEmpty = false := by
    simpa [List.isEmpty_iff, ← List.length_pos_iff] using length_encodeAll_pos htaken
  refine ⟨taken, rest, htaken, hsplit, by simpa using hlen, ?_⟩
  simp only [PacketizeIter.next, hfill, List.nil_append, ok_bind, hnonempty]
  rfl

/-- The packer's packets: non-empty batches of the items, in order, each within `N`
bytes, the same for all fuel past the number of items. -/
theorem packets_spec (hn : n ≤ 65537) (items : List (List UInt8)) (hitems : ∀ d ∈ items, d.length + 2 ≤ n) :
    ∃ batches : List (List (List UInt8)), batches.flatten = items ∧
      (∀ b ∈ batches, b ≠ [] ∧ (encodeAll b).length ≤ n) ∧
      ∀ fuel, items.length < fuel → PacketizeIter.packets n fuel (.new items) = .ok (batches.map encodeAll) := by
  by_cases hne : items = []
  · subst hne
    refine ⟨[], rfl, by simp, fun fuel hfuel => ?_⟩
    obtain ⟨fuel, rfl⟩ : ∃ m, fuel = m + 1 := ⟨fuel - 1, by simp at hfuel; omega⟩
    rfl
  obtain ⟨taken, rest, htaken, rfl, hlen, hnext⟩ := next_of_ne_nil hn hitems hne
  have hrest : rest.length < (taken ++ rest).length := by
    simpa using List.length_pos_of_ne_nil htaken
  obtain ⟨batches, hflat, hbatches, hrun⟩ :=
    packets_spec hn rest fun d hd => hitems d (List.mem_append_right _ hd)
  refine ⟨taken :: batches, by simp [hflat], ?_, fun fuel hfuel => ?_⟩
  · intro b hb
    rcases List.mem_cons.mp hb with rfl | hb
    · exact ⟨htaken, hlen⟩
    · exact hbatches b hb
  · obtain ⟨fuel, rfl⟩ : ∃ m, fuel = m + 1 := ⟨fuel - 1, by omega⟩
    have hrest := hrun fuel (by omega)
    simp only [PacketizeIter.new] at hrest
    simp only [PacketizeIter.packets, PacketizeIter.new, hnext, hrest]
    rfl
termination_by items.length

end Packetize

/-! ### What the splitter yields -/

theorem items_nil (fuel : Nat) : PacketSplitIter.items fuel ⟨[]⟩ = .ok [] := by
  cases fuel <;> rfl

/-- `next` on an encoded item reads the item and leaves what follows. -/
theorem split_next_encodeItem (item rest : List UInt8) (h : item.length < 65536) :
    PacketSplitIter.next ⟨encodeItem item ++ rest⟩ = .ok (some (.ok item), ⟨rest⟩) := by
  have hlen : (UInt16.ofNat item.length).toNat = item.length := by
    simp only [UInt16.toNat_ofNat']
    omega
  have hbuf : encodeItem item ++ rest = u16ToLeBytes (UInt16.ofNat item.length) ++ (item ++ rest) := by
    simp [encodeItem]
  simp only [PacketSplitIter.next, hbuf, getU16Le_u16ToLeBytes, ok_bind, hlen]
  rw [if_pos (by simp only [List.length_append, length_u16ToLeBytes]; omega),
    if_neg (by simp only [List.length_append, length_u16ToLeBytes]; omega),
    if_neg (by simp only [List.length_append]; omega), splitTo_of_le (by simp)]
  simp

/-- Everything `next` can do: yield nothing on no bytes, fail, or read an encoded item
off the front. -/
theorem split_next_cases (s : PacketSplitIter) :
    (s.bytes = [] ∧ s.next = .ok (none, s)) ∨ s.next = .ok PacketSplitIter.fail ∨
      ∃ item rest, item.length < 65536 ∧ s.bytes = encodeItem item ++ rest ∧
        s.next = .ok (some (.ok item), ⟨rest⟩) := by
  obtain ⟨bytes⟩ := s
  by_cases hempty : bytes = []
  · exact .inl ⟨hempty, by simp [PacketSplitIter.next, hempty]⟩
  by_cases hshort : bytes.length < 2
  · refine .inr (.inl ?_)
    simp [PacketSplitIter.next, hempty, hshort, List.length_pos_iff]
  have htwo : 2 ≤ bytes.length := by omega
  set len := UInt16.ofNat (beValue (bytes.take 2).reverse) with hlen
  by_cases hcut : (bytes.drop 2).length < len.toNat
  · refine .inr (.inl ?_)
    simp only [PacketSplitIter.next, getU16Le_of_le htwo, ok_bind, ← hlen, if_pos hcut]
    rw [if_pos (by simp [List.length_pos_iff, hempty]), if_neg hshort]
  · refine .inr (.inr ⟨(bytes.drop 2).take len.toNat, (bytes.drop 2).drop len.toNat, ?_, ?_, ?_⟩)
    · simp only [List.length_take]
      exact Nat.lt_of_le_of_lt (Nat.min_le_left _ _) len.toNat_lt
    · have hitem : ((bytes.drop 2).take len.toNat).length = len.toNat := by
        rw [List.length_take]
        omega
      have hprefix : u16ToLeBytes (UInt16.ofNat ((bytes.drop 2).take len.toNat).length) = bytes.take 2 := by
        rw [hitem, hlen, UInt16.ofNat_toNat, u16ToLeBytes_ofNat_beValue (by simp; omega)]
      rw [encodeItem, hprefix, List.append_assoc, List.take_append_drop, List.take_append_drop]
    · simp only [PacketSplitIter.next, getU16Le_of_le htwo, ok_bind, ← hlen, if_neg hcut,
        splitTo_of_le (Nat.not_lt.mp hcut)]
      rw [if_pos (by simp [List.length_pos_iff, hempty]), if_neg hshort]
      rfl

/-- The splitter never panics. -/
theorem not_panics_items (fuel : Nat) (s : PacketSplitIter) : ¬ Panics (PacketSplitIter.items fuel s) := by
  induction fuel generalizing s with
  | zero => exact not_panics_ok _
  | succ fuel ih =>
    rcases split_next_cases s with ⟨-, hnext⟩ | hnext | ⟨item, rest, -, -, hnext⟩
    · simp only [PacketSplitIter.items, hnext]
      exact not_panics_ok _
    · simp only [PacketSplitIter.items, hnext, PacketSplitIter.fail, items_nil]
      rw [panics_except_map_iff]
      exact not_panics_ok _
    · simp only [PacketSplitIter.items, hnext]
      exact fun h => ih _ (panics_except_map_iff.mp h)

/-- A packet of encoded items splits back into them. -/
theorem items_encodeAll (items : List (List UInt8)) (h : ∀ d ∈ items, d.length < 65536) (fuel : Nat)
    (hfuel : items.length < fuel) :
    PacketSplitIter.items fuel ⟨encodeAll items⟩ = .ok (items.map .ok) := by
  induction items generalizing fuel with
  | nil => exact items_nil fuel
  | cons item items ih =>
    obtain ⟨fuel, rfl⟩ : ∃ m, fuel = m + 1 := ⟨fuel - 1, by simp at hfuel; omega⟩
    rw [encodeAll_cons, PacketSplitIter.items, split_next_encodeItem item _ (h item List.mem_cons_self)]
    dsimp only
    rw [ih (fun d hd => h d (List.mem_cons_of_mem _ hd)) fuel (by simpa using hfuel)]
    rfl

/-- On any bytes the splitter yields items whose encodings spell a prefix of the bytes,
then at most one error, the same for all fuel past the number of bytes. -/
theorem items_spec (bytes : List UInt8) :
    ∃ oks : List (List UInt8), ∃ tail : List (Except SplitError (List UInt8)),
      (tail = [] ∨ tail = [.error .unexpectedEof]) ∧ encodeAll oks <+: bytes ∧
      ∀ fuel, bytes.length < fuel → PacketSplitIter.items fuel ⟨bytes⟩ = .ok (oks.map .ok ++ tail) := by
  rcases split_next_cases ⟨bytes⟩ with ⟨hempty, hnext⟩ | hnext | ⟨item, rest, -, hbytes, hnext⟩
  · refine ⟨[], [], .inl rfl, by simp, fun fuel hfuel => ?_⟩
    obtain ⟨fuel, rfl⟩ : ∃ m, fuel = m + 1 := ⟨fuel - 1, by omega⟩
    simp only [PacketSplitIter.items, hnext]
    rfl
  · refine ⟨[], [.error .unexpectedEof], .inr rfl, by simp, fun fuel hfuel => ?_⟩
    obtain ⟨fuel, rfl⟩ : ∃ m, fuel = m + 1 := ⟨fuel - 1, by omega⟩
    simp only [PacketSplitIter.items, hnext, PacketSplitIter.fail, items_nil]
    rfl
  · change bytes = encodeItem item ++ rest at hbytes
    have hrest : rest.length < bytes.length := by simp [hbytes]
    obtain ⟨oks, tail, htail, hprefix, hrun⟩ := items_spec rest
    refine ⟨item :: oks, tail, htail, ?_, fun fuel hfuel => ?_⟩
    · rw [hbytes, encodeAll_cons]
      exact (List.prefix_append_right_inj _).mpr hprefix
    · obtain ⟨fuel, rfl⟩ : ∃ m, fuel = m + 1 := ⟨fuel - 1, by omega⟩
      simp only [PacketSplitIter.items, hnext, hrun fuel (by omega)]
      rfl
termination_by bytes.length

theorem length_encodeAll (items : List (List UInt8)) :
    (encodeAll items).length = (items.map List.length).sum + 2 * items.length := by
  induction items with
  | nil => rfl
  | cons item items ih =>
    simp only [encodeAll_cons, List.length_append, length_encodeItem, ih, List.map_cons, List.sum_cons,
      List.length_cons]
    omega

/-- Packets of encoded batches, each split with fuel enough for its bytes, give back the
batches. -/
theorem mapM_items_encodeAll (batches : List (List (List UInt8)))
    (h : ∀ b ∈ batches, ∀ d ∈ b, d.length < 65536) :
    (batches.map encodeAll).mapM (fun p => PacketSplitIter.items (p.length + 1) ⟨p⟩) =
      .ok (batches.map fun b => b.map .ok) := by
  induction batches with
  | nil => rfl
  | cons b batches ih =>
    have hfuel : b.length < (encodeAll b).length + 1 := by
      rw [length_encodeAll]
      omega
    rw [List.map_cons, List.mapM_cons, items_encodeAll b (h b List.mem_cons_self) _ hfuel, ok_bind,
      ih fun b' hb' => h b' (List.mem_cons_of_mem _ hb')]
    rfl

/-! ### Relay packets on the wire -/

/-- A packet within `PAYLAOD_SIZE`, sent as a `SendPacket`, is one the relay codec reads
back. -/
theorem decode_sendPacket {K : Type} (keys : KeyBytes K) (k : K) {packet : List UInt8}
    (h : packet.length ≤ payloadSize) (rest : List UInt8) :
    decode keys ((Frame.sendPacket k packet).bytes keys ++ rest) = .ok (some (.sendPacket k packet), rest) := by
  have hpacket : packet.length ≤ maxPacketSize := by
    unfold payloadSize at h
    omega
  apply decode_bytes_of_packetFits
  · simp only [Frame.len, publicKeyLength, maxFrameSize]
    simp only [payloadSize, maxPacketSize, publicKeyLength] at h
    omega
  · simpa [Frame.packetFits] using hpacket

/-! ### The round trip -/

/-- Datagrams of at most `PAYLAOD_SIZE - 2` bytes each, packed by `PacketizeIter` as
`send_relay` packs them: the packer does not panic and yields non-empty packets within
`PAYLAOD_SIZE`, which the relay codec accepts as `SendPacket`s, and which the splitter
takes back to the datagrams in order. On any bytes, the splitter does not panic and
yields `Ok` items whose encodings spell a prefix of the bytes, then at most one `Err`. -/
theorem relay_batching_round_trip :
    (∀ items : List (List UInt8), (∀ d ∈ items, d.length + 2 ≤ payloadSize) →
      ∃ packets : List (List UInt8),
        (∀ fuel, items.length < fuel → PacketizeIter.packets payloadSize fuel (.new items) = .ok packets) ∧
        (∀ p ∈ packets, p ≠ [] ∧ p.length ≤ payloadSize) ∧
        (∀ {K : Type} (keys : KeyBytes K) (k : K) (rest : List UInt8), ∀ p ∈ packets,
          decode keys ((Frame.sendPacket k p).bytes keys ++ rest) = .ok (some (.sendPacket k p), rest)) ∧
        ∃ outs, packets.mapM (fun p => PacketSplitIter.items (p.length + 1) ⟨p⟩) = .ok outs ∧
          outs.flatten = items.map .ok) ∧
    (∀ bytes : List UInt8, (∀ fuel, ¬ Panics (PacketSplitIter.items fuel ⟨bytes⟩)) ∧
      ∃ (oks : List (List UInt8)) (tail : List (Except SplitError (List UInt8))),
        (tail = [] ∨ tail = [.error .unexpectedEof]) ∧ encodeAll oks <+: bytes ∧
        ∀ fuel, bytes.length < fuel → PacketSplitIter.items fuel ⟨bytes⟩ = .ok (oks.map .ok ++ tail)) := by
  refine ⟨fun items hitems => ?_, fun bytes => ⟨fun fuel => not_panics_items fuel _, items_spec bytes⟩⟩
  obtain ⟨batches, hflat, hbatches, hrun⟩ := packets_spec (by decide) items hitems
  have hshort : ∀ b ∈ batches, ∀ d ∈ b, d.length < 65536 := by
    intro b hb d hd
    have hd := hitems d (hflat ▸ List.mem_flatten.mpr ⟨b, hb, hd⟩)
    simp only [payloadSize, maxPacketSize, publicKeyLength] at hd
    omega
  refine ⟨batches.map encodeAll, hrun, ?_, ?_, _, mapM_items_encodeAll batches hshort, ?_⟩
  · intro p hp
    obtain ⟨b, hb, rfl⟩ := List.mem_map.mp hp
    exact ⟨List.ne_nil_of_length_pos (length_encodeAll_pos (hbatches b hb).1), (hbatches b hb).2⟩
  · intro K keys k rest p hp
    obtain ⟨b, hb, rfl⟩ := List.mem_map.mp hp
    exact decode_sendPacket keys k (hbatches b hb).2 rest
  · rw [← hflat, List.map_flatten]

end Iroh.Net.Magicsock
