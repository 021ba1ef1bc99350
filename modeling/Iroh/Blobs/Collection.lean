import Iroh.Blobs.Store.Mem

/-! The collection format (`format/collection.rs`).

A collection is a list of named links. It is stored as two blobs: a metadata
blob, the `postcard` encoding of the header and the names, and a hash sequence
whose first hash is the metadata blob's hash and whose rest are the links. Its
root is the hash of the hash sequence.

`postcard` and BLAKE3 are parameters: a `Codec` that reads back what it writes,
and any function from bytes to hashes. Reading a collection back from a store
that holds its blobs gives it back, whatever the hash function (`load_toBlobs`),
and `Collection::store` imports exactly the blobs of `to_blobs`
(`store_eq_imports`). Reading it back with `load_db` from the in-memory store it
was stored into needs the two blobs to have different hashes: a store keeps one
entry per hash, and the second import replaces the first (`loadDb_store`).

The three readers do not check the same things. From sources that serve one pair of
blobs (`Serves`), `load` and `load_db` decide what `fromMetaLength` decides, that the
metadata names each link, and `read_fsm` what `fromMetaHeader` decides, that it starts
with `HEADER` (`Serves.readers`). They agree on well-formed pairs
(`readers_agree_of_wellFormed`) and differ on a foreign header or a short list of names
(`collection_readers_disagree`). -/

namespace Iroh.Blobs

/-- A serialization format for one type (`postcard::to_stdvec`, `postcard::from_bytes`),
which reads back what it writes. -/
structure Codec (α : Type) where
  encode : α → List UInt8
  decode : List UInt8 → Except String α
  decode_encode : ∀ a, decode (encode a) = .ok a

/-- `Collection`. -/
structure Collection where
  blobs : List (String × Hash)
deriving DecidableEq

/-- `CollectionMeta`: the wire format of the metadata blob. -/
structure CollectionMeta where
  header : Vector UInt8 13
  names : List String
deriving DecidableEq

namespace Collection

/-- `Collection::HEADER`: `CollectionV0.`. -/
def HEADER : Vector UInt8 13 := #v[67, 111, 108, 108, 101, 99, 116, 105, 111, 110, 86, 48, 46]

/-- `Collection::names`. -/
def names (c : Collection) : List String := c.blobs.map (·.1)

/-- `Collection::links`. -/
def links (c : Collection) : List Hash := c.blobs.map (·.2)

/-- `Collection::into_parts`. -/
def intoParts (c : Collection) : List Hash × CollectionMeta := (c.links, ⟨HEADER, c.names⟩)

/-- `Collection::from_parts`: the names zipped with the links. -/
def fromParts (links : List Hash) (metadata : CollectionMeta) : Collection := ⟨metadata.names.zip links⟩

theorem fromParts_intoParts (c : Collection) : fromParts c.intoParts.1 c.intoParts.2 = c := by
  cases c with
  | mk blobs =>
    simp only [fromParts, intoParts, names, links, mk.injEq]
    induction blobs with
    | nil => rfl
    | cons blob blobs ih => simp [ih]

section
variable (postcard : Codec CollectionMeta) (blake3 : List UInt8 → Hash)

/-- The metadata blob of `to_blobs`. -/
def metaBytes (c : Collection) : List UInt8 := postcard.encode ⟨HEADER, c.names⟩

/-- `Collection::to_blobs`: the metadata blob, then the hash sequence that starts
with its hash. -/
def toBlobs (c : Collection) : List (List UInt8) :=
  let metaBytes := c.metaBytes postcard
  let metaBytesHash := blake3 metaBytes
  let links := HashSeq.ofHashes (metaBytesHash :: c.links)
  [metaBytes, links.bytes]

/-- `Collection::load`, from a `SimpleStore`. -/
def load (root : Hash) (store : Hash → Except String (List UInt8)) : Except String Collection := do
  let hs ← store root
  let hs ← HashSeq.tryFrom hs
  let metaHash ← match hs.iter.head? with
    | some hash => .ok hash
    | none => .error "empty hash seq"
  let metadata ← store metaHash
  let metadata ← postcard.decode metadata
  if metadata.names.length + 1 = hs.len then .ok (fromParts (hs.iter.drop 1) metadata)
  else .error "names and links length mismatch"

/-- `Collection::store`, into the in-memory store: import the metadata, then the
hash sequence; the metadata's temp tag is dropped on return. -/
def store (c : Collection) (db : Mem.State) : Mem.State × TempTag :=
  let (links, metadata) := c.intoParts
  let metaBytes := postcard.encode metadata
  let (db, metaTag) := db.importBytes blake3 metaBytes .raw
  let linksBytes := (HashSeq.ofHashes (metaTag.hash :: links)).bytes
  let (db, linksTag) := db.importBytes blake3 linksBytes .hashSeq
  (db.dropTempTag metaTag, linksTag)

/-- `Collection::load_db`. The completeness of the links entry is checked twice,
and that of the metadata entry never. -/
def loadDb (db : Mem.State) (root : Hash) : Except String Collection := do
  let linksEntry ← match db.get root with
    | some entry => .ok entry
    | none => .error "links not found"
  if !linksEntry.complete then .error "links not complete" else
  let links ← HashSeq.tryFrom linksEntry.data
  let (metaHash, links) ← match links.popFront with
    | some front => .ok front
    | none => .error "meta hash not found"
  let metaEntry ← match db.get metaHash with
    | some entry => .ok entry
    | none => .error "meta not found"
  if !linksEntry.complete then .error "links not complete" else
  let metadata ← postcard.decode metaEntry.data
  if metadata.names.length = links.len then .ok (fromParts links.iter metadata)
  else .error "names and links length mismatch"

/-- `Collection::read_fsm`, on the response to a request that starts at the root: the data of
the root blob, whether the request has children after it (`EndBlobNext::MoreChildren`), and
the data the response carries for a child read at a hash. It returns the links and the
collection. The header is checked; the names are zipped with the links whatever their
lengths. -/
def readFsm (rootData : Except String (List UInt8)) (moreChildren : Bool)
    (childData : Hash → Except String (List UInt8)) : Except String (HashSeq × Collection) := do
  let data ← rootData
  let links ← match HashSeq.new data with
    | some links => .ok links
    | none => .error "links could not be parsed"
  if !moreChildren then .error "expected meta" else
  let (metaLink, children) ← match links.popFront with
    | some front => .ok front
    | none => .error "meta link not found"
  let names ← childData metaLink
  let names ← postcard.decode names
  if names.header = HEADER then .ok (links, fromParts children.iter names)
  else .error ("expected header " ++ toString HEADER.toList ++ ", got " ++ toString names.header.toList)

/-- What `load` and `load_db` make of a metadata blob, once the hash sequence gave the
`links` after the metadata's hash: the blob decodes and names as many blobs as there are
links. The header is not looked at. -/
def fromMetaLength (links : List Hash) (metaBytes : List UInt8) : Except String Collection := do
  let metadata ← postcard.decode metaBytes
  if metadata.names.length = links.length then .ok (fromParts links metadata)
  else .error "names and links length mismatch"

/-- What `read_fsm` makes of a metadata blob: the blob decodes and starts with `HEADER`.
The lengths are not compared. -/
def fromMetaHeader (links : List Hash) (metaBytes : List UInt8) : Except String Collection := do
  let metadata ← postcard.decode metaBytes
  if metadata.header = HEADER then .ok (fromParts links metadata)
  else .error ("expected header " ++ toString HEADER.toList ++ ", got " ++ toString metadata.header.toList)

@[simp] theorem toBlobs_eq (c : Collection) :
    c.toBlobs postcard blake3 =
      [c.metaBytes postcard, (HashSeq.ofHashes (blake3 (c.metaBytes postcard) :: c.links)).bytes] :=
  rfl

/-- A `SimpleStore`, or a get response, that serves the data of an in-memory store's
entries, complete or not. -/
def served (db : Mem.State) (hash : Hash) : Except String (List UInt8) :=
  match db.get hash with
  | some entry => .ok entry.data
  | none => .error "not found"

/-- The sources of the three readers serve one pair of blobs: the hash sequence of
`metaHash :: links` at the root, complete in the `load_db` store, and the metadata blob at
`metaHash`. -/
structure Serves (root metaHash : Hash) (links : List Hash) (metaBytes : List UInt8)
    (store : Hash → Except String (List UInt8)) (db : Mem.State)
    (rootData : Except String (List UInt8)) (childData : Hash → Except String (List UInt8)) :
    Prop where
  store_root : store root = .ok (HashSeq.ofHashes (metaHash :: links)).bytes
  store_meta : store metaHash = .ok metaBytes
  db_root : ∃ entry : Mem.Entry, db.get root = some entry ∧ entry.complete = true ∧
    entry.data = (HashSeq.ofHashes (metaHash :: links)).bytes
  db_meta : ∃ entry : Mem.Entry, db.get metaHash = some entry ∧ entry.data = metaBytes
  root_data : rootData = .ok (HashSeq.ofHashes (metaHash :: links)).bytes
  child_data : childData metaHash = .ok metaBytes

section Readers
variable {root metaHash : Hash} {links : List Hash} {metaBytes : List UInt8}

/-- `load`, from a store that serves a hash sequence at the root and a metadata blob at
its first hash, decides what `fromMetaLength` decides about the blob. -/
theorem load_eq {store : Hash → Except String (List UInt8)}
    (hroot : store root = .ok (HashSeq.ofHashes (metaHash :: links)).bytes)
    (hmeta : store metaHash = .ok metaBytes) :
    load postcard root store = fromMetaLength postcard links metaBytes := by
  simp only [load, bind, Except.bind, hroot, HashSeq.tryFrom_bytes, HashSeq.iter_ofHashes,
    List.head?_cons, hmeta, HashSeq.len_ofHashes, List.length_cons, Nat.add_right_cancel_iff,
    List.drop_one, List.tail_cons, fromMetaLength]

/-- `load_db`, from a store whose root entry is a complete hash sequence and which holds
a metadata blob at its first hash, complete or not, decides the same. -/
theorem loadDb_eq {db : Mem.State} {linksEntry metaEntry : Mem.Entry}
    (hlinks : db.get root = some linksEntry) (hcomplete : linksEntry.complete = true)
    (hdata : linksEntry.data = (HashSeq.ofHashes (metaHash :: links)).bytes)
    (hmeta : db.get metaHash = some metaEntry) (hmetaData : metaEntry.data = metaBytes) :
    loadDb postcard db root = fromMetaLength postcard links metaBytes := by
  simp only [loadDb, bind, Except.bind, hlinks, hcomplete, Bool.not_true, Bool.false_eq_true,
    if_false, hdata, HashSeq.tryFrom_bytes, HashSeq.popFront_ofHashes, hmeta, hmetaData,
    HashSeq.len_ofHashes, HashSeq.iter_ofHashes, fromMetaLength]

/-- `read_fsm`, on a response that carries a hash sequence as the root blob, asks for
children, and carries a metadata blob at the first hash, decides what `fromMetaHeader`
decides about the blob. -/
theorem readFsm_eq {rootData : Except String (List UInt8)}
    {childData : Hash → Except String (List UInt8)}
    (hroot : rootData = .ok (HashSeq.ofHashes (metaHash :: links)).bytes)
    (hchild : childData metaHash = .ok metaBytes) :
    readFsm postcard rootData true childData =
      (fromMetaHeader postcard links metaBytes).map (HashSeq.ofHashes (metaHash :: links), ·) := by
  simp only [readFsm, bind, Except.bind, hroot, HashSeq.new_bytes, Bool.not_true,
    Bool.false_eq_true, if_false, HashSeq.popFront_ofHashes, hchild, HashSeq.iter_ofHashes,
    fromMetaHeader]
  cases postcard.decode metaBytes with
  | error e => rfl
  | ok metadata =>
    by_cases hheader : metadata.header = HEADER
    · simp only [if_pos hheader]
      rfl
    · simp only [if_neg hheader]
      rfl

/-- On a metadata blob whose every decoding has the header and names each link, the two
checks agree. -/
theorem fromMetaLength_eq_fromMetaHeader
    (hwf : ∀ metadata, postcard.decode metaBytes = .ok metadata →
      metadata.header = HEADER ∧ metadata.names.length = links.length) :
    fromMetaLength postcard links metaBytes = fromMetaHeader postcard links metaBytes := by
  cases hdecode : postcard.decode metaBytes with
  | error e => simp only [fromMetaLength, fromMetaHeader, bind, Except.bind, hdecode]
  | ok metadata =>
    obtain ⟨hheader, hlen⟩ := hwf metadata hdecode
    simp only [fromMetaLength, fromMetaHeader, bind, Except.bind, hdecode, hheader, hlen, if_true]

/-- The metadata blob that `to_blobs` writes passes both checks, with the collection's
links. -/
theorem fromMeta_metaBytes (c : Collection) :
    fromMetaLength postcard c.links (c.metaBytes postcard) = .ok c ∧
      fromMetaHeader postcard c.links (c.metaBytes postcard) = .ok c := by
  have hlen : c.names.length = c.links.length := by simp [names, links]
  have hlength : fromMetaLength postcard c.links (c.metaBytes postcard) = .ok c := by
    simp only [fromMetaLength, metaBytes, bind, Except.bind, postcard.decode_encode, hlen, if_true]
    exact congrArg Except.ok (fromParts_intoParts c)
  refine ⟨hlength, ?_⟩
  rw [← fromMetaLength_eq_fromMetaHeader postcard]
  · exact hlength
  · intro metadata hdecode
    rw [metaBytes, postcard.decode_encode, Except.ok.injEq] at hdecode
    subst hdecode
    exact ⟨rfl, hlen⟩

/-- An in-memory store that holds the pair, read through `served` by all three readers. -/
theorem serves_served {db : Mem.State} {linksEntry metaEntry : Mem.Entry}
    (hlinks : db.get root = some linksEntry) (hcomplete : linksEntry.complete = true)
    (hdata : linksEntry.data = (HashSeq.ofHashes (metaHash :: links)).bytes)
    (hmeta : db.get metaHash = some metaEntry) (hmetaData : metaEntry.data = metaBytes) :
    Serves root metaHash links metaBytes (served db) db (served db root) (served db) := by
  have hroot : served db root = .ok (HashSeq.ofHashes (metaHash :: links)).bytes := by
    simp only [served, hlinks, hdata]
  have hchild : served db metaHash = .ok metaBytes := by
    simp only [served, hmeta, hmetaData]
  exact ⟨hroot, hchild, ⟨linksEntry, hlinks, hcomplete, hdata⟩, ⟨metaEntry, hmeta, hmetaData⟩,
    hroot, hchild⟩

/-- **What the three readers read from sources that serve one pair of blobs**: `load` and
`load_db` the result of the length check, `read_fsm` that of the header check. -/
theorem Serves.readers {store : Hash → Except String (List UInt8)} {db : Mem.State}
    {rootData : Except String (List UInt8)} {childData : Hash → Except String (List UInt8)}
    (hs : Serves root metaHash links metaBytes store db rootData childData) :
    load postcard root store = fromMetaLength postcard links metaBytes ∧
      loadDb postcard db root = fromMetaLength postcard links metaBytes ∧
      (readFsm postcard rootData true childData).map Prod.snd =
        fromMetaHeader postcard links metaBytes := by
  obtain ⟨linksEntry, hlinks, hcomplete, hdata⟩ := hs.db_root
  obtain ⟨metaEntry, hmeta, hmetaData⟩ := hs.db_meta
  refine ⟨load_eq postcard hs.store_root hs.store_meta,
    loadDb_eq postcard hlinks hcomplete hdata hmeta hmetaData, ?_⟩
  rw [readFsm_eq postcard hs.root_data hs.child_data]
  cases fromMetaHeader postcard links metaBytes <;> rfl

/-- The three readers agree on a pair whose metadata blob has the header and names each
link, or does not decode. -/
theorem readers_agree_of_wellFormed {store : Hash → Except String (List UInt8)} {db : Mem.State}
    {rootData : Except String (List UInt8)} {childData : Hash → Except String (List UInt8)}
    (hs : Serves root metaHash links metaBytes store db rootData childData)
    (hwf : ∀ metadata, postcard.decode metaBytes = .ok metadata →
      metadata.header = HEADER ∧ metadata.names.length = links.length) :
    loadDb postcard db root = load postcard root store ∧
      (readFsm postcard rootData true childData).map Prod.snd = load postcard root store := by
  obtain ⟨hload, hdb, hfsm⟩ := hs.readers postcard
  rw [hload, hdb, hfsm]
  exact ⟨rfl, (fromMetaLength_eq_fromMetaHeader postcard hwf).symm⟩

end Readers

/-- **`load` reads back what `to_blobs` writes**, from any store that holds the blobs,
at the hash of the last one. -/
theorem load_toBlobs (c : Collection) (store : Hash → Except String (List UInt8))
    (hstore : ∀ b ∈ c.toBlobs postcard blake3, store (blake3 b) = .ok b) :
    load postcard (blake3 (HashSeq.ofHashes (blake3 (c.metaBytes postcard) :: c.links)).bytes) store =
      .ok c := by
  have hmeta : store (blake3 (c.metaBytes postcard)) = .ok (c.metaBytes postcard) :=
    hstore _ (by simp)
  have hlinks : store (blake3 (HashSeq.ofHashes (blake3 (c.metaBytes postcard) :: c.links)).bytes) =
      .ok (HashSeq.ofHashes (blake3 (c.metaBytes postcard) :: c.links)).bytes :=
    hstore _ (by simp)
  rw [load_eq postcard hlinks hmeta]
  exact (fromMeta_metaBytes postcard c).1

/-- `read_fsm` reads back what `to_blobs` writes, from a response that carries the hash
sequence as the root blob and the metadata blob at its first hash. -/
theorem readFsm_toBlobs (c : Collection) {rootData : Except String (List UInt8)}
    {childData : Hash → Except String (List UInt8)}
    (hroot : rootData = .ok (HashSeq.ofHashes (blake3 (c.metaBytes postcard) :: c.links)).bytes)
    (hchild : childData (blake3 (c.metaBytes postcard)) = .ok (c.metaBytes postcard)) :
    readFsm postcard rootData true childData =
      .ok (HashSeq.ofHashes (blake3 (c.metaBytes postcard) :: c.links), c) := by
  rw [readFsm_eq postcard hroot hchild, (fromMeta_metaBytes postcard c).2]
  rfl

/-- **`store` imports the blobs of `to_blobs`**, byte for byte, the hash sequence last;
the root it returns is that blob's hash. -/
theorem store_eq_imports (c : Collection) (db : Mem.State) :
    c.store postcard blake3 db =
      let (db₁, metaTag) := db.importBytes blake3 (c.metaBytes postcard) .raw
      let (db₂, linksTag) := db₁.importBytes blake3
        (HashSeq.ofHashes (blake3 (c.metaBytes postcard) :: c.links)).bytes .hashSeq
      (db₂.dropTempTag metaTag, linksTag) :=
  rfl

/-- `load_db` on entries that hold the blobs of `to_blobs`: the hash sequence,
complete, at the root, and the metadata at its hash, complete or not. -/
theorem loadDb_of_get (c : Collection) (db : Mem.State) (root : Hash) (linksEntry metaEntry : Mem.Entry)
    (hlinks : db.get root = some linksEntry) (hcomplete : linksEntry.complete = true)
    (hdata : linksEntry.data = (HashSeq.ofHashes (blake3 (c.metaBytes postcard) :: c.links)).bytes)
    (hmeta : db.get (blake3 (c.metaBytes postcard)) = some metaEntry)
    (hmetaData : metaEntry.data = c.metaBytes postcard) :
    loadDb postcard db root = .ok c := by
  rw [loadDb_eq postcard hlinks hcomplete hdata hmeta hmetaData]
  exact (fromMeta_metaBytes postcard c).1

/-- The entry at the root of a stored collection: its hash sequence, complete. -/
theorem get_store_root (c : Collection) (db : Mem.State) :
    (c.store postcard blake3 db).1.get (c.store postcard blake3 db).2.hash =
      some ⟨blake3 (HashSeq.ofHashes (blake3 (c.metaBytes postcard) :: c.links)).bytes,
        (HashSeq.ofHashes (blake3 (c.metaBytes postcard) :: c.links)).bytes, true⟩ := by
  rw [store_eq_imports]
  simp only [Mem.State.get_dropTempTag, Mem.State.importBytes_snd, TempTag.hash_mk,
    Mem.State.get_importBytes, if_pos]

/-- The entry at the metadata's hash of a stored collection, when the hash sequence did
not replace it. -/
theorem get_store_metadata (c : Collection) (db : Mem.State)
    (hdistinct : blake3 (c.metaBytes postcard) ≠
      blake3 (HashSeq.ofHashes (blake3 (c.metaBytes postcard) :: c.links)).bytes) :
    (c.store postcard blake3 db).1.get (blake3 (c.metaBytes postcard)) =
      some ⟨blake3 (c.metaBytes postcard), c.metaBytes postcard, true⟩ := by
  rw [store_eq_imports]
  simp only [Mem.State.get_dropTempTag, Mem.State.get_importBytes, if_neg hdistinct, if_pos]

/-- **`load_db` reads back what `store` writes** into any in-memory store, when the two
blobs of the collection have different hashes. -/
theorem loadDb_store (c : Collection) (db : Mem.State)
    (hdistinct : blake3 (c.metaBytes postcard) ≠
      blake3 (HashSeq.ofHashes (blake3 (c.metaBytes postcard) :: c.links)).bytes) :
    loadDb postcard (c.store postcard blake3 db).1 (c.store postcard blake3 db).2.hash = .ok c :=
  loadDb_of_get postcard blake3 c _ _ _ _ (get_store_root postcard blake3 c db) rfl rfl
    (get_store_metadata postcard blake3 c db hdistinct) rfl

/-- `load_db` checks the completeness of the links entry twice and never that of the
metadata entry: it reads a stored collection back with the metadata entry partial. -/
theorem loadDb_partial_metadata (c : Collection) (db : Mem.State)
    (hdistinct : blake3 (c.metaBytes postcard) ≠
      blake3 (HashSeq.ofHashes (blake3 (c.metaBytes postcard) :: c.links)).bytes) :
    loadDb postcard
      { (c.store postcard blake3 db).1 with
        entries := (c.store postcard blake3 db).1.entries.insert (blake3 (c.metaBytes postcard))
          ⟨blake3 (c.metaBytes postcard), c.metaBytes postcard, false⟩ }
      (c.store postcard blake3 db).2.hash = .ok c := by
  have hroot : (c.store postcard blake3 db).2.hash ≠ blake3 (c.metaBytes postcard) := by
    rw [store_eq_imports]
    exact Ne.symm hdistinct
  exact loadDb_of_get postcard blake3 c _ _ _ _
    ((AList.lookup_insert_ne hroot).trans (get_store_root postcard blake3 c db)) rfl rfl
    (AList.lookup_insert _) rfl

/-- **The collection format round-trips.** For every codec that reads back what it
writes and every hash function: `load` reads the collection back from any store that
holds the blobs of `to_blobs`, at the hash of the last one; `store` imports exactly
those blobs, the hash sequence last; and `load_db` reads back what `store` wrote into
any in-memory store, when the blobs have different hashes. -/
theorem collection_round_trip (c : Collection) (store : Hash → Except String (List UInt8))
    (hstore : ∀ b ∈ c.toBlobs postcard blake3, store (blake3 b) = .ok b) (db : Mem.State)
    (hdistinct : ((c.toBlobs postcard blake3).map blake3).Nodup) :
    (∀ root, (c.toBlobs postcard blake3).getLast? = some root →
      load postcard (blake3 root) store = .ok c) ∧
    (∃ metaBytes linksBytes, c.toBlobs postcard blake3 = [metaBytes, linksBytes] ∧
      c.store postcard blake3 db =
        let (db₁, metaTag) := db.importBytes blake3 metaBytes .raw
        let (db₂, linksTag) := db₁.importBytes blake3 linksBytes .hashSeq
        (db₂.dropTempTag metaTag, linksTag)) ∧
    loadDb postcard (c.store postcard blake3 db).1 (c.store postcard blake3 db).2.hash = .ok c := by
  refine ⟨fun root hroot => ?_, ⟨_, _, toBlobs_eq postcard blake3 c, store_eq_imports postcard blake3 c db⟩,
    loadDb_store postcard blake3 c db ?_⟩
  · simp only [toBlobs_eq, List.getLast?_cons_cons, List.getLast?_singleton, Option.some.injEq] at hroot
    subst hroot
    exact load_toBlobs postcard blake3 c store hstore
  · simpa using hdistinct

end

end Collection

/-! ### A codec for the metadata

An encoding of `CollectionMeta` that reads back what it writes, to run the format on:
the header's bytes, then each name as three bytes per character closed by 255, and 254
after the last name. The first byte of a character is at most 16. -/

namespace CollectionMeta

/-- A character as three bytes, the high one first. -/
def encodeChar (c : Char) : List UInt8 :=
  [UInt8.ofNat (c.toNat / 65536), UInt8.ofNat (c.toNat / 256 % 256), UInt8.ofNat (c.toNat % 256)]

/-- The character of three bytes. -/
def decodeChar (a b c : UInt8) : Char := Char.ofNat (a.toNat * 65536 + b.toNat * 256 + c.toNat)

/-- The names, each closed by 255, and 254 after them. -/
def encodeNames : List String → List UInt8
  | [] => [254]
  | name :: names => name.toList.flatMap encodeChar ++ 255 :: encodeNames names

/-- Read names, with the characters `cs` of the current one read so far. -/
def decodeNames (cs : List Char) : List UInt8 → Option (List String × List UInt8)
  | [] => none
  | a :: bytes =>
    if a = 255 then (decodeNames [] bytes).map fun r => (String.ofList cs :: r.1, r.2)
    else if a = 254 ∧ cs = [] then some ([], bytes)
    else
      match bytes with
      | b :: c :: bytes => decodeNames (cs ++ [decodeChar a b c]) bytes
      | _ => none

/-- The encoding. -/
def encode (metadata : CollectionMeta) : List UInt8 :=
  metadata.header.toList ++ encodeNames metadata.names

/-- The decoding: thirteen header bytes, then the names up to the end. -/
def decode (bytes : List UInt8) : Except String CollectionMeta :=
  if h : (bytes.take 13).length = 13 then
    match decodeNames [] (bytes.drop 13) with
    | some (names, []) => .ok ⟨⟨(bytes.take 13).toArray, by simpa using h⟩, names⟩
    | _ => .error "invalid metadata"
  else .error "invalid metadata"

theorem toNat_lt (c : Char) : c.toNat < 0x110000 := by
  have h := c.valid
  simp only [UInt32.isValidChar, Nat.isValidChar] at h
  show c.val.toNat < _
  omega

theorem decodeChar_encodeChar (c : Char) :
    decodeChar (UInt8.ofNat (c.toNat / 65536)) (UInt8.ofNat (c.toNat / 256 % 256))
      (UInt8.ofNat (c.toNat % 256)) = c := by
  have hlt := toNat_lt c
  have hsum : (c.toNat / 65536 % 256) * 65536 + (c.toNat / 256 % 256 % 256) * 256 +
      c.toNat % 256 % 256 = c.toNat := by omega
  simp only [decodeChar, UInt8.toNat_ofNat', Nat.reducePow, hsum, Char.ofNat_toNat]

/-- The first byte of a character is neither of the two markers. -/
theorem encodeChar_first (c : Char) :
    UInt8.ofNat (c.toNat / 65536) ≠ 255 ∧ UInt8.ofNat (c.toNat / 65536) ≠ 254 := by
  have hlt := toNat_lt c
  constructor <;> intro h <;> have := congrArg UInt8.toNat h <;>
    simp only [UInt8.toNat_ofNat', UInt8.toNat_ofNat, Nat.reducePow, Nat.reduceMod] at this <;> omega

theorem decodeNames_chars (cs chars : List Char) (rest : List UInt8) :
    decodeNames cs (chars.flatMap encodeChar ++ 255 :: rest) = decodeNames (cs ++ chars) (255 :: rest) := by
  induction chars generalizing cs with
  | nil => simp
  | cons c chars ih =>
    obtain ⟨h255, h254⟩ := encodeChar_first c
    simp only [List.flatMap_cons, encodeChar, List.cons_append, List.nil_append, decodeNames,
      if_neg h255, h254, false_and, if_false, decodeChar_encodeChar]
    rw [ih]
    simp

theorem decodeNames_encodeNames (names : List String) (rest : List UInt8) :
    decodeNames [] (encodeNames names ++ rest) = some (names, rest) := by
  induction names with
  | nil =>
    rw [encodeNames, List.cons_append, List.nil_append, decodeNames.eq_def]
    simp
  | cons name names ih =>
    rw [encodeNames, List.append_assoc, List.cons_append, decodeNames_chars, decodeNames.eq_def]
    simp [ih]

theorem decode_encode (metadata : CollectionMeta) : decode (encode metadata) = .ok metadata := by
  obtain ⟨⟨header, hsize⟩, names⟩ := metadata
  have hlen : header.toList.length = 13 := by simpa using hsize
  have htake : (header.toList ++ encodeNames names).take 13 = header.toList := by
    rw [List.take_append_of_le_length (by omega), List.take_of_length_le (by omega)]
  have hdrop : (header.toList ++ encodeNames names).drop 13 = encodeNames names := by
    rw [List.drop_append_of_le_length (by omega), List.drop_of_length_le (by omega), List.nil_append]
  have hnames := decodeNames_encodeNames names []
  rw [List.append_nil] at hnames
  simp only [decode, encode, Vector.toList_mk, htake, hdrop, hnames, hlen, dite_true]

/-- The codec. -/
def codec : Codec CollectionMeta := ⟨encode, decode, decode_encode⟩

end CollectionMeta

namespace Collection

/-- A hash of a blob's length. -/
def lengthHash (bytes : List UInt8) : Hash := ⟨UInt8.ofNat bytes.length :: List.replicate 31 0, rfl⟩

/-- The hash of every blob is zero. -/
def zeroHash (_bytes : List UInt8) : Hash := ⟨List.replicate 32 0, rfl⟩

/-- One link, named `a`, through a store that holds the two blobs. -/
theorem collection_round_trip_one_link :
    let c : Collection := ⟨[("a", zeroHash [])]⟩
    let blobs := c.toBlobs CollectionMeta.codec lengthHash
    let store : Hash → Except String (List UInt8) := fun h =>
      if h = lengthHash blobs[0]! then .ok blobs[0]!
      else if h = lengthHash blobs[1]! then .ok blobs[1]! else .error "not found"
    (∀ b ∈ blobs, store (lengthHash b) = .ok b) ∧ (blobs.map lengthHash).Nodup ∧
    ((∀ root, blobs.getLast? = some root → load CollectionMeta.codec (lengthHash root) store = .ok c) ∧
      (∃ metaBytes linksBytes, blobs = [metaBytes, linksBytes] ∧
        c.store CollectionMeta.codec lengthHash Mem.State.empty =
          let (db₁, metaTag) := Mem.State.empty.importBytes lengthHash metaBytes .raw
          let (db₂, linksTag) := db₁.importBytes lengthHash linksBytes .hashSeq
          (db₂.dropTempTag metaTag, linksTag)) ∧
      loadDb CollectionMeta.codec (c.store CollectionMeta.codec lengthHash Mem.State.empty).1
        (c.store CollectionMeta.codec lengthHash Mem.State.empty).2.hash = .ok c) := by
  intro c blobs store
  have hstore : ∀ b ∈ blobs, store (lengthHash b) = .ok b := by decide
  have hdistinct : (blobs.map lengthHash).Nodup := by decide
  exact ⟨hstore, hdistinct, collection_round_trip CollectionMeta.codec lengthHash c store hstore
    Mem.State.empty hdistinct⟩

/-- The collection of one link, read back by `read_fsm` from the blobs `to_blobs` writes. -/
theorem readFsm_toBlobs_one_link :
    let c : Collection := ⟨[("a", zeroHash [])]⟩
    let metaBytes := c.metaBytes CollectionMeta.codec
    readFsm CollectionMeta.codec (.ok (HashSeq.ofHashes (lengthHash metaBytes :: c.links)).bytes) true
        (fun _ => .ok metaBytes) =
      .ok (HashSeq.ofHashes (lengthHash metaBytes :: c.links), c) := by
  intro c metaBytes
  exact readFsm_toBlobs CollectionMeta.codec lengthHash c rfl rfl

/-- An in-memory store that holds a metadata blob and the hash sequence of its hash and one
link, both imported complete with their lengths as hashes. -/
def pairStore (metadata : CollectionMeta) (link : Hash) : Mem.State :=
  let metaBytes := CollectionMeta.encode metadata
  let db := (Mem.State.empty.importBytes lengthHash metaBytes .raw).1
  (db.importBytes lengthHash (HashSeq.ofHashes [lengthHash metaBytes, link]).bytes .hashSeq).1

/-- The root of `pairStore`: the hash of its hash sequence. -/
def pairRoot (metadata : CollectionMeta) (link : Hash) : Hash :=
  lengthHash (HashSeq.ofHashes [lengthHash (CollectionMeta.encode metadata), link]).bytes

theorem collection_readers_disagree :
    let foreign : CollectionMeta := ⟨Vector.replicate 13 0, ["a"]⟩
    let unnamed : CollectionMeta := ⟨HEADER, []⟩
    let link := zeroHash []
    (load CollectionMeta.codec (pairRoot foreign link) (served (pairStore foreign link)) =
        .ok ⟨[("a", link)]⟩ ∧
      loadDb CollectionMeta.codec (pairStore foreign link) (pairRoot foreign link) =
        .ok ⟨[("a", link)]⟩ ∧
      (readFsm CollectionMeta.codec (served (pairStore foreign link) (pairRoot foreign link)) true
        (served (pairStore foreign link))).map Prod.snd =
        .error "expected header [67, 111, 108, 108, 101, 99, 116, 105, 111, 110, 86, 48, 46], got [0, 0, 0, 0, 0, 0, 0, 0, 0, 0, 0, 0, 0]") ∧
    (load CollectionMeta.codec (pairRoot unnamed link) (served (pairStore unnamed link)) =
        .error "names and links length mismatch" ∧
      loadDb CollectionMeta.codec (pairStore unnamed link) (pairRoot unnamed link) =
        .error "names and links length mismatch" ∧
      (readFsm CollectionMeta.codec (served (pairStore unnamed link) (pairRoot unnamed link)) true
        (served (pairStore unnamed link))).map Prod.snd = .ok ⟨[]⟩) := by
  decide

/-- A pair whose metadata has the header and one name for its one link: the three readers
agree. -/
theorem readers_agree_of_wellFormed_pair :
    let good : CollectionMeta := ⟨HEADER, ["a"]⟩
    let link := zeroHash []
    Serves (pairRoot good link) (lengthHash (CollectionMeta.encode good)) [link] (CollectionMeta.encode good)
        (served (pairStore good link)) (pairStore good link)
        (served (pairStore good link) (pairRoot good link)) (served (pairStore good link)) ∧
      (∀ metadata, CollectionMeta.codec.decode (CollectionMeta.encode good) = .ok metadata →
        metadata.header = HEADER ∧ metadata.names.length = [link].length) ∧
      loadDb CollectionMeta.codec (pairStore good link) (pairRoot good link) =
          load CollectionMeta.codec (pairRoot good link) (served (pairStore good link)) ∧
        (readFsm CollectionMeta.codec (served (pairStore good link) (pairRoot good link)) true
          (served (pairStore good link))).map Prod.snd =
          load CollectionMeta.codec (pairRoot good link) (served (pairStore good link)) := by
  intro good link
  have hs : Serves (pairRoot good link) (lengthHash (CollectionMeta.encode good)) [link]
      (CollectionMeta.encode good) (served (pairStore good link)) (pairStore good link)
      (served (pairStore good link) (pairRoot good link)) (served (pairStore good link)) :=
    serves_served rfl rfl rfl rfl rfl
  have hwf : ∀ metadata, CollectionMeta.codec.decode (CollectionMeta.encode good) = .ok metadata →
      metadata.header = HEADER ∧ metadata.names.length = [link].length := by
    intro metadata hm
    rw [show CollectionMeta.codec.decode (CollectionMeta.encode good) = .ok good from
      CollectionMeta.decode_encode good] at hm
    cases hm
    exact ⟨rfl, rfl⟩
  exact ⟨hs, hwf, readers_agree_of_wellFormed CollectionMeta.codec hs hwf⟩

/-- One link named `a`, stored into the empty store, its metadata entry then made partial. -/
theorem loadDb_partial_metadata_one_link :
    let c : Collection := ⟨[("a", zeroHash [])]⟩
    lengthHash (c.metaBytes CollectionMeta.codec) ≠
        lengthHash (HashSeq.ofHashes (lengthHash (c.metaBytes CollectionMeta.codec) :: c.links)).bytes ∧
      loadDb CollectionMeta.codec
        { (c.store CollectionMeta.codec lengthHash Mem.State.empty).1 with
          entries := (c.store CollectionMeta.codec lengthHash Mem.State.empty).1.entries.insert
            (lengthHash (c.metaBytes CollectionMeta.codec))
            ⟨lengthHash (c.metaBytes CollectionMeta.codec), c.metaBytes CollectionMeta.codec, false⟩ }
        (c.store CollectionMeta.codec lengthHash Mem.State.empty).2.hash = .ok c := by
  intro c
  have hd : lengthHash (c.metaBytes CollectionMeta.codec) ≠
      lengthHash (HashSeq.ofHashes (lengthHash (c.metaBytes CollectionMeta.codec) :: c.links)).bytes := by
    decide
  exact ⟨hd, loadDb_partial_metadata CollectionMeta.codec lengthHash c Mem.State.empty hd⟩

end Collection

end Iroh.Blobs
