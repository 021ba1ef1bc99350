import Iroh.Blobs.HashSeq

/-! The in-memory blob store (`store/mem.rs`) and what the stores share (`store.rs`,
`util.rs`).

The store is a map from hashes to entries, a map from tag names to what they
pin, and the counters of the temp tags that are alive. Every operation takes the
write lock for its whole body, so each is one step on the state. The maps are
Mathlib's association lists; a `BTreeMap` iterates in key order, which nothing
here depends on but the order in which batches are formed.

An entry's data is the data of its `MutableMemStorage`; its outboard and sizes are
not modelled, as nothing read here depends on them. -/

namespace Iroh.Blobs

/-- `Tag`: the name of a tag. -/
structure Tag where
  bytes : List UInt8
deriving DecidableEq

/-- `Tag::from(String)`. -/
def Tag.ofString (text : String) : Tag := ⟨text.toUTF8.toList⟩

/-- The candidate names of `Tag::auto` for the formatted time `now`. -/
def Tag.autoCandidate (now : String) (i : Nat) : Tag :=
  .ofString ("auto-" ++ now ++ if i ≠ 0 then "-" ++ toString i else "")

/-- The loop of `Tag::auto`, trying at most `fuel` candidates from `i` on. -/
def Tag.autoLoop (now : String) (taken : Tag → Bool) : Nat → Nat → Tag
  | i, 0 => autoCandidate now i
  | i, fuel + 1 => if taken (autoCandidate now i) then autoLoop now taken (i + 1) fuel
    else autoCandidate now i

/-- `Tag::auto`: the first candidate that does not exist. Among `bound + 1`
distinct candidates one is free when at most `bound` names exist, which is the
fuel the stores pass. -/
def Tag.auto (now : String) (taken : Tag → Bool) (bound : Nat) : Tag :=
  autoLoop now taken 0 bound

/-- `TempTag`: pins its hash and format while it is held. -/
structure TempTag where
  inner : HashAndFormat
deriving DecidableEq

/-- `TempTag::hash`. -/
def TempTag.hash (tag : TempTag) : Hash := tag.inner.hash

@[simp] theorem TempTag.hash_mk (value : HashAndFormat) : (TempTag.mk value).hash = value.hash := rfl

/-- `TempCounters`: the number of live temp tags of each format. -/
structure TempCounters where
  raw : Nat
  hashSeq : Nat
deriving DecidableEq

namespace TempCounters

/-- `TempCounters::default`. -/
def zero : TempCounters := ⟨0, 0⟩

/-- `TempCounters::inc`. -/
def inc (c : TempCounters) : BlobFormat → TempCounters
  | .raw => { c with raw := c.raw + 1 }
  | .hashSeq => { c with hashSeq := c.hashSeq + 1 }

/-- `TempCounters::dec`, saturating. -/
def dec (c : TempCounters) : BlobFormat → TempCounters
  | .raw => { c with raw := c.raw - 1 }
  | .hashSeq => { c with hashSeq := c.hashSeq - 1 }

/-- `TempCounters::is_empty`. -/
def isEmpty (c : TempCounters) : Bool := c.raw == 0 && c.hashSeq == 0

end TempCounters

/-- `TempCounterMap`. -/
abbrev TempCounterMap := AList fun _ : Hash => TempCounters

namespace TempCounterMap

/-- `TempCounterMap::inc`. -/
def inc (m : TempCounterMap) (value : HashAndFormat) : TempCounterMap :=
  m.insert value.hash (((m.lookup value.hash).getD .zero).inc value.format)

/-- `TempCounterMap::dec`: a counter that drops to zero goes. -/
def dec (m : TempCounterMap) (value : HashAndFormat) : TempCounterMap :=
  match m.lookup value.hash with
  | none => m
  | some counters =>
    let counters := counters.dec value.format
    if counters.isEmpty then m.erase value.hash else m.insert value.hash counters

/-- `TempCounterMap::contains`. -/
def contains (m : TempCounterMap) (hash : Hash) : Bool := (m.lookup hash).isSome

/-- `TempCounterMap::keys`: a pin per hash and format with a live temp tag. -/
def keys (m : TempCounterMap) : List HashAndFormat :=
  m.entries.flatMap fun entry =>
    (if entry.2.raw > 0 then [HashAndFormat.raw entry.1] else []) ++
      (if entry.2.hashSeq > 0 then [HashAndFormat.hashSeq entry.1] else [])

@[simp] theorem contains_inc (m : TempCounterMap) (value : HashAndFormat) (hash : Hash) :
    (m.inc value).contains hash = (hash = value.hash || m.contains hash) := by
  by_cases h : hash = value.hash
  · subst h
    simp [contains, inc, AList.lookup_insert]
  · simp [contains, inc, AList.lookup_insert_ne h, h]

end TempCounterMap

namespace Mem

/-- `Entry`: an entry of the store, complete or partial, with its data. -/
structure Entry where
  hash : Hash
  data : List UInt8
  complete : Bool

/-- `StateInner`. -/
structure State where
  entries : AList fun _ : Hash => Entry
  tags : AList fun _ : Tag => HashAndFormat
  temp : TempCounterMap

namespace State

/-- `Store::new`. -/
def empty : State := ⟨∅, ∅, ∅⟩

section
variable (blake3 : List UInt8 → Hash)

/-- `import_bytes_sync`: pin the content with a temp tag, then store it complete
under its hash. -/
def importBytes (s : State) (bytes : List UInt8) (format : BlobFormat) : State × TempTag :=
  let hash := blake3 bytes
  let tag : TempTag := ⟨⟨hash, format⟩⟩
  ({ s with
    temp := s.temp.inc tag.inner
    entries := s.entries.insert hash ⟨hash, bytes, true⟩ }, tag)

end

/-- `Store::temp_tag`: a new temp tag counts. -/
def tempTag (s : State) (value : HashAndFormat) : State × TempTag :=
  ({ s with temp := s.temp.inc value }, ⟨value⟩)

/-- `TagDrop::on_drop`: dropping a temp tag uncounts it. -/
def dropTempTag (s : State) (tag : TempTag) : State :=
  { s with temp := s.temp.dec tag.inner }

/-- `set_tag`: set the tag, or remove it. -/
def setTag (s : State) (name : Tag) : Option HashAndFormat → State
  | some value => { s with tags := s.tags.insert name value }
  | none => { s with tags := s.tags.erase name }

/-- `create_tag`: a fresh automatic name for the value. -/
def createTag (s : State) (now : String) (value : HashAndFormat) : State × Tag :=
  let tag := Tag.auto now (fun x => (s.tags.lookup x).isSome) s.tags.entries.length
  ({ s with tags := s.tags.insert tag value }, tag)

/-- `delete`: remove every hash that no temp tag pins. -/
def delete (s : State) (hashes : List Hash) : State :=
  hashes.foldl (fun s hash =>
    if !s.temp.contains hash then { s with entries := s.entries.erase hash } else s) s

/-- `insert_complete`: store the entry as complete, unless a complete one is there. -/
def insertComplete (s : State) (entry : Entry) : State :=
  let complete := ((s.entries.lookup entry.hash).map (·.complete)).getD false
  if !complete then { s with entries := s.entries.insert entry.hash { entry with complete := true } }
  else s

/-- `get_or_create`: a fresh partial entry, which the store does not keep. -/
def getOrCreate (_s : State) (hash : Hash) : Entry := ⟨hash, [], false⟩

/-- `Map::get`. -/
def get (s : State) (hash : Hash) : Option Entry := s.entries.lookup hash

/-- `blobs`: the hashes of the complete entries. -/
def blobs (s : State) : List Hash :=
  (s.entries.entries.filter fun entry => entry.2.complete).map (·.2.hash)

/-- `partial_blobs`: the hashes of the partial entries. -/
def partialBlobs (s : State) : List Hash :=
  (s.entries.entries.filter fun entry => !entry.2.complete).map (·.2.hash)

/-- `tags`: what the tags pin. -/
def tagValues (s : State) : List HashAndFormat := s.tags.entries.map (·.2)

/-- `temp_tags`. -/
def tempTags (s : State) : List HashAndFormat := s.temp.keys

@[simp] theorem importBytes_snd (blake3 : List UInt8 → Hash) (s : State) (bytes : List UInt8)
    (format : BlobFormat) : (s.importBytes blake3 bytes format).2 = ⟨⟨blake3 bytes, format⟩⟩ := rfl

@[simp] theorem get_importBytes (blake3 : List UInt8 → Hash) (s : State) (bytes : List UInt8)
    (format : BlobFormat) (hash : Hash) :
    (s.importBytes blake3 bytes format).1.get hash =
      if hash = blake3 bytes then some ⟨blake3 bytes, bytes, true⟩ else s.get hash := by
  by_cases h : hash = blake3 bytes
  · subst h
    simp [get, importBytes, AList.lookup_insert]
  · simp [get, importBytes, AList.lookup_insert_ne h, h]

@[simp] theorem get_dropTempTag (s : State) (tag : TempTag) (hash : Hash) :
    (s.dropTempTag tag).get hash = s.get hash := rfl

/-- What `delete` keeps: the pinned hashes and those it was not given. -/
theorem get_delete {s : State} {hashes : List Hash} {hash : Hash}
    (h : hash ∉ hashes ∨ s.temp.contains hash = true) : (s.delete hashes).get hash = s.get hash := by
  induction hashes generalizing s with
  | nil => rfl
  | cons x hashes ih =>
    simp only [delete, List.foldl_cons] at ih ⊢
    split
    · rename_i hx
      have hne : hash ≠ x := by
        rintro rfl
        simp_all
      rw [ih (by simpa [hne] using h)]
      exact AList.lookup_erase_ne hne
    · exact ih (by simpa using h.imp (fun h' => by simp_all) id)

end State

end Mem

end Iroh.Blobs
