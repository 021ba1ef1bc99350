import Mathlib

/-! Hashes and hash sequences (`iroh-base`'s `Hash`, `hashseq.rs`).

A `Hash` is the 32 bytes of a BLAKE3 hash. A `HashSeq` is a byte string of hashes
one after the other: every way of building one (`HashSeq::new`, collecting hashes,
dropping hashes from the front) keeps its length a multiple of 32, which the
structure carries. Reading a sequence back gives the hashes it was built from
(`iter_ofHashes`), and so does taking them from the front (`popFront_ofHashes`);
these are the facts the collection format and the garbage collector rest on. -/

namespace Iroh.Blobs

/-- `Hash`: the 32 bytes of a BLAKE3 hash. -/
structure Hash where
  bytes : List UInt8
  length_bytes : bytes.length = 32
deriving DecidableEq

/-- `BlobFormat`. -/
inductive BlobFormat where
  | raw
  | hashSeq
deriving DecidableEq, Repr

/-- `BlobFormat::is_raw`. -/
def BlobFormat.isRaw : BlobFormat → Bool
  | .raw => true
  | .hashSeq => false

/-- `HashAndFormat`. -/
structure HashAndFormat where
  hash : Hash
  format : BlobFormat
deriving DecidableEq

/-- `HashAndFormat::raw`. -/
def HashAndFormat.raw (hash : Hash) : HashAndFormat := ⟨hash, .raw⟩

/-- `HashAndFormat::hash_seq`. -/
def HashAndFormat.hashSeq (hash : Hash) : HashAndFormat := ⟨hash, .hashSeq⟩

/-- `HashSeq`: a sequence of hashes, as the bytes of its hashes in order. -/
structure HashSeq where
  bytes : List UInt8
  length_mod : bytes.length % 32 = 0

theorem Hash.ext {a b : Hash} (h : a.bytes = b.bytes) : a = b := by
  cases a
  cases b
  cases h
  rfl

namespace HashSeq

theorem ext {s t : HashSeq} (h : s.bytes = t.bytes) : s = t := by
  cases s
  cases t
  cases h
  rfl

theorem length_flatMap_bytes (hashes : List Hash) :
    (hashes.flatMap Hash.bytes).length = 32 * hashes.length := by
  induction hashes with
  | nil => rfl
  | cons hash hashes ih =>
    rw [List.flatMap_cons, List.length_append, ih, hash.length_bytes, List.length_cons]
    omega

/-- `FromIterator<Hash>`: the bytes of the hashes, one after the other. -/
def ofHashes (hashes : List Hash) : HashSeq where
  bytes := hashes.flatMap Hash.bytes
  length_mod := by rw [length_flatMap_bytes]; omega

/-- `HashSeq::new`: bytes of a length that is a multiple of 32. -/
def new (bytes : List UInt8) : Option HashSeq :=
  if h : bytes.length % 32 = 0 then some ⟨bytes, h⟩ else none

/-- `TryFrom<Bytes>`. -/
def tryFrom (bytes : List UInt8) : Except String HashSeq :=
  match new bytes with
  | some s => .ok s
  | none => .error "invalid hash sequence"

/-- `HashSeq::len`. -/
def len (s : HashSeq) : Nat := s.bytes.length / 32

/-- `HashSeq::is_empty`. -/
def isEmpty (s : HashSeq) : Bool := s.bytes.isEmpty

theorem length_take_drop {s : HashSeq} {index : Nat} (h : index < s.len) :
    ((s.bytes.drop (index * 32)).take 32).length = 32 := by
  unfold len at h
  simp only [List.length_take, List.length_drop]
  omega

/-- `HashSeq::get`. -/
def get (s : HashSeq) (index : Nat) : Option Hash :=
  if h : index < s.len then some ⟨(s.bytes.drop (index * 32)).take 32, length_take_drop h⟩
  else none

/-- `HashSeq::iter`: the 32-byte chunks, in order. -/
def iter (s : HashSeq) : List Hash := (List.range s.len).filterMap s.get

/-- The rest of the sequence after its first hash. -/
def tail (s : HashSeq) : HashSeq where
  bytes := s.bytes.drop 32
  length_mod := by
    have := s.length_mod
    rw [List.length_drop]
    omega

/-- `HashSeq::pop_front`. -/
def popFront (s : HashSeq) : Option (Hash × HashSeq) :=
  if s.isEmpty then none
  else
    -- not empty, so a hash is at index 0 (`get(0).unwrap()`)
    match s.get 0 with
    | some hash => some (hash, s.tail)
    | none => none

/-- `HashSeq::drop_front`: the sequence without its first `n` hashes, unless it has
fewer. `n * 32` is `usize` arithmetic, which wraps in a release build. -/
def dropFront (s : HashSeq) (n : Nat) : Option HashSeq :=
  let start := n * 32 % 2 ^ 64
  if s.bytes.length < start then none
  else
    some ⟨s.bytes.drop start, by
      have := s.length_mod
      rw [List.length_drop]
      omega⟩

/-- `HashSeqStream::skip` on a 64-bit target, where `n as usize` keeps `n`. -/
def skip (s : HashSeq) (n : Nat) : Except String HashSeq :=
  match s.dropFront n with
  | some s => .ok s
  | none => .error "end of sequence"

@[simp] theorem bytes_ofHashes (hashes : List Hash) :
    (ofHashes hashes).bytes = hashes.flatMap Hash.bytes := rfl

@[simp] theorem len_ofHashes (hashes : List Hash) : (ofHashes hashes).len = hashes.length := by
  simp only [len, bytes_ofHashes, length_flatMap_bytes]
  omega

theorem new_bytes (s : HashSeq) : new s.bytes = some s := by
  simp [new, s.length_mod]

theorem tryFrom_bytes (s : HashSeq) : tryFrom s.bytes = .ok s := by
  simp [tryFrom, new_bytes]

/-- The bytes past the first `index` hashes are the bytes of the rest. -/
theorem drop_flatMap_bytes (hashes : List Hash) (index : Nat) :
    (hashes.flatMap Hash.bytes).drop (index * 32) = (hashes.drop index).flatMap Hash.bytes := by
  induction hashes generalizing index with
  | nil => simp
  | cons hash hashes ih =>
    cases index with
    | zero => simp
    | succ index =>
      rw [List.flatMap_cons, Nat.succ_mul, Nat.add_comm, ← List.drop_drop,
        List.drop_left' hash.length_bytes, ih, List.drop_succ_cons]

theorem get_ofHashes (hashes : List Hash) (index : Nat) :
    (ofHashes hashes).get index = hashes[index]? := by
  unfold get
  split
  · rename_i h
    rw [len_ofHashes] at h
    rw [List.getElem?_eq_getElem h, Option.some.injEq]
    have hdrop : hashes.drop index = hashes[index] :: hashes.drop (index + 1) :=
      List.drop_eq_getElem_cons h
    apply Hash.ext
    simp only [bytes_ofHashes, drop_flatMap_bytes, hdrop, List.flatMap_cons]
    rw [List.take_append_of_le_length (by rw [hashes[index].length_bytes]),
      List.take_of_length_le (by rw [hashes[index].length_bytes])]
  · rename_i h
    rw [len_ofHashes, not_lt] at h
    rw [List.getElem?_eq_none h]

/-- A sequence collected from hashes iterates over them. -/
theorem iter_ofHashes (hashes : List Hash) : (ofHashes hashes).iter = hashes := by
  unfold iter
  simp only [len_ofHashes, get_ofHashes]
  induction hashes with
  | nil => rfl
  | cons hash hashes ih => simp [List.range_succ_eq_map, List.filterMap_map, ih]

@[simp] theorem tail_ofHashes (hash : Hash) (hashes : List Hash) :
    (ofHashes (hash :: hashes)).tail = ofHashes hashes := by
  apply ext
  simp only [tail, bytes_ofHashes, List.flatMap_cons]
  exact List.drop_left' hash.length_bytes

/-- Popping the front of a collected sequence gives its first hash and the rest. -/
theorem popFront_ofHashes (hash : Hash) (hashes : List Hash) :
    (ofHashes (hash :: hashes)).popFront = some (hash, ofHashes hashes) := by
  have hne : (ofHashes (hash :: hashes)).isEmpty = false := by
    simp [isEmpty, hash.length_bytes, ← List.length_pos_iff_ne_nil]
  simp only [popFront, hne, Bool.false_eq_true, if_false, get_ofHashes,
    List.getElem?_cons_zero, tail_ofHashes]

/-- Dropping fewer than `2 ^ 59` hashes, where `n * 32` does not wrap. -/
theorem dropFront_ofHashes {n : Nat} (hn : n < 2 ^ 59) (hashes : List Hash) :
    (ofHashes hashes).dropFront n = if hashes.length < n then none else some (ofHashes (hashes.drop n)) := by
  have hstart : n * 32 % 2 ^ 64 = n * 32 := Nat.mod_eq_of_lt (by omega)
  have hlen : (ofHashes hashes).bytes.length = 32 * hashes.length := length_flatMap_bytes hashes
  unfold dropFront
  simp only [hstart, hlen]
  by_cases h : hashes.length < n
  · rw [if_pos (by omega), if_pos h]
  · rw [if_neg (by omega), if_neg h]
    congr 1
    apply ext
    exact drop_flatMap_bytes hashes n

/-- `n * 32` wraps every `2 ^ 59` hashes. -/
theorem dropFront_add_wrap (s : HashSeq) (n : Nat) : s.dropFront (n + 2 ^ 59) = s.dropFront n := by
  have hwrap : (n + 2 ^ 59) * 32 % 2 ^ 64 = n * 32 % 2 ^ 64 := by omega
  simp only [dropFront, hwrap]

end HashSeq

end Iroh.Blobs
