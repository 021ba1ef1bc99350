import Iroh.Docs.Ranger.SimpleStore

/-! The entries of a document (`sync.rs`): `RecordIdentifier`, `Record`, `Entry`
and `SignedEntry`, with the orders the ranger compares them by.

Fixed-size byte arrays (`NamespaceId`, `AuthorId`, `Hash`, `Signature`) are the
numbers their bytes spell big-endian: byte-wise comparison of two arrays of one
length is comparison of those numbers, and `increment_by_one` on them is adding
one (`incrementFixed`). A byte is a `Fin 256`. A `RecordIdentifier` is the bytes
namespace ‖ author ‖ key; with the first two of fixed length, its byte order is
the lexicographic order of the triple, and `is_prefix_of` (a prefix of the bytes)
is equal namespace and author with a key prefix.

Keys, hashes and signatures are data here; signing and verifying are left to the
replica as parameters (`Env`), and so is blake3 wherever the source hashes. -/
namespace Iroh.Docs

/-- A byte, `u8`. -/
abbrev Byte := Fin 256

/-- A 32-byte public key identifying a namespace. -/
abbrev NamespaceId := Fin (2 ^ 256)

/-- A 32-byte public key identifying an author. -/
abbrev AuthorId := Fin (2 ^ 256)

/-- A 32-byte blake3 hash. -/
abbrev Hash := Fin (2 ^ 256)

/-- A 64-byte ed25519 signature. -/
abbrev Signature := Fin (2 ^ 512)

/-- A byte's numerals are values of `Fin 256`. -/
scoped instance neZeroByteCard : NeZero (256 : Nat) := ⟨by decide⟩

/-- A key's numerals are values of `Fin (2 ^ 256)`. -/
scoped instance neZeroKeyCard : NeZero (2 ^ 256 : Nat) := ⟨by positivity⟩

/-- A signature's numerals are values of `Fin (2 ^ 512)`. -/
scoped instance neZeroSignatureCard : NeZero (2 ^ 512 : Nat) := ⟨by positivity⟩

/-- `Hash::EMPTY`, the hash of `b""`. -/
def Hash.EMPTY : Hash := 0xaf1349b9f5f9a1a6a0404dea36dcc9499bcb25c9adc112b7cc9a93cae41f3262

/-- `MAX_TIMESTAMP_FUTURE_SHIFT`: `10 * 60 * 1000`. Timestamps are microseconds
(`system_time_now`), so this allows 0.6 s, not the ten minutes its comment says. -/
def MAX_TIMESTAMP_FUTURE_SHIFT : UInt64 := 10 * 60 * 1000

/-- `increment_by_one` on a fixed-size array: the next array, if there is one. -/
def incrementFixed {n : Nat} (x : Fin n) : Option (Fin n) :=
  if h : x.val + 1 < n then some ⟨x.val + 1, h⟩ else none

/-! ### Records -/

/-- `Record`: the content's length and hash and the entry's timestamp. -/
structure Record where
  len : UInt64
  hash : Hash
  timestamp : UInt64
deriving DecidableEq, Repr

namespace Record

/-- `Record::empty`: the record of a deletion. -/
def empty (timestamp : UInt64) : Record := ⟨0, Hash.EMPTY, timestamp⟩

/-- `Record::is_empty`: the hash, not the length, decides. -/
def isEmpty (r : Record) : Bool := r.hash == Hash.EMPTY

/-- `impl Ord for Record`: by timestamp, then by hash; the length is not compared. -/
instance : LE Record := ⟨fun a b => a.timestamp < b.timestamp ∨ a.timestamp = b.timestamp ∧ a.hash ≤ b.hash⟩

instance : DecidableRel (α := Record) (· ≤ ·) :=
  fun _ _ => inferInstanceAs (Decidable (_ ∨ _))

end Record

/-! ### Record identifiers -/

/-- `RecordIdentifier`: namespace, author and key. -/
structure RecordIdentifier where
  ns : NamespaceId
  author : AuthorId
  key : List Byte
deriving DecidableEq, Repr

namespace RecordIdentifier

/-- The triple in lexicographic order, which is the order of the identifier's bytes. -/
def lexKey (r : RecordIdentifier) : NamespaceId ×ₗ AuthorId ×ₗ List Byte :=
  toLex (r.ns, toLex (r.author, r.key))

theorem lexKey_injective : Function.Injective lexKey := by
  rintro ⟨n₁, a₁, k₁⟩ ⟨n₂, a₂, k₂⟩ h
  simp only [lexKey, toLex_inj, Prod.mk.injEq] at h
  obtain ⟨rfl, rfl, rfl⟩ := h
  rfl

instance : LinearOrder RecordIdentifier := LinearOrder.lift' lexKey lexKey_injective

theorem lt_iff {a b : RecordIdentifier} : a < b ↔
    a.ns < b.ns ∨ a.ns = b.ns ∧ (a.author < b.author ∨ a.author = b.author ∧ a.key < b.key) := by
  show lexKey a < lexKey b ↔ _
  simp [lexKey, Prod.Lex.toLex_lt_toLex]

theorem le_iff {a b : RecordIdentifier} : a ≤ b ↔
    a.ns < b.ns ∨ a.ns = b.ns ∧ (a.author < b.author ∨ a.author = b.author ∧ a.key ≤ b.key) := by
  show lexKey a ≤ lexKey b ↔ _
  simp [lexKey, Prod.Lex.toLex_le_toLex]

theorem ns_le_of_le {a b : RecordIdentifier} (h : a ≤ b) : a.ns ≤ b.ns := by
  rcases le_iff.mp h with h | ⟨h, -⟩
  · exact h.le
  · exact h.le

/-- The least identifier of a namespace has the zero author and the empty key. -/
theorem start_le_iff {n : NamespaceId} {id : RecordIdentifier} :
    (⟨n, 0, []⟩ : RecordIdentifier) ≤ id ↔ n ≤ id.ns := by
  refine ⟨ns_le_of_le, fun h => ?_⟩
  rcases lt_or_eq_of_le h with h | h
  · exact le_iff.mpr (Or.inl h)
  · rcases lt_or_eq_of_le (Fin.zero_le id.author) with ha | ha
    · exact le_iff.mpr (Or.inr ⟨h, Or.inl ha⟩)
    · refine le_iff.mpr (Or.inr ⟨h, Or.inr ⟨ha, ?_⟩⟩)
      cases id.key with
      | nil => exact le_rfl
      | cons a l => exact Or.inr List.Lex.nil

theorem lt_start_iff {n : NamespaceId} {id : RecordIdentifier} :
    id < (⟨n, 0, []⟩ : RecordIdentifier) ↔ id.ns < n := by
  rw [← not_le, start_le_iff, not_le]

/-- `RecordIdentifier::default()`: the zero namespace and author and the empty key. -/
instance : Inhabited RecordIdentifier := ⟨⟨0, 0, []⟩⟩

/-- `is_prefix_of`: the bytes of one identifier start the other's. -/
instance : Ranger.RangeKey RecordIdentifier where
  isPrefixOf a b := a.ns == b.ns && a.author == b.author && a.key.isPrefixOf b.key
  prefix_refl k := by simp
  prefix_trans a b c hab hbc := by
    simp only [Bool.and_eq_true, beq_iff_eq, List.isPrefixOf_iff_prefix] at *
    exact ⟨⟨hab.1.1.trans hbc.1.1, hab.1.2.trans hbc.1.2⟩, hab.2.trans hbc.2⟩
  prefix_antisymm a b hab hba := by
    simp only [Bool.and_eq_true, beq_iff_eq, List.isPrefixOf_iff_prefix] at *
    obtain ⟨⟨hn, ha⟩, hk⟩ := hab
    have := hk.eq_of_length (le_antisymm hk.length_le hba.2.length_le)
    cases a
    cases b
    simp_all

theorem isPrefixOf_iff {a b : RecordIdentifier} :
    Ranger.RangeKey.isPrefixOf a b = true ↔ a.ns = b.ns ∧ a.author = b.author ∧ a.key <+: b.key := by
  show (a.ns == b.ns && a.author == b.author && a.key.isPrefixOf b.key) = true ↔ _
  simp [and_assoc]

end RecordIdentifier

/-! ### Entries -/

/-- `Entry`: an identifier and its record. -/
structure Entry where
  id : RecordIdentifier
  record : Record
deriving DecidableEq, Repr

/-- `EntrySignature`: the author's and the namespace's signatures of the entry. -/
structure EntrySignature where
  authorSignature : Signature
  namespaceSignature : Signature
deriving DecidableEq, Repr

/-- `SignedEntry`. -/
structure SignedEntry where
  signature : EntrySignature
  entry : Entry
deriving DecidableEq, Repr

/-- `ValidationFailure`. -/
inductive ValidationFailure where
  | invalidNamespace
  | badSignature
  | tooFarInTheFuture
  | invalidEmptyEntry
deriving DecidableEq, Repr

/-- `Entry::validate_empty`: the empty hash exactly when the length is zero. -/
def Entry.validateEmpty (e : Entry) : Except ValidationFailure Unit :=
  match e.record.hash == Hash.EMPTY, e.record.len == 0 with
  | true, true => .ok ()
  | false, false => .ok ()
  | true, false => .error .invalidEmptyEntry
  | false, true => .error .invalidEmptyEntry

/-- `SignedEntry` as a ranger entry: its identifier, its record, and `as_fingerprint`,
the blake3 hash of namespace, author, key, timestamp and content hash, which is a
parameter here. -/
def signedEntry (asFingerprint : SignedEntry → Ranger.Fingerprint) :
    Ranger.RangeEntry SignedEntry RecordIdentifier Record :=
  ⟨fun e => e.entry.id, fun e => e.entry.record, asFingerprint⟩

end Iroh.Docs
