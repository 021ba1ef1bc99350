import Iroh.Docs.Entry

/-! The on-disk store (`store/fs.rs`) as seen by one replica: `StoreInstance`, the
ranger `Store` over the records table restricted to a namespace.

The records table maps `(namespace, author, key)` to `RecordsValue`; it is a list
of rows strictly sorted by identifier (`Records`). A range read of redb with bounds
(`RecordsBounds`) is the rows within them, in order; bounds whose start lies past
their end read nothing. The store's other tables are written by `entry_put` but read
by nothing modelled here, and storage errors are not modelled.

Two reads carry what this store does: `parents`, which is what `Store::put`
asks for the entries at prefixes of a new key, and `get_range`, which is what the
reconciliation reads. `get_range` reads a range between its ends, as the
records' `contains` says (`getRange_agrees_with_contains`). -/
namespace Iroh.Docs.Store

open Ranger

/-- `std::ops::Bound`. -/
inductive Bound (α : Type) where
  | included (a : α)
  | excluded (a : α)
  | unbounded
deriving DecidableEq, Repr

namespace Bound
variable {α : Type} [LinearOrder α]

/-- Whether `x` lies after a start bound. -/
def admitsFrom : Bound α → α → Bool
  | included a, x => decide (a ≤ x)
  | excluded a, x => decide (a < x)
  | unbounded, _ => true

/-- Whether `x` lies before an end bound. -/
def admitsTo : Bound α → α → Bool
  | included a, x => decide (x ≤ a)
  | excluded a, x => decide (x < a)
  | unbounded, _ => true

end Bound

/-! ### Bounds on the records table -/

/-- `increment_by_one` on a byte string, the bytes given last first: the last byte
that is not 255 goes up by one and the 255s after it become 0. -/
def incrementRev : List Byte → Option (List Byte)
  | [] => none
  | c :: cs => if c ≠ 255 then some ((c + 1) :: cs) else (incrementRev cs).map (0 :: ·)

/-- `increment_by_one` on a byte string; `none` when every byte is 255. -/
def incrementByOne (value : List Byte) : Option (List Byte) :=
  (incrementRev value.reverse).map List.reverse

/-- `KeyFilter`. -/
inductive KeyFilter where
  | any
  | exact (key : List Byte)
  | keyPrefix (key : List Byte)
deriving DecidableEq, Repr

/-- `RecordsBounds`: bounds on record identifiers. -/
structure RecordsBounds where
  startBound : Bound RecordIdentifier
  endBound : Bound RecordIdentifier

namespace RecordsBounds

def contains (b : RecordsBounds) (id : RecordIdentifier) : Bool :=
  b.startBound.admitsFrom id && b.endBound.admitsTo id

/-- `RecordsBounds::author_key`: from the key to the next key, author or namespace
past it. -/
def authorKey (ns : NamespaceId) (author : AuthorId) (keyMatcher : KeyFilter) : RecordsBounds :=
  let keyIsExact := match keyMatcher with | .exact _ => true | _ => false
  let key := match keyMatcher with
    | .any => []
    | .exact key => key
    | .keyPrefix key => key
  let start : RecordIdentifier := ⟨ns, author, key⟩
  let endBound :=
    if keyIsExact then .included start
    else match incrementByOne key with
      | some keyEnd => .excluded ⟨ns, author, keyEnd⟩
      | none => match incrementFixed author with
        | some authorEnd => .excluded ⟨ns, authorEnd, []⟩
        | none => match incrementFixed ns with
          | some nsEnd => .excluded ⟨nsEnd, 0, []⟩
          | none => .unbounded
  ⟨.included start, endBound⟩

/-- `RecordsBounds::author_prefix`. -/
def authorPrefix (ns : NamespaceId) (author : AuthorId) (key : List Byte) : RecordsBounds :=
  authorKey ns author (.keyPrefix key)

/-- `RecordsBounds::namespace_start`. -/
def namespaceStart (ns : NamespaceId) : Bound RecordIdentifier := .included ⟨ns, 0, []⟩

/-- `RecordsBounds::namespace_end`. -/
def namespaceEnd (ns : NamespaceId) : Bound RecordIdentifier :=
  match incrementFixed ns with
  | some nsEnd => .excluded ⟨nsEnd, 0, []⟩
  | none => .unbounded

/-- `RecordsBounds::namespace`. -/
def «namespace» (ns : NamespaceId) : RecordsBounds := ⟨namespaceStart ns, namespaceEnd ns⟩

/-- `RecordsBounds::from_start`. -/
def fromStart (ns : NamespaceId) (endBound : Bound RecordIdentifier) : RecordsBounds :=
  ⟨namespaceStart ns, endBound⟩

/-- `RecordsBounds::to_end`. -/
def toEnd (ns : NamespaceId) (startBound : Bound RecordIdentifier) : RecordsBounds :=
  ⟨startBound, namespaceEnd ns⟩

end RecordsBounds

/-! ### The records table -/

/-- `RecordsValue`: timestamp, namespace and author signatures, length and hash. -/
structure RecordsValue where
  timestamp : UInt64
  namespaceSig : Signature
  authorSig : Signature
  len : UInt64
  hash : Hash
deriving DecidableEq, Repr

/-- The record a row stores, `Record::new(hash, len, timestamp)`. -/
def RecordsValue.record (v : RecordsValue) : Record := ⟨v.len, v.hash, v.timestamp⟩

/-- `RECORDS_TABLE`: its rows in identifier order. -/
structure Records where
  rows : List (RecordIdentifier × RecordsValue)
  sorted : rows.Pairwise fun a b => a.1 < b.1

namespace Records

/-- `table.range(bounds)`. -/
def range (t : Records) (b : RecordsBounds) : List (RecordIdentifier × RecordsValue) :=
  t.rows.filter fun r => b.contains r.1

/-- `table.get(id)`. -/
def get (t : Records) (id : RecordIdentifier) : Option RecordsValue :=
  (t.rows.find? fun r => r.1 = id).map Prod.snd

theorem mem_range {t : Records} {b : RecordsBounds} {r : RecordIdentifier × RecordsValue} :
    r ∈ t.range b ↔ r ∈ t.rows ∧ b.contains r.1 = true := by
  simp [range]

/-- The table's read is the lookup in its sorted rows (the two decide equality of
identifiers by different instances). -/
theorem get_eq_lookup (t : Records) (id : RecordIdentifier) : t.get id = SimpleStore.lookup t.rows id := by
  unfold get SimpleStore.lookup
  congr!

theorem get_eq_some {t : Records} {id : RecordIdentifier} {v : RecordsValue} :
    t.get id = some v ↔ (id, v) ∈ t.rows := by
  rw [get_eq_lookup]
  exact SimpleStore.lookup_eq_some t.sorted

end Records

/-! ### Reads and writes -/

/-- `into_entry`: the signed entry a row stores. -/
def intoEntry (id : RecordIdentifier) (value : RecordsValue) : SignedEntry :=
  ⟨⟨value.authorSig, value.namespaceSig⟩, ⟨id, value.record⟩⟩

/-- `get_exact`: the entry at an identifier; an empty one only when `include_empty`. -/
def getExact (t : Records) (ns : NamespaceId) (author : AuthorId) (key : List Byte)
    (includeEmpty : Bool) : Option SignedEntry :=
  let id : RecordIdentifier := ⟨ns, author, key⟩
  ((t.get id).map (intoEntry id)).filter fun entry => includeEmpty || !entry.entry.record.isEmpty

/-- The loop of `parents`: `rk` is the key with its last byte first, so that `rk.tail`
is the key after `key.pop()`; found entries are pushed onto `res`. -/
def parentsLoop (t : Records) (ns : NamespaceId) (author : AuthorId) :
    List Byte → List SignedEntry → List SignedEntry
  | [], res => res
  | b :: rk, res =>
    match getExact t ns author (b :: rk).reverse false with
    | some entry => parentsLoop t ns author rk (res ++ [entry])
    | none => parentsLoop t ns author rk res

/-- `parents`: the non-empty entries of the author at the key and at each shorter
non-empty prefix of it, shortest first. -/
def parents (t : Records) (ns : NamespaceId) (author : AuthorId) (key : List Byte) :
    List SignedEntry :=
  (parentsLoop t ns author key.reverse []).reverse

/-- `StoreInstance::prefixes_of`. -/
def prefixesOf (t : Records) (id : RecordIdentifier) : List SignedEntry :=
  parents t id.ns id.author id.key

/-- `StoreInstance::remove_prefix_filtered`: the rows of the author from the key to the
next key (`author_prefix`) whose record satisfies the predicate are removed. -/
def removePrefixFiltered (t : Records) (id : RecordIdentifier) (predicate : Record → Bool) :
    Records × Nat :=
  let bounds := RecordsBounds.authorPrefix id.ns id.author id.key
  let cb := fun (r : RecordIdentifier × RecordsValue) =>
    bounds.contains r.1 && predicate r.2.record
  (⟨t.rows.filter (fun r => !cb r), t.sorted.filter _⟩, (t.rows.filter cb).length)

/-- `StoreInstance::entry_put`: the row at the entry's identifier is written. -/
def entryPut (t : Records) (e : SignedEntry) : Records :=
  let value : RecordsValue := ⟨e.entry.record.timestamp, e.signature.namespaceSignature,
    e.signature.authorSignature, e.entry.record.len, e.entry.record.hash⟩
  ⟨SimpleStore.insertKey e.entry.id value t.rows, SimpleStore.insertKey_sorted _ _ t.sorted⟩

/-- The rows after `entry_put`: the entry's row, and the others at other identifiers. -/
theorem mem_entryPut {t : Records} {e : SignedEntry} {r : RecordIdentifier × RecordsValue} :
    r ∈ (entryPut t e).rows ↔
      r = (e.entry.id, ⟨e.entry.record.timestamp, e.signature.namespaceSignature,
        e.signature.authorSignature, e.entry.record.len, e.entry.record.hash⟩) ∨
      r ∈ t.rows ∧ r.1 ≠ e.entry.id :=
  SimpleStore.mem_insertKey_iff t.sorted

/-- `StoreInstance::get_range`: the namespace for the identity range; `x ≤ t < y` for
a regular one; from the namespace's start to `y` and from `x` to its end for a
wrapping one. -/
def getRange (ns : NamespaceId) (t : Records) (range : Range RecordIdentifier) :
    List SignedEntry :=
  let rows := match compare range.x range.y with
    | .eq => t.range (RecordsBounds.namespace ns)
    | .lt => t.range ⟨.included range.x, .excluded range.y⟩
    | .gt => t.range (RecordsBounds.fromStart ns (.excluded range.y)) ++
        t.range (RecordsBounds.toEnd ns (.included range.x))
  rows.map fun r => intoEntry r.1 r.2

/-- `StoreInstance::get_first`: the namespace's first identifier, or the default. -/
def getFirst (ns : NamespaceId) (t : Records) : RecordIdentifier :=
  match t.range (RecordsBounds.namespace ns) with
  | [] => default
  | r :: _ => r.1

/-- `StoreInstance::get_fingerprint`: the range's fingerprints XORed onto the empty one. -/
def getFingerprint (ns : NamespaceId) (empty : Fingerprint)
    (asFingerprint : SignedEntry → Fingerprint) (t : Records) (range : Range RecordIdentifier) :
    Fingerprint :=
  (getRange ns t range).foldl (fun fp el => fp ^^^ asFingerprint el) empty

/-- `StoreInstance` of a namespace as a ranger store. -/
def storeInstance (ns : NamespaceId) (empty : Fingerprint)
    (asFingerprint : SignedEntry → Fingerprint) :
    Ranger.Store Records SignedEntry RecordIdentifier Record where
  getFirst := getFirst ns
  getFingerprint := getFingerprint ns empty asFingerprint
  entryPut := entryPut
  getRange := getRange ns
  prefixesOf := prefixesOf
  removePrefixFiltered := removePrefixFiltered

/-! ### What the namespace bounds hold -/

namespace RecordsBounds

theorem admitsFrom_namespaceStart (ns : NamespaceId) (id : RecordIdentifier) :
    (namespaceStart ns).admitsFrom id = decide (ns ≤ id.ns) := by
  simp only [namespaceStart, Bound.admitsFrom, RecordIdentifier.start_le_iff]

theorem admitsTo_namespaceEnd (ns : NamespaceId) (id : RecordIdentifier) :
    (namespaceEnd ns).admitsTo id = decide (id.ns ≤ ns) := by
  by_cases hmax : ns.val + 1 < 2 ^ 256
  · simp only [namespaceEnd, incrementFixed, dif_pos hmax, Bound.admitsTo,
      RecordIdentifier.lt_start_iff, decide_eq_decide, Fin.lt_def, Fin.le_def]
    omega
  · simp only [namespaceEnd, incrementFixed, dif_neg hmax, Bound.admitsTo, Bool.true_eq,
      decide_eq_true_eq, Fin.le_def]
    have := id.ns.isLt
    omega

/-- The namespace bounds hold exactly the namespace's identifiers. -/
theorem namespace_contains (ns : NamespaceId) (id : RecordIdentifier) :
    («namespace» ns).contains id = true ↔ id.ns = ns := by
  simp only [contains, «namespace», admitsFrom_namespaceStart, admitsTo_namespaceEnd,
    Bool.and_eq_true, decide_eq_true_eq]
  exact ⟨fun h => le_antisymm h.2 h.1, fun h => ⟨h.ge, h.le⟩⟩

theorem fromStart_contains {ns : NamespaceId} {b : Bound RecordIdentifier} {id : RecordIdentifier} :
    (fromStart ns b).contains id = true ↔ ns ≤ id.ns ∧ b.admitsTo id = true := by
  simp only [contains, fromStart, admitsFrom_namespaceStart, Bool.and_eq_true, decide_eq_true_eq]

theorem toEnd_contains {ns : NamespaceId} {b : Bound RecordIdentifier} {id : RecordIdentifier} :
    (toEnd ns b).contains id = true ↔ b.admitsFrom id = true ∧ id.ns ≤ ns := by
  simp only [contains, toEnd, admitsTo_namespaceEnd, Bool.and_eq_true, decide_eq_true_eq]

end RecordsBounds

/-- A replica of namespace 1, asked for its entries from `(0, 0, [])` to `(2, 0, [])`,
answers with the entry of namespace 0 that lies between them. -/
theorem processMessage_sends_other_namespace (empty : Fingerprint)
    (asFingerprint : SignedEntry → Fingerprint) (cb : Callbacks Records SignedEntry) :
    let v : RecordsValue := ⟨1, 0, 0, 1, 1⟩
    let t : Records := ⟨[(⟨0, 0, [1]⟩, v), (⟨1, 0, [1]⟩, v)], by decide⟩
    let msg : Message SignedEntry RecordIdentifier :=
      ⟨[.rangeItem ⟨⟨⟨0, 0, []⟩, ⟨2, 0, []⟩⟩, [], false⟩]⟩
    ∃ reply, (processMessage (storeInstance 1 empty asFingerprint) (signedEntry asFingerprint) cb
        SyncConfig.default empty t msg).2.2 = some reply ∧
      ∃ sent ∈ reply.values, sent.1.entry.id.ns = 0 := by
  intro v t msg
  exact ⟨_, rfl, (intoEntry ⟨0, 0, [1]⟩ v, cb.contentStatus t (intoEntry ⟨0, 0, [1]⟩ v)),
    List.mem_cons_self, rfl⟩

/-! ### What `get_range` reads for a range of the namespace -/

section GetRange
variable {ns : NamespaceId} {range : Range RecordIdentifier}

@[simp] theorem intoEntry_id (id : RecordIdentifier) (value : RecordsValue) :
    (intoEntry id value).entry.id = id := rfl

/-- A range that does not wrap is read as one segment: the namespace's rows in it. -/
theorem getRange_of_not_gt (t : Records) (hx : range.x.ns = ns) (hy : range.y.ns = ns)
    (hle : ¬ range.y < range.x) :
    getRange ns t range = (t.rows.filter fun r => r.1.ns = ns ∧ range.contains r.1 = true).map
      fun r => intoEntry r.1 r.2 := by
  rcases lt_or_eq_of_le (not_lt.mp hle) with hlt | heq
  · simp only [getRange, compare_lt_iff_lt.mpr hlt, Records.range]
    congr 1
    refine List.filter_congr fun r _ => Bool.eq_iff_iff.mpr ?_
    simp only [RecordsBounds.contains, Bound.admitsFrom, Bound.admitsTo, Bool.and_eq_true,
      decide_eq_true_eq, Range.contains_of_lt hlt]
    refine ⟨fun h => ⟨le_antisymm ?_ ?_, h⟩, fun h => h.2⟩
    · exact hy ▸ RecordIdentifier.ns_le_of_le h.2.le
    · exact hx ▸ RecordIdentifier.ns_le_of_le h.1
  · simp only [getRange, compare_eq_iff_eq.mpr heq, Records.range]
    congr 1
    refine List.filter_congr fun r _ => Bool.eq_iff_iff.mpr ?_
    simp only [RecordsBounds.namespace_contains, Range.contains_of_eq heq, and_true, decide_eq_true_eq]

/-- A wrapping range is read as two segments: the namespace's rows below `y`, then
those from `x` on. -/
theorem getRange_of_gt (t : Records) (hx : range.x.ns = ns) (hy : range.y.ns = ns)
    (hgt : range.y < range.x) :
    getRange ns t range = ((t.rows.filter fun r => r.1.ns = ns ∧ r.1 < range.y) ++
      (t.rows.filter fun r => r.1.ns = ns ∧ range.x ≤ r.1)).map fun r => intoEntry r.1 r.2 := by
  simp only [getRange, compare_gt_iff_gt.mpr hgt, Records.range]
  congr 2
  · refine List.filter_congr fun r _ => Bool.eq_iff_iff.mpr ?_
    simp only [RecordsBounds.fromStart_contains, Bound.admitsTo, decide_eq_true_eq]
    refine ⟨fun h => ⟨le_antisymm ?_ h.1, h.2⟩, fun h => ⟨h.1.ge, h.2⟩⟩
    exact hy ▸ RecordIdentifier.ns_le_of_le h.2.le
  · refine List.filter_congr fun r _ => Bool.eq_iff_iff.mpr ?_
    simp only [RecordsBounds.toEnd_contains, Bound.admitsFrom, decide_eq_true_eq]
    refine ⟨fun h => ⟨le_antisymm h.2 ?_, h.1⟩, fun h => ⟨h.2, h.1.le⟩⟩
    exact hx ▸ RecordIdentifier.ns_le_of_le h.1

/-- The entries read from rows are in the rows' order. -/
theorem ids_sorted_filter (t : Records) (p : RecordIdentifier × RecordsValue → Bool) :
    (((t.rows.filter p).map fun r => intoEntry r.1 r.2).map fun e => e.entry.id).Pairwise (· < ·) := by
  simp only [List.map_map, Function.comp_def, intoEntry_id]
  exact List.pairwise_map.mpr (t.sorted.filter p)

/-- **`get_range` yields the namespace's records in the range**, for a range whose ends
are identifiers of the namespace. -/
theorem mem_getRange (t : Records) (hx : range.x.ns = ns) (hy : range.y.ns = ns) {e : SignedEntry} :
    e ∈ getRange ns t range ↔
      ∃ r ∈ t.rows, r.1.ns = ns ∧ range.contains r.1 = true ∧ intoEntry r.1 r.2 = e := by
  by_cases hgt : range.y < range.x
  · rw [getRange_of_gt t hx hy hgt]
    simp only [List.mem_map, List.mem_append, List.mem_filter, decide_eq_true_eq,
      Range.contains_of_gt hgt]
    constructor
    · rintro ⟨r, (⟨hr, hns, hlt⟩ | ⟨hr, hns, hle⟩), rfl⟩
      · exact ⟨r, hr, hns, .inr hlt, rfl⟩
      · exact ⟨r, hr, hns, .inl hle, rfl⟩
    · rintro ⟨r, hr, hns, hle | hlt, rfl⟩
      · exact ⟨r, .inr ⟨hr, hns, hle⟩, rfl⟩
      · exact ⟨r, .inl ⟨hr, hns, hlt⟩, rfl⟩
  · rw [getRange_of_not_gt t hx hy hgt]
    simp only [List.mem_map, List.mem_filter, decide_eq_true_eq, and_assoc]

/-- `get_range` yields no identifier twice: a wrapping range's segments lie below `y`
and from `x` on. -/
theorem getRange_ids_nodup (t : Records) (hx : range.x.ns = ns) (hy : range.y.ns = ns) :
    ((getRange ns t range).map fun e => e.entry.id).Nodup := by
  by_cases hgt : range.y < range.x
  · rw [getRange_of_gt t hx hy hgt, List.map_append, List.map_append]
    refine List.nodup_append.mpr ⟨(ids_sorted_filter t _).imp ne_of_lt,
      (ids_sorted_filter t _).imp ne_of_lt, fun a ha b hb hab => ?_⟩
    simp only [List.map_map, Function.comp_def, intoEntry_id, List.mem_map, List.mem_filter,
      decide_eq_true_eq] at ha hb
    obtain ⟨r, ⟨-, -, hlt⟩, rfl⟩ := ha
    obtain ⟨r', ⟨-, -, hle⟩, rfl⟩ := hb
    exact absurd (hab ▸ hle) (not_le.mpr (hlt.trans hgt))
  · rw [getRange_of_not_gt t hx hy hgt]
    exact (ids_sorted_filter t _).imp ne_of_lt

/-- Two stores whose reads of a range hold the same entries read them in some order
of one another. -/
theorem getRange_perm {t t' : Records} (hx : range.x.ns = ns) (hy : range.y.ns = ns)
    (hsame : ∀ e, e ∈ getRange ns t range ↔ e ∈ getRange ns t' range) :
    (getRange ns t range).Perm (getRange ns t' range) :=
  (List.perm_ext_iff_of_nodup ((getRange_ids_nodup t hx hy).of_map _)
    ((getRange_ids_nodup t' hx hy).of_map _)).mpr hsame

end GetRange

/-- **`get_range` agrees with `Range::contains`**: for a range whose ends are identifiers
of the namespace, it yields the namespace's records in the range, each once, in key
order within each of at most two segments (two only for a wrapping range), and the
range's length and fingerprint depend only on what it yields. -/
theorem getRange_agrees_with_contains (ns : NamespaceId) (empty : Fingerprint)
    (asFingerprint : SignedEntry → Fingerprint) (t : Records) (range : Range RecordIdentifier)
    (hx : range.x.ns = ns) (hy : range.y.ns = ns) :
    (∀ e, e ∈ getRange ns t range ↔
      ∃ r ∈ t.rows, r.1.ns = ns ∧ range.contains r.1 = true ∧ intoEntry r.1 r.2 = e) ∧
    ((getRange ns t range).map fun e => e.entry.id).Nodup ∧
    (∃ s₁ s₂, getRange ns t range = s₁ ++ s₂ ∧ (s₁.map fun e => e.entry.id).Pairwise (· < ·) ∧
      (s₂.map fun e => e.entry.id).Pairwise (· < ·) ∧ (s₂ ≠ [] → range.y < range.x)) ∧
    ∀ t' : Records, (∀ e, e ∈ getRange ns t range ↔ e ∈ getRange ns t' range) →
      (storeInstance ns empty asFingerprint).getRangeLen t range =
          (storeInstance ns empty asFingerprint).getRangeLen t' range ∧
        getFingerprint ns empty asFingerprint t range = getFingerprint ns empty asFingerprint t' range := by
  have hsegments : ∃ s₁ s₂, getRange ns t range = s₁ ++ s₂ ∧
      (s₁.map fun e => e.entry.id).Pairwise (· < ·) ∧ (s₂.map fun e => e.entry.id).Pairwise (· < ·) ∧
      (s₂ ≠ [] → range.y < range.x) := by
    by_cases hgt : range.y < range.x
    · rw [getRange_of_gt t hx hy hgt, List.map_append]
      exact ⟨_, _, rfl, ids_sorted_filter t _, ids_sorted_filter t _, fun _ => hgt⟩
    · rw [getRange_of_not_gt t hx hy hgt]
      exact ⟨_, [], (List.append_nil _).symm, ids_sorted_filter t _, List.Pairwise.nil,
        fun h => absurd rfl h⟩
  refine ⟨fun e => mem_getRange t hx hy, getRange_ids_nodup t hx hy, hsegments, fun t' hsame => ?_⟩
  have hperm := getRange_perm hx hy hsame
  exact ⟨hperm.length_eq, foldl_xor_perm asFingerprint empty hperm⟩

/-- A wrapping range of namespace 0 over a store that also holds namespace 1. -/
theorem getRange_agrees_with_contains_wrapping :
    let v : RecordsValue := ⟨1, 0, 0, 1, 1⟩
    let t : Records := ⟨[(⟨0, 0, [1]⟩, v), (⟨0, 0, [3]⟩, v), (⟨1, 0, [1]⟩, v)], by decide⟩
    let range : Range RecordIdentifier := ⟨⟨0, 0, [2]⟩, ⟨0, 0, [1]⟩⟩
    range.x.ns = 0 ∧ range.y.ns = 0 ∧
    (∀ e, e ∈ getRange 0 t range ↔
      ∃ r ∈ t.rows, r.1.ns = 0 ∧ range.contains r.1 = true ∧ intoEntry r.1 r.2 = e) ∧
    ((getRange 0 t range).map fun e => e.entry.id).Nodup ∧
    (∃ s₁ s₂, getRange 0 t range = s₁ ++ s₂ ∧ (s₁.map fun e => e.entry.id).Pairwise (· < ·) ∧
      (s₂.map fun e => e.entry.id).Pairwise (· < ·) ∧ (s₂ ≠ [] → range.y < range.x)) ∧
    ∀ t' : Records, (∀ e, e ∈ getRange 0 t range ↔ e ∈ getRange 0 t' range) →
      (storeInstance 0 0 fun _ => 0).getRangeLen t range =
          (storeInstance 0 0 fun _ => 0).getRangeLen t' range ∧
        getFingerprint 0 0 (fun _ => 0) t range = getFingerprint 0 0 (fun _ => 0) t' range := by
  intro v t range
  exact ⟨rfl, rfl, getRange_agrees_with_contains 0 0 (fun _ => 0) t range rfl rfl⟩

/-! ### `Store::put` on the on-disk store -/

/-- Prefix dominance of the table: no row lies at a prefix of another row's key,
in the same namespace and of the same author, with a record at least as large. -/
def Records.PrefixDominance (t : Records) : Prop :=
  ∀ a ∈ t.rows, ∀ b ∈ t.rows, RangeKey.isPrefixOf a.1 b.1 = true → b.2.record ≤ a.2.record → a = b

instance (t : Records) : Decidable t.PrefixDominance :=
  inferInstanceAs (Decidable (∀ a ∈ t.rows, ∀ b ∈ t.rows, _ → _ → _))

end Iroh.Docs.Store
