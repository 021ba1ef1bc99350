import Iroh.Docs.Store.Tables

/-! Queries of the store (`store.rs`, `store/util.rs`, `store/fs/query.rs`,
`store/fs/ranges.rs`): `Store::get_many` as the list of entries its `QueryIterator`
yields until `None`.

`IndexKind::from` sends a query to one of two indexes. By author and key, the filter
of an exact author is pushed into the bounds of the records table and the key filter
dropped; with any author the namespace is read and the key filter applied to each
row. By key and author, the key filter is pushed into the bounds of the by-key index
alone, the author filter applied to each row, and for the latest entry per key the
rows then go through `LatestPerKeySelector`. Offset and limit are counted on what
comes out (`emit_eq`). When the bounds are exact and the by-key index holds every
record, a flat query reads exactly the namespace's records its filters select, each
once, in its order (`flatQuery_stream`).

A key filter pushed into bounds is only as exact as the bounds are: the bounds of a
prefix that ends in 255 hold other keys (`prefix_bounds_admit_other_keys`), so the
queries that read through them return entries whose key does not match
(`prefix_query_returns_other_keys`). A query by key with an exact author groups the
author's entries only: the newest entry of a key by another author does not hide an
older one by the author, as the documentation of `Query` says it should
(`latest_per_key_filters_author_first`). -/
namespace Iroh.Docs.Store

open Ranger

/-! ### Queries -/

/-- `AuthorFilter`. -/
inductive AuthorFilter where
  | any
  | exact (author : AuthorId)
deriving DecidableEq, Repr

/-- `SortBy`. -/
inductive SortBy where
  | keyAuthor
  | authorKey
deriving DecidableEq, Repr

/-- `SortDirection`. -/
inductive SortDirection where
  | asc
  | desc
deriving DecidableEq, Repr

/-- `QueryKind`: a flat query with its order, or the latest entry of each key. -/
inductive QueryKind where
  | flat (sortBy : SortBy)
  | singleLatestPerKey
deriving DecidableEq, Repr

/-- `Query`. -/
structure Query where
  kind : QueryKind
  filterAuthor : AuthorFilter
  filterKey : KeyFilter
  limit : Option Nat
  offset : Nat
  includeEmpty : Bool
  sortDirection : SortDirection
deriving DecidableEq, Repr

/-- `KeyFilter::matches`. -/
def KeyFilter.matches : KeyFilter → List Byte → Bool
  | .any, _ => true
  | .exact k, key => k == key
  | .keyPrefix p, key => p.isPrefixOf key

/-- `AuthorFilter::matches`. -/
def AuthorFilter.matches : AuthorFilter → AuthorId → Bool
  | .any, _ => true
  | .exact a, author => a == author

/-- `IndexKind`: the index a query reads, and what it filters there. -/
inductive IndexKind where
  | authorKey (range : AuthorFilter) (keyFilter : KeyFilter)
  | keyAuthor (range : KeyFilter) (authorFilter : AuthorFilter) (latestPerKey : Bool)

/-- `IndexKind::from(&Query)`. -/
def IndexKind.ofQuery (q : Query) : IndexKind :=
  match q.kind with
  | .flat sortBy =>
    match q.filterAuthor, sortBy with
    | .any, .keyAuthor => .keyAuthor q.filterKey .any false
    | _, _ => .authorKey q.filterAuthor q.filterKey
  | .singleLatestPerKey => .keyAuthor q.filterKey q.filterAuthor true

/-! ### Reading the indexes -/

/-- `RangeExt::next_filter_map` until `None`: the range forwards or backwards, and the
items the callback keeps. -/
def nextFilterMap {α β : Type} (direction : SortDirection) (filterMap : α → Option β)
    (range : List α) : List β :=
  (match direction with
    | .asc => range
    | .desc => range.reverse).filterMap filterMap

/-- `value_is_empty`. -/
def valueIsEmpty (value : RecordsValue) : Bool := value.hash == Hash.EMPTY

/-- `RecordsRange::next_filtered` until `None`. -/
def RecordsRange.nextFiltered (range : List (RecordIdentifier × RecordsValue))
    (direction : SortDirection) (filter : RecordIdentifier × RecordsValue → Bool) :
    List SignedEntry :=
  nextFilterMap direction (fun r => if filter r then some (intoEntry r.1 r.2) else none) range

/-- `RecordsByKeyRange::next_filtered` until `None`: each row of the by-key index the
filter keeps is read from the records table, and skipped when it has no record. -/
def RecordsByKeyRange.nextFiltered (records : Records) (range : List (RecordsByKeyId × Unit))
    (direction : SortDirection) (filter : RecordsByKeyId → Bool) : List SignedEntry :=
  nextFilterMap direction (fun k =>
    let id : RecordIdentifier := ⟨k.1.ns, k.1.author, k.1.key⟩
    if filter k.1 then (records.get id).map (intoEntry id) else none) range

/-- `SelectorRes`. -/
inductive SelectorRes where
  | finished
  | continue
  | some (entry : SignedEntry)

/-- `LatestPerKeySelector::push`, on the entry the selector holds: the end of the stream
gives it up; an entry of its key replaces it when strictly newer; an entry of another
key replaces it and gives it up. -/
def LatestPerKeySelector.push (held : Option SignedEntry) :
    Option SignedEntry → Option SignedEntry × SelectorRes
  | none =>
    match held with
    | some entry => (none, .some entry)
    | none => (none, .finished)
  | some entry =>
    match held with
    | none => (some entry, .continue)
    | some last =>
      if last.entry.id.key = entry.entry.id.key then
        (some (if entry.entry.record.timestamp > last.entry.record.timestamp then entry else last),
          .continue)
      else (some entry, .some last)

/-- The inner loop of `QueryIterator::next` pushing a stream into the selector, and
then its end: the entries the selector gives up. -/
def LatestPerKeySelector.run (held : Option SignedEntry) : List SignedEntry → List SignedEntry
  | [] =>
    match (push held none).2 with
    | .some entry => [entry]
    | _ => []
  | e :: rest =>
    match push held (some e) with
    | (held', .some entry) => entry :: run held' rest
    | (held', .continue) => run held' rest
    | (_, .finished) => []

/-- What the inner loop of `QueryIterator::next` passes on from the by-key index: the
selector's entries when it is active, without empty entries unless asked for. -/
def keyAuthorStream (includeEmpty latestPerKey : Bool) (entries : List SignedEntry) :
    List SignedEntry :=
  let selected := if latestPerKey then LatestPerKeySelector.run none entries else entries
  selected.filter fun e => includeEmpty || !e.entry.record.isEmpty

/-- `QueryIterator::next` called until it returns `None`: entries past the query's
offset, while fewer than the limit have been returned. -/
def emit (limit : Option Nat) (queryOffset : Nat) (offset count : Nat) :
    List SignedEntry → List SignedEntry
  | [] => []
  | e :: rest =>
    if limit.any (· ≤ count) then []
    else if offset < queryOffset then emit limit queryOffset (offset + 1) count rest
    else e :: emit limit queryOffset offset (count + 1) rest

/-- The entries `QueryIterator::new` reads before offset and limit. -/
def queryStream (t : Tables) (ns : NamespaceId) (q : Query) : List SignedEntry :=
  match IndexKind.ofQuery q with
  | .authorKey range keyFilter =>
    let (bounds, filter) : RecordsBounds × KeyFilter := match range with
      | .exact author => (RecordsBounds.authorKey ns author keyFilter, .any)
      | .any => (RecordsBounds.namespace ns, keyFilter)
    RecordsRange.nextFiltered (t.records.range bounds) q.sortDirection fun r =>
      filter.matches r.1.key && (q.includeEmpty || !valueIsEmpty r.2)
  | .keyAuthor range authorFilter latestPerKey =>
    let bounds := ByKeyBounds.new ns range
    keyAuthorStream q.includeEmpty latestPerKey
      (RecordsByKeyRange.nextFiltered t.records
        (t.recordsByKey.rows.filter fun r => bounds.contains r.1) q.sortDirection
        fun k => authorFilter.matches k.author)

/-- `Store::get_many`: the query iterator collected. -/
def getMany (t : Tables) (ns : NamespaceId) (q : Query) : List SignedEntry :=
  emit q.limit q.offset 0 0 (queryStream t ns q)


/-! ### Offset and limit -/

/-- **The iterator drops the offset and takes the limit** of what it reads. -/
theorem emit_eq (limit : Option Nat) (queryOffset offset count : Nat) (s : List SignedEntry) :
    emit limit queryOffset offset count s =
      match limit with
      | none => s.drop (queryOffset - offset)
      | some n => (s.drop (queryOffset - offset)).take (n - count) := by
  induction s generalizing offset count with
  | nil => cases limit <;> simp [emit]
  | cons e rest ih =>
    unfold emit
    by_cases hlim : limit.any (· ≤ count) = true
    · -- the limit is reached: the rest of the take is empty
      obtain ⟨n, rfl, hn⟩ : ∃ n, limit = some n ∧ n ≤ count := by
        cases limit with
        | none => simp at hlim
        | some n => exact ⟨n, rfl, by simpa using hlim⟩
      simp [hlim, Nat.sub_eq_zero_of_le hn]
    · rw [if_neg hlim]
      by_cases hoff : offset < queryOffset
      · rw [if_pos hoff, ih]
        have hdrop : queryOffset - offset = (queryOffset - (offset + 1)) + 1 := by omega
        cases limit <;> simp only [hdrop, List.drop_succ_cons]
      · rw [if_neg hoff, ih]
        have hdrop : queryOffset - offset = 0 := by omega
        cases limit with
        | none => simp [hdrop]
        | some n =>
          have hn : ¬ n ≤ count := by simpa using hlim
          obtain ⟨m, hm⟩ : ∃ m, n - count = m + 1 := ⟨n - count - 1, by omega⟩
          simp only [hdrop, List.drop_zero, hm, List.take_succ_cons]
          congr 2
          omega

/-- `get_many` is the stream past the offset, to the limit. -/
theorem getMany_eq (t : Tables) (ns : NamespaceId) (q : Query) :
    getMany t ns q = match q.limit with
      | none => (queryStream t ns q).drop q.offset
      | some n => ((queryStream t ns q).drop q.offset).take n := by
  rw [getMany, emit_eq]
  cases q.limit <;> rfl

/-! ### Queries through bounds that are not exact -/

/-- A flat query of author 0 by author and key, and one of any author by key and
author, for keys with the prefix `[1, 255]`, both over a record at key `[2]`. -/
def prefixQuery (sortBy : SortBy) (author : AuthorFilter) : Query :=
  ⟨.flat sortBy, author, .keyPrefix [1, 255], none, 0, false, .asc⟩

/-- **Queries that push a prefix ending in 255 into bounds return other keys**: both
the query of one author by author and key and the query of any author by key and
author return the record at `[2]`, which the filter does not match. -/
theorem prefix_query_returns_other_keys :
    let t : Tables := Tables.empty.entryPut (syncedEntry [2] 1)
    (prefixQuery .authorKey (.exact 0)).filterKey.matches [2] = false ∧
      (getMany t 0 (prefixQuery .authorKey (.exact 0))).map (·.entry.id) = [⟨0, 0, [2]⟩] ∧
      (getMany t 0 (prefixQuery .keyAuthor .any)).map (·.entry.id) = [⟨0, 0, [2]⟩] := by
  intro t
  exact ⟨by decide, by decide, by decide⟩


/-! ### The latest entry per key -/

/-- An entry of namespace 0 by an author at a key. -/
def authoredEntry (author : AuthorId) (key : List Byte) (timestamp : UInt64) : SignedEntry :=
  ⟨⟨0, 0⟩, ⟨⟨0, author, key⟩, ⟨1, 1, timestamp⟩⟩⟩

/-- **The latest entry of a key is chosen among the filtered author's entries**: with
an entry of author 0 at time 1 and a newer one of author 1 at time 2 at key `[1]`,
the query of author 0 returns author 0's entry, while the newest entry of the key,
which the query of any author returns, is author 1's, and applying the author filter
after the grouping, as the documentation of `Query` says, would drop it. -/
theorem latest_per_key_filters_author_first :
    let t : Tables := (Tables.empty.entryPut (authoredEntry 0 [1] 1)).entryPut (authoredEntry 1 [1] 2)
    let q : Query := ⟨.singleLatestPerKey, .exact 0, .any, none, 0, false, .asc⟩
    (getMany t 0 q).map (fun e => (e.entry.id, e.entry.record.timestamp)) = [(⟨0, 0, [1]⟩, 1)] ∧
      (getMany t 0 { q with filterAuthor := .any }).map
        (fun e => (e.entry.id, e.entry.record.timestamp)) = [(⟨0, 1, [1]⟩, 2)] := by
  intro t q
  exact ⟨by decide, by decide⟩


/-! ### What a flat query reads -/

/-- What a flat query documents it selects: the namespace's records that match both
filters, and are not empty unless asked for. -/
def Query.Selects (q : Query) (ns : NamespaceId) (r : RecordIdentifier × RecordsValue) : Bool :=
  decide (r.1.ns = ns) && q.filterAuthor.matches r.1.author && q.filterKey.matches r.1.key &&
    (q.includeEmpty || !valueIsEmpty r.2)

/-- A key filter whose bounds hold exactly the keys it matches: all but the prefixes
that end in 255 and are not all 255s. -/
def KeyFilter.BoundsExact : KeyFilter → Prop
  | .keyPrefix p => p.getLast? ≠ some 255 ∨ ∀ b ∈ p, b = 255
  | _ => True

/-- `a` comes before `b` in the direction. -/
def SortDirection.Before {α : Type} [LT α] : SortDirection → α → α → Prop
  | .asc, a, b => a < b
  | .desc, a, b => b < a

/-- An entry's row in the by-key index. -/
def byKeyId (e : SignedEntry) : RecordsByKeyId := ⟨e.entry.id.ns, e.entry.id.key, e.entry.id.author⟩

/-- Entries in the order of a flat query: by author and key, or by key and author, in
the direction. -/
def SortBy.Sorted (d : SortDirection) : SortBy → List SignedEntry → Prop
  | .authorKey, l => (l.map (·.entry.id)).Pairwise d.Before
  | .keyAuthor, l => (l.map byKeyId).Pairwise d.Before

theorem mem_nextFilterMap {α β : Type} {d : SortDirection} {f : α → Option β} {l : List α}
    {b : β} : b ∈ nextFilterMap d f l ↔ ∃ a ∈ l, f a = some b := by
  cases d <;> simp [nextFilterMap, List.mem_filterMap]

/-- Reading a sorted range forwards or backwards, keeping what the callback keeps,
keeps the order. -/
theorem pairwise_nextFilterMap {α β γ : Type} [LT γ] (d : SortDirection) {f : α → Option β}
    (kα : α → γ) {kβ : β → γ} (hk : ∀ a b, f a = some b → kβ b = kα a) {l : List α}
    (hl : (l.map kα).Pairwise (· < ·)) : ((nextFilterMap d f l).map kβ).Pairwise d.Before := by
  rw [List.pairwise_map] at hl ⊢
  cases d with
  | asc =>
    refine hl.filterMap f fun a a' hlt b hb b' hb' => ?_
    show kβ b < kβ b'
    rw [hk a b hb, hk a' b' hb']
    exact hlt
  | desc =>
    refine (List.pairwise_reverse.mpr hl).filterMap f fun a a' hlt b hb b' hb' => ?_
    show kβ b' < kβ b
    rw [hk a b hb, hk a' b' hb']
    exact hlt

theorem mem_recordsRange_nextFiltered {t : Records} {b : RecordsBounds} {d : SortDirection}
    {p : RecordIdentifier × RecordsValue → Bool} {e : SignedEntry} :
    e ∈ RecordsRange.nextFiltered (t.range b) d p ↔
      ∃ r ∈ t.rows, b.contains r.1 = true ∧ p r = true ∧ intoEntry r.1 r.2 = e := by
  simp only [RecordsRange.nextFiltered, mem_nextFilterMap, Records.mem_range, Option.ite_none_right_eq_some,
    Option.some.injEq, and_assoc]

theorem sorted_recordsRange_nextFiltered (t : Records) (b : RecordsBounds) (d : SortDirection)
    (p : RecordIdentifier × RecordsValue → Bool) :
    ((RecordsRange.nextFiltered (t.range b) d p).map (·.entry.id)).Pairwise d.Before := by
  refine pairwise_nextFilterMap d Prod.fst (fun r e h => ?_) ?_
  · rw [Option.ite_none_right_eq_some, Option.some.injEq] at h
    rw [← h.2, intoEntry_id]
  · exact List.pairwise_map.mpr (t.sorted.filter _)

theorem mem_recordsByKeyRange_nextFiltered {t : Records} {rows : List (RecordsByKeyId × Unit)}
    {d : SortDirection} {f : RecordsByKeyId → Bool} {e : SignedEntry} :
    e ∈ RecordsByKeyRange.nextFiltered t rows d f ↔
      ∃ k ∈ rows, f k.1 = true ∧ ∃ v, t.get ⟨k.1.ns, k.1.author, k.1.key⟩ = some v ∧
        intoEntry ⟨k.1.ns, k.1.author, k.1.key⟩ v = e := by
  simp only [RecordsByKeyRange.nextFiltered, mem_nextFilterMap, Option.ite_none_right_eq_some,
    Option.map_eq_some_iff]

theorem sorted_recordsByKeyRange_nextFiltered (t : Records) {rows : List (RecordsByKeyId × Unit)}
    (hrows : rows.Pairwise fun a b => a.1 < b.1) (d : SortDirection) (f : RecordsByKeyId → Bool) :
    ((RecordsByKeyRange.nextFiltered t rows d f).map byKeyId).Pairwise d.Before := by
  refine pairwise_nextFilterMap d Prod.fst (fun k e h => ?_) (List.pairwise_map.mpr hrows)
  rw [Option.ite_none_right_eq_some, Option.map_eq_some_iff] at h
  obtain ⟨-, v, -, rfl⟩ := h
  rfl

/-- With the bounds exact, the author and key bounds hold the author's keys that the
filter matches. -/
theorem authorKey_contains_matches {ns : NamespaceId} {author : AuthorId} {F : KeyFilter}
    (hexact : F.BoundsExact) {id : RecordIdentifier} :
    (RecordsBounds.authorKey ns author F).contains id = true ↔
      id.ns = ns ∧ id.author = author ∧ F.matches id.key = true := by
  cases F with
  | any =>
    rw [show RecordsBounds.authorKey ns author .any = RecordsBounds.authorKey ns author (.keyPrefix [])
      from rfl, RecordsBounds.authorKey_contains_iff (.inr fun _ h => absurd h List.not_mem_nil)]
    simp [KeyFilter.matches]
  | exact k =>
    rw [RecordsBounds.authorKey_exact_contains_iff]
    obtain ⟨n, a, key⟩ := id
    simp only [RecordIdentifier.mk.injEq, KeyFilter.matches, beq_iff_eq]
    rw [@eq_comm _ k key]
  | keyPrefix p =>
    rw [RecordsBounds.authorKey_contains_iff hexact]
    simp [KeyFilter.matches]

/-- With the bounds exact, the by-key bounds hold the namespace's keys that the filter
matches. -/
theorem byKeyBounds_contains_matches {ns : NamespaceId} {F : KeyFilter} (hexact : F.BoundsExact)
    {id : RecordsByKeyId} :
    (ByKeyBounds.new ns F).contains id = true ↔ id.ns = ns ∧ F.matches id.key = true := by
  cases F with
  | any =>
    rw [show ByKeyBounds.new ns .any = ByKeyBounds.namespace ns from rfl,
      ByKeyBounds.namespace_contains]
    simp [KeyFilter.matches]
  | exact k =>
    rw [ByKeyBounds.new_exact_contains_iff]
    simp only [KeyFilter.matches, beq_iff_eq]
    rw [@eq_comm _ k id.key]
  | keyPrefix p =>
    rw [ByKeyBounds.new_contains_iff hexact]
    simp [KeyFilter.matches]


/-- Within one namespace and author the by-key order is the order of identifiers. -/
theorem byKeyId_lt_iff {e e' : SignedEntry} (hns : e.entry.id.ns = e'.entry.id.ns)
    (ha : e.entry.id.author = e'.entry.id.author) : byKeyId e < byKeyId e' ↔ e.entry.id < e'.entry.id := by
  rw [RecordsByKeyId.lt_iff, RecordIdentifier.lt_iff]
  simp only [byKeyId, hns, ha, lt_irrefl, false_or, true_and, and_false, or_false]

theorem byKeyId_before_iff {d : SortDirection} {e e' : SignedEntry} (hns : e.entry.id.ns = e'.entry.id.ns)
    (ha : e.entry.id.author = e'.entry.id.author) :
    d.Before (byKeyId e) (byKeyId e') ↔ d.Before e.entry.id e'.entry.id := by
  cases d with
  | asc => exact byKeyId_lt_iff hns ha
  | desc => exact byKeyId_lt_iff hns.symm ha.symm

theorem isEmpty_intoEntry (id : RecordIdentifier) (value : RecordsValue) :
    (intoEntry id value).entry.record.isEmpty = valueIsEmpty value := rfl

theorem selects_iff {q : Query} {ns : NamespaceId} {r : RecordIdentifier × RecordsValue} :
    q.Selects ns r = true ↔ r.1.ns = ns ∧ q.filterAuthor.matches r.1.author = true ∧
      q.filterKey.matches r.1.key = true ∧ (q.includeEmpty || !valueIsEmpty r.2) = true := by
  simp only [Query.Selects, Bool.and_eq_true, decide_eq_true_eq, and_assoc]

section Flat
variable {t : Tables} {ns : NamespaceId} {q : Query}

/-- By author and key, with any author: the namespace's rows, each filtered. -/
theorem mem_queryStream_authorKey_any (hkind : q.kind = .flat .authorKey) (ha : q.filterAuthor = .any)
    {e : SignedEntry} :
    e ∈ queryStream t ns q ↔ ∃ r ∈ t.records.rows, q.Selects ns r = true ∧ intoEntry r.1 r.2 = e := by
  simp only [queryStream, IndexKind.ofQuery, hkind, ha, mem_recordsRange_nextFiltered,
    RecordsBounds.namespace_contains, selects_iff, AuthorFilter.matches, Bool.and_eq_true, true_and,
    and_assoc]

/-- By author and key, with an exact author: the author's rows within the key filter's
bounds. -/
theorem mem_queryStream_authorKey_exact (hexact : q.filterKey.BoundsExact) {a : AuthorId}
    (ha : q.filterAuthor = .exact a) {e : SignedEntry}
    (hs : queryStream t ns q = RecordsRange.nextFiltered
      (t.records.range (RecordsBounds.authorKey ns a q.filterKey)) q.sortDirection
      fun r => KeyFilter.any.matches r.1.key && (q.includeEmpty || !valueIsEmpty r.2)) :
    e ∈ queryStream t ns q ↔ ∃ r ∈ t.records.rows, q.Selects ns r = true ∧ intoEntry r.1 r.2 = e := by
  rw [hs, mem_recordsRange_nextFiltered]
  simp only [authorKey_contains_matches hexact, selects_iff, ha, AuthorFilter.matches, KeyFilter.matches,
    beq_iff_eq, Bool.true_and]
  constructor
  · rintro ⟨r, hr, ⟨hns, hau, hkey⟩, hne, rfl⟩
    exact ⟨r, hr, ⟨hns, hau.symm, hkey, hne⟩, rfl⟩
  · rintro ⟨r, hr, ⟨hns, hau, hkey, hne⟩, rfl⟩
    exact ⟨r, hr, ⟨hns, hau.symm, hkey⟩, hne, rfl⟩

/-- By key and author, with any author: the rows of the by-key index within the key
filter's bounds, read from the records table. -/
theorem mem_queryStream_keyAuthor (hkind : q.kind = .flat .keyAuthor) (ha : q.filterAuthor = .any)
    (hexact : q.filterKey.BoundsExact) (hcov : t.ByKeyCovers) {e : SignedEntry} :
    e ∈ queryStream t ns q ↔ ∃ r ∈ t.records.rows, q.Selects ns r = true ∧ intoEntry r.1 r.2 = e := by
  simp only [queryStream, IndexKind.ofQuery, hkind, ha, keyAuthorStream, Bool.false_eq_true,
    if_false, List.mem_filter, mem_recordsByKeyRange_nextFiltered, byKeyBounds_contains_matches hexact,
    AuthorFilter.matches, true_and, Records.get_eq_some]
  constructor
  · rintro ⟨⟨k, ⟨hk, hns, hkey⟩, v, hv, rfl⟩, hne⟩
    refine ⟨_, hv, selects_iff.mpr ⟨hns, by rw [ha]; rfl, hkey, ?_⟩, rfl⟩
    rwa [isEmpty_intoEntry] at hne
  · rintro ⟨r, hr, hsel, rfl⟩
    obtain ⟨hns, -, hkey, hne⟩ := selects_iff.mp hsel
    exact ⟨⟨_, ⟨hcov r hr, hns, hkey⟩, r.2, hr, rfl⟩, by rwa [isEmpty_intoEntry]⟩

end Flat

/-- **A flat query reads the records it selects, each once, in its order**, when its key
filter's bounds are exact and the by-key index holds every record; `get_many` drops
the offset and takes the limit of what it reads (`getMany_eq`). -/
theorem flatQuery_stream (t : Tables) (ns : NamespaceId) (q : Query) (sortBy : SortBy)
    (hkind : q.kind = .flat sortBy) (hexact : q.filterKey.BoundsExact) (hcov : t.ByKeyCovers) :
    (∀ e, e ∈ queryStream t ns q ↔ ∃ r ∈ t.records.rows, q.Selects ns r = true ∧ intoEntry r.1 r.2 = e) ∧
      sortBy.Sorted q.sortDirection (queryStream t ns q) := by
  cases ha : q.filterAuthor with
  | any =>
    cases sortBy with
    | authorKey =>
      refine ⟨fun e => mem_queryStream_authorKey_any hkind ha, ?_⟩
      simp only [queryStream, IndexKind.ofQuery, hkind, ha]
      exact sorted_recordsRange_nextFiltered _ _ _ _
    | keyAuthor =>
      refine ⟨fun e => mem_queryStream_keyAuthor hkind ha hexact hcov, ?_⟩
      simp only [queryStream, IndexKind.ofQuery, hkind, ha, keyAuthorStream, Bool.false_eq_true, if_false]
      exact (sorted_recordsByKeyRange_nextFiltered _ (t.recordsByKey.sorted.filter _) _ _).sublist
        (List.filter_sublist.map _)
  | exact a =>
    have hs : queryStream t ns q = RecordsRange.nextFiltered
        (t.records.range (RecordsBounds.authorKey ns a q.filterKey)) q.sortDirection
        fun r => KeyFilter.any.matches r.1.key && (q.includeEmpty || !valueIsEmpty r.2) := by
      cases sortBy <;> simp only [queryStream, IndexKind.ofQuery, hkind, ha]
    have hmem : ∀ e, e ∈ queryStream t ns q ↔
        ∃ r ∈ t.records.rows, q.Selects ns r = true ∧ intoEntry r.1 r.2 = e :=
      fun e => mem_queryStream_authorKey_exact hexact ha hs
    refine ⟨hmem, ?_⟩
    have hsorted := sorted_recordsRange_nextFiltered t.records (RecordsBounds.authorKey ns a q.filterKey)
      q.sortDirection fun r => KeyFilter.any.matches r.1.key && (q.includeEmpty || !valueIsEmpty r.2)
    rw [← hs] at hsorted
    cases sortBy with
    | authorKey => exact hsorted
    | keyAuthor =>
      have hsame : ∀ e ∈ queryStream t ns q, e.entry.id.ns = ns ∧ e.entry.id.author = a := by
        intro e he
        obtain ⟨r, -, hsel, rfl⟩ := (hmem e).mp he
        obtain ⟨hns, hau, -⟩ := selects_iff.mp hsel
        simp only [ha, AuthorFilter.matches, beq_iff_eq] at hau
        exact ⟨hns, hau.symm⟩
      show ((queryStream t ns q).map byKeyId).Pairwise _
      rw [List.pairwise_map] at hsorted ⊢
      refine hsorted.imp_of_mem fun he he' hbefore => ?_
      rw [byKeyId_before_iff ((hsame _ he).1.trans (hsame _ he').1.symm)
        ((hsame _ he).2.trans (hsame _ he').2.symm)]
      exact hbefore

/-- A prefix query of one author over a table of one record under the prefix. -/
theorem flatQuery_stream_prefix :
    let t : Tables := Tables.empty.entryPut (syncedEntry [1, 2] 1)
    let q : Query := ⟨.flat .authorKey, .exact 0, .keyPrefix [1], none, 0, false, .asc⟩
    q.kind = .flat .authorKey ∧ q.filterKey.BoundsExact ∧ t.ByKeyCovers ∧
      (∀ e, e ∈ queryStream t 0 q ↔ ∃ r ∈ t.records.rows, q.Selects 0 r = true ∧ intoEntry r.1 r.2 = e) ∧
        SortBy.authorKey.Sorted q.sortDirection (queryStream t 0 q) := by
  intro t q
  have hexact : q.filterKey.BoundsExact := .inl (by decide)
  have hcov : t.ByKeyCovers := Tables.byKeyCovers_empty.entryPut _
  exact ⟨rfl, hexact, hcov, flatQuery_stream t 0 q .authorKey rfl hexact hcov⟩

end Iroh.Docs.Store
