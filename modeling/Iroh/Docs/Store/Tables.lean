import Iroh.Docs.Heads
import Iroh.Docs.Store.Bounds

/-! The store's tables as `entry_put` writes them (`store/fs.rs`, `store/fs/tables.rs`):
the records, the by-key index and the latest entry of each author in a namespace,
and the two reads of the latest table, `get_latest_for_each_author` and
`has_news_for_us`.

`entry_put` writes the author's latest row whatever the row held, and
`remove_replica` clears the records and by-key rows of a namespace but not its
latest rows. The table is exact (`LatestExact`: an author's row names the greatest
timestamp among its records in the namespace, and a key with it) as long as every
entry put is at least as new as its author's records there (`LatestExact.putAll`),
and then `has_news_for_us` compares the peer's heads with the heads of the records
(`hasNewsForUs_eq`). -/
namespace Iroh.Docs.Store

open Ranger

/-! ### The tables -/

/-- A key of `LATEST_PER_AUTHOR_TABLE`, `(namespace, author)` in byte order. -/
abbrev LatestPerAuthorKey := NamespaceId ×ₗ AuthorId

/-- `LATEST_PER_AUTHOR_TABLE`: the timestamp and key of an author's latest entry in a
namespace, its rows in key order. -/
structure LatestPerAuthor where
  rows : List (LatestPerAuthorKey × (UInt64 × List Byte))
  sorted : rows.Pairwise fun a b => a.1 < b.1

/-- `RECORDS_BY_KEY_TABLE`: the records' identifiers as `(namespace, key, author)`. -/
structure RecordsByKey where
  rows : List (RecordsByKeyId × Unit)
  sorted : rows.Pairwise fun a b => a.1 < b.1

/-- The tables a replica's entries are written to. -/
structure Tables where
  records : Records
  recordsByKey : RecordsByKey
  latestPerAuthor : LatestPerAuthor

namespace LatestPerAuthor

/-- `table.get((namespace, author))`. -/
def get (t : LatestPerAuthor) (ns : NamespaceId) (author : AuthorId) : Option (UInt64 × List Byte) :=
  SimpleStore.lookup t.rows (toLex (ns, author))

/-- `table.insert((namespace, author), (timestamp, key))`. -/
def insert (t : LatestPerAuthor) (ns : NamespaceId) (author : AuthorId)
    (value : UInt64 × List Byte) : LatestPerAuthor :=
  ⟨SimpleStore.insertKey (toLex (ns, author)) value t.rows, SimpleStore.insertKey_sorted _ _ t.sorted⟩

theorem get_insert_self (t : LatestPerAuthor) (ns : NamespaceId) (author : AuthorId)
    (value : UInt64 × List Byte) : (t.insert ns author value).get ns author = some value :=
  SimpleStore.lookup_insertKey_self t.sorted _ _

theorem get_insert_of_ne (t : LatestPerAuthor) {ns ns' : NamespaceId} {author author' : AuthorId}
    (value : UInt64 × List Byte) (hne : ¬ (ns' = ns ∧ author' = author)) :
    (t.insert ns author value).get ns' author' = t.get ns' author' := by
  refine SimpleStore.lookup_insertKey_of_ne t.sorted _ fun h => hne ?_
  simpa using h

end LatestPerAuthor

/-- `table.insert((namespace, key, author), ())`. -/
def RecordsByKey.insert (t : RecordsByKey) (id : RecordsByKeyId) : RecordsByKey :=
  ⟨SimpleStore.insertKey id () t.rows, SimpleStore.insertKey_sorted _ _ t.sorted⟩

namespace Tables

/-- Tables with no rows. -/
def empty : Tables := ⟨⟨[], .nil⟩, ⟨[], .nil⟩, ⟨[], .nil⟩⟩

/-- `StoreInstance::entry_put`: the record, its by-key row, and the author's latest
row with the entry's timestamp and key. -/
def entryPut (t : Tables) (e : SignedEntry) : Tables where
  records := Store.entryPut t.records e
  recordsByKey := t.recordsByKey.insert ⟨e.entry.id.ns, e.entry.id.key, e.entry.id.author⟩
  latestPerAuthor := t.latestPerAuthor.insert e.entry.id.ns e.entry.id.author
    (e.entry.record.timestamp, e.entry.id.key)

/-- `StoreInstance::remove_prefix_filtered`, which extracts from the records table only. -/
def removePrefixFiltered (t : Tables) (id : RecordIdentifier) (predicate : Record → Bool) :
    Tables × Nat :=
  let removed := Store.removePrefixFiltered t.records id predicate
  ({ t with records := removed.1 }, removed.2)

/-- `Store::remove_replica`: refused while the replica is open; otherwise the
namespace's records and by-key rows are cleared (with its rows in the namespace,
peer and download policy tables, which nothing here reads) and its latest rows kept. -/
def removeReplica (openReplicas : List NamespaceId) (t : Tables) (ns : NamespaceId) :
    Except String Tables :=
  if ns ∈ openReplicas then .error "replica is not closed"
  else .ok { t with
    records := ⟨t.records.rows.filter fun r => !(RecordsBounds.namespace ns).contains r.1,
      t.records.sorted.filter _⟩
    recordsByKey := ⟨t.recordsByKey.rows.filter fun r => !(ByKeyBounds.namespace ns).contains r.1,
      t.recordsByKey.sorted.filter _⟩ }

/-- `Store::get_latest_for_each_author`: the latest rows from `(namespace, [0; 32])`
to `(namespace, [255; 32])`. -/
def getLatestForEachAuthor (t : Tables) (ns : NamespaceId) : List (AuthorId × UInt64 × List Byte) :=
  (t.latestPerAuthor.rows.filter fun r => toLex (ns, 0) ≤ r.1 ∧ r.1 ≤ toLex (ns, lastAuthor)).map
    fun r => ((ofLex r.1).2, r.2.1, r.2.2)

/-- `Store::has_news_for_us`: the peer's heads against the heads of our latest rows. -/
def hasNewsForUs (t : Tables) (ns : NamespaceId) (heads : AuthorHeads) : Option Nat :=
  let ourHeads := (t.getLatestForEachAuthor ns).foldl (fun h e => h.insert e.1 e.2.1) AuthorHeads.empty
  heads.hasNewsFor ourHeads

end Tables

/-- `StoreInstance` of a namespace over the tables. -/
def tablesInstance (ns : NamespaceId) (empty : Fingerprint)
    (asFingerprint : SignedEntry → Fingerprint) :
    Ranger.Store Tables SignedEntry RecordIdentifier Record where
  getFirst t := getFirst ns t.records
  getFingerprint t := getFingerprint ns empty asFingerprint t.records
  entryPut := Tables.entryPut
  getRange t := getRange ns t.records
  prefixesOf t := prefixesOf t.records
  removePrefixFiltered := Tables.removePrefixFiltered

/-- The heads of a namespace's records: each author's greatest timestamp there, which
is what the latest table stands for. -/
def recordHeads (t : Records) (ns : NamespaceId) : AuthorHeads :=
  (t.rows.filter fun r => r.1.ns = ns).foldl (fun h r => h.insert r.1.author r.2.timestamp)
    AuthorHeads.empty


/-! ### What the latest table holds -/

theorem latestRange_iff {ns : NamespaceId} {k : LatestPerAuthorKey} :
    (toLex (ns, 0) ≤ k ∧ k ≤ toLex (ns, lastAuthor)) ↔ (ofLex k).1 = ns := by
  simp only [Prod.Lex.le_iff, ofLex_toLex]
  constructor
  · rintro ⟨hlo, hhi⟩
    have h₁ : ns ≤ (ofLex k).1 := hlo.elim le_of_lt fun h => h.1.le
    have h₂ : (ofLex k).1 ≤ ns := hhi.elim le_of_lt fun h => h.1.le
    exact le_antisymm h₂ h₁
  · intro h
    exact ⟨.inr ⟨h.symm, Fin.zero_le _⟩, .inr ⟨h, le_lastAuthor _⟩⟩

/-- **An author's entry in `get_latest_for_each_author` is its latest row.** -/
theorem mem_getLatestForEachAuthor {t : Tables} {ns : NamespaceId} {author : AuthorId}
    {timestamp : UInt64} {key : List Byte} :
    (author, timestamp, key) ∈ t.getLatestForEachAuthor ns ↔
      t.latestPerAuthor.get ns author = some (timestamp, key) := by
  rw [LatestPerAuthor.get, SimpleStore.lookup_eq_some t.latestPerAuthor.sorted]
  simp only [Tables.getLatestForEachAuthor, List.mem_map, List.mem_filter, decide_eq_true_eq,
    latestRange_iff]
  constructor
  · rintro ⟨⟨k, v⟩, ⟨hr, hns⟩, heq⟩
    simp only [Prod.mk.injEq] at heq
    obtain ⟨ha, hv⟩ := heq
    have hk : k = toLex (ns, author) := by
      rw [← hns, ← ha]
      rfl
    rw [← hk, show (timestamp, key) = v from Prod.ext hv.1.symm hv.2.symm]
    exact hr
  · intro h
    exact ⟨_, ⟨h, rfl⟩, rfl⟩

/-- The timestamps `has_news_for_us` inserts for an author are those of its latest row. -/
theorem isLatest_getLatestForEachAuthor (t : Tables) (ns : NamespaceId) (author : AuthorId) :
    AuthorHeads.IsLatest (((t.getLatestForEachAuthor ns).filter fun e => e.1 = author).map
      fun e => e.2.1) ((t.latestPerAuthor.get ns author).map Prod.fst) := by
  cases hg : t.latestPerAuthor.get ns author with
  | none =>
    show _ = []
    simp only [List.map_eq_nil_iff, List.filter_eq_nil_iff, decide_eq_true_eq]
    rintro ⟨a, ts, key⟩ hm rfl
    rw [mem_getLatestForEachAuthor, hg] at hm
    cases hm
  | some v =>
    obtain ⟨ts, key⟩ := v
    have hmem : (author, ts, key) ∈ t.getLatestForEachAuthor ns := mem_getLatestForEachAuthor.mpr hg
    refine ⟨List.mem_map.mpr ⟨_, List.mem_filter.mpr ⟨hmem, by simp⟩, rfl⟩, fun t' ht' => ?_⟩
    obtain ⟨⟨a, ts', key'⟩, hm, rfl⟩ := List.mem_map.mp ht'
    obtain ⟨hlatest, ha⟩ := List.mem_filter.mp hm
    obtain rfl : a = author := of_decide_eq_true ha
    rw [mem_getLatestForEachAuthor, hg] at hlatest
    obtain ⟨rfl, -⟩ := Prod.mk.inj (Option.some.inj hlatest)
    exact UInt64.le_refl _

/-- What an author's latest row in a namespace must be for the records: none when the
author has no record there; else the greatest timestamp of its records there, and
the key of a record with it. -/
def LatestOf (rows : List (RecordIdentifier × RecordsValue)) (ns : NamespaceId)
    (author : AuthorId) : Option (UInt64 × List Byte) → Prop
  | none => ∀ r ∈ rows, r.1.ns = ns → r.1.author ≠ author
  | some (timestamp, key) => (∃ v, (⟨ns, author, key⟩, v) ∈ rows ∧ v.timestamp = timestamp) ∧
      ∀ r ∈ rows, r.1.ns = ns → r.1.author = author → r.2.timestamp ≤ timestamp

/-- Only the author's own rows in the namespace decide what its latest row must be. -/
theorem LatestOf.of_rows {rows rows' : List (RecordIdentifier × RecordsValue)} {ns : NamespaceId}
    {author : AuthorId} {o : Option (UInt64 × List Byte)} (h : LatestOf rows ns author o)
    (hrows : ∀ r : RecordIdentifier × RecordsValue, r.1.ns = ns → r.1.author = author →
      (r ∈ rows' ↔ r ∈ rows)) :
    LatestOf rows' ns author o := by
  match o, h with
  | none, h => exact fun r hr hns ha => h r ((hrows r hns ha).mp hr) hns ha
  | some (timestamp, key), ⟨⟨v, hv, hts⟩, hle⟩ =>
    exact ⟨⟨v, (hrows _ rfl rfl).mpr hv, hts⟩,
      fun r hr hns ha => hle r ((hrows r hns ha).mp hr) hns ha⟩

/-- A row that is what the records say holds the greatest of the author's timestamps. -/
theorem LatestOf.isLatest {rows : List (RecordIdentifier × RecordsValue)} {ns : NamespaceId}
    {author : AuthorId} {o : Option (UInt64 × List Byte)} (h : LatestOf rows ns author o) :
    AuthorHeads.IsLatest (((rows.filter fun r => r.1.ns = ns).filter fun r => r.1.author = author).map
      fun r => r.2.timestamp) (o.map Prod.fst) := by
  match o, h with
  | none, h =>
    show _ = []
    simp only [List.map_eq_nil_iff, List.filter_eq_nil_iff, List.mem_filter, decide_eq_true_eq]
    exact fun r ⟨hr, hns⟩ ha => h r hr hns ha
  | some (timestamp, key), ⟨⟨v, hv, hts⟩, hle⟩ =>
    refine ⟨List.mem_map.mpr ⟨(⟨ns, author, key⟩, v), by simp [hv], hts⟩, fun t' ht' => ?_⟩
    obtain ⟨r, hr, rfl⟩ := List.mem_map.mp ht'
    simp only [List.mem_filter, decide_eq_true_eq] at hr
    exact hle r hr.1.1 hr.1.2 hr.2

/-- The rows `remove_prefix_filtered` keeps of another namespace or author: all of them. -/
theorem mem_removePrefixFiltered_of_ne {t : Records} {id : RecordIdentifier} {p : Record → Bool}
    {r : RecordIdentifier × RecordsValue} (hne : ¬ (r.1.ns = id.ns ∧ r.1.author = id.author)) :
    r ∈ (Store.removePrefixFiltered t id p).1.rows ↔ r ∈ t.rows := by
  have hout : (RecordsBounds.authorPrefix id.ns id.author id.key).contains r.1 = false :=
    Bool.eq_false_iff.mpr fun h => hne ⟨(RecordsBounds.authorKey_contains_between h).1,
      (RecordsBounds.authorKey_contains_between h).2.1⟩
  simp [Store.removePrefixFiltered, hout]

namespace Tables

/-- The latest-per-author table is exact: every author's row in every namespace is
what the records there say it must be. -/
def LatestExact (t : Tables) : Prop :=
  ∀ ns author, LatestOf t.records.rows ns author (t.latestPerAuthor.get ns author)

/-- An entry at least as new as every record of its author in its namespace. -/
def IsNewest (t : Tables) (e : SignedEntry) : Prop :=
  ∀ r ∈ t.records.rows, r.1.ns = e.entry.id.ns → r.1.author = e.entry.id.author →
    r.2.timestamp ≤ e.entry.record.timestamp

theorem latestExact_empty : empty.LatestExact := fun _ _ _ hr => nomatch hr

/-- Writing an entry at least as new as its author's records keeps the table exact,
also after a removal that takes rows of the entry's namespace and author only. -/
theorem LatestExact.entryPut_of_removal {t t' : Tables} (h : t.LatestExact) {e : SignedEntry}
    (hnew : t.IsNewest e) (hsub : ∀ r ∈ t'.records.rows, r ∈ t.records.rows)
    (hother : ∀ r : RecordIdentifier × RecordsValue,
      ¬ (r.1.ns = e.entry.id.ns ∧ r.1.author = e.entry.id.author) →
        (r ∈ t'.records.rows ↔ r ∈ t.records.rows))
    (hlatest : t'.latestPerAuthor = t.latestPerAuthor) : (t'.entryPut e).LatestExact := by
  intro ns author
  show LatestOf (Store.entryPut t'.records e).rows ns author
    ((t'.latestPerAuthor.insert _ _ _).get ns author)
  by_cases hk : ns = e.entry.id.ns ∧ author = e.entry.id.author
  · obtain ⟨rfl, rfl⟩ := hk
    rw [LatestPerAuthor.get_insert_self]
    refine ⟨⟨_, mem_entryPut.mpr (.inl rfl), rfl⟩, fun r hr hns ha => ?_⟩
    rcases mem_entryPut.mp hr with rfl | ⟨hr, -⟩
    · exact UInt64.le_refl _
    · exact hnew r (hsub r hr) hns ha
  · rw [LatestPerAuthor.get_insert_of_ne _ _ hk, hlatest]
    refine (h ns author).of_rows fun r hns ha => ?_
    have hne : ¬ (r.1.ns = e.entry.id.ns ∧ r.1.author = e.entry.id.author) :=
      fun ⟨h₁, h₂⟩ => hk ⟨hns.symm.trans h₁, ha.symm.trans h₂⟩
    have hid : r.1 ≠ e.entry.id :=
      fun hid => hne ⟨congrArg RecordIdentifier.ns hid, congrArg RecordIdentifier.author hid⟩
    rw [mem_entryPut, ← hother r hne]
    constructor
    · rintro (rfl | ⟨hr, -⟩)
      · exact absurd rfl hid
      · exact hr
    · exact fun hr => .inr ⟨hr, hid⟩

end Tables

section Put
variable (ns : NamespaceId) (empty : Fingerprint) (asFingerprint : SignedEntry → Fingerprint)

/-- **`Store::put` keeps the latest table exact** for an entry at least as new as its
author's records in its namespace: what it removes is of that author. -/
theorem Tables.LatestExact.put {t : Tables} (h : t.LatestExact) {e : SignedEntry}
    (hnew : t.IsNewest e) :
    (put (tablesInstance ns empty asFingerprint) (signedEntry asFingerprint) t e).1.LatestExact := by
  rcases put_cases (tablesInstance ns empty asFingerprint) (signedEntry asFingerprint) t e with
    hput | hput
  · rw [hput]
    exact h
  · rw [hput]
    have hkept : ∀ r : RecordIdentifier × RecordsValue,
        ¬ (r.1.ns = e.entry.id.ns ∧ r.1.author = e.entry.id.author) →
          (r ∈ (Store.removePrefixFiltered t.records e.entry.id
            fun v => decide (v ≤ e.entry.record)).1.rows ↔ r ∈ t.records.rows) :=
      fun r hne => mem_removePrefixFiltered_of_ne hne
    exact h.entryPut_of_removal hnew (fun r hr => (List.mem_filter.mp hr).1) hkept rfl

/-- The tables after `Store::put` of each entry in turn. -/
def Tables.putAll (t : Tables) (es : List SignedEntry) : Tables :=
  es.foldl (fun t e => (put (tablesInstance ns empty asFingerprint) (signedEntry asFingerprint) t e).1) t

/-- Each entry, when it is put, at least as new as its author's records in its namespace. -/
def Tables.PutsInOrder : Tables → List SignedEntry → Prop
  | _, [] => True
  | t, e :: es => t.IsNewest e ∧
      Tables.PutsInOrder (put (tablesInstance ns empty asFingerprint) (signedEntry asFingerprint) t e).1 es

/-- Entries put in order keep the latest table exact. -/
theorem Tables.LatestExact.putAll {t : Tables} (h : t.LatestExact) {es : List SignedEntry}
    (hes : t.PutsInOrder ns empty asFingerprint es) : (t.putAll ns empty asFingerprint es).LatestExact := by
  induction es generalizing t with
  | nil => exact h
  | cons e es ih => exact ih (h.put ns empty asFingerprint hes.1) hes.2

/-- Two entries of one author, the later one newer, put into the empty tables. -/
theorem putAll_two_entries :
    let es : List SignedEntry := [⟨⟨0, 0⟩, ⟨⟨0, 0, [1]⟩, ⟨1, 1, 1⟩⟩⟩, ⟨⟨0, 0⟩, ⟨⟨0, 0, [2]⟩, ⟨1, 1, 2⟩⟩⟩]
    Tables.empty.PutsInOrder 0 0 (fun _ => 0) es ∧ (Tables.empty.putAll 0 0 (fun _ => 0) es).LatestExact := by
  intro es
  have hes : Tables.empty.PutsInOrder 0 0 (fun _ => 0) es := by
    show Tables.IsNewest _ _ ∧ Tables.IsNewest _ _ ∧ True
    refine ⟨(fun _ hr => nomatch hr), ?_, trivial⟩
    unfold Tables.IsNewest
    decide
  exact ⟨hes, Tables.LatestExact.putAll 0 0 (fun _ => 0) Tables.latestExact_empty hes⟩

end Put

/-- **With the table exact, `has_news_for_us` compares the peer's heads with the heads
of the records.** -/
theorem Tables.hasNewsForUs_eq {t : Tables} (h : t.LatestExact) (ns : NamespaceId)
    (heads : AuthorHeads) : t.hasNewsForUs ns heads = heads.hasNewsFor (recordHeads t.records ns) := by
  have hheads : (t.getLatestForEachAuthor ns).foldl (fun h e => h.insert e.1 e.2.1) AuthorHeads.empty =
      recordHeads t.records ns := by
    apply AuthorHeads.ext
    intro author
    have hours := AuthorHeads.isLatest_foldl_insert (fun e => e.1) (fun e => e.2.1)
      (t.getLatestForEachAuthor ns) author
    have hrecs := AuthorHeads.isLatest_foldl_insert (fun r => r.1.author) (fun r => r.2.timestamp)
      (t.records.rows.filter fun r => r.1.ns = ns) author
    calc _ = (t.latestPerAuthor.get ns author).map Prod.fst :=
          hours.unique (isLatest_getLatestForEachAuthor t ns author)
      _ = _ := (h ns author).isLatest.unique hrecs
  show heads.hasNewsFor _ = _
  rw [hheads]

/-- The table after one entry of author 0 put into the empty store. -/
theorem hasNewsForUs_eq_one_entry :
    let imported := (put (tablesInstance 0 0 fun _ => 0) (signedEntry fun _ => 0) Tables.empty
      ⟨⟨0, 0⟩, ⟨⟨0, 0, [1]⟩, ⟨1, 1, 2⟩⟩⟩).1
    imported.LatestExact ∧ imported.hasNewsForUs 0 (AuthorHeads.empty.insert 0 3) =
      (AuthorHeads.empty.insert 0 3).hasNewsFor (recordHeads imported.records 0) := by
  intro imported
  have h : imported.LatestExact :=
    Tables.LatestExact.put 0 0 (fun _ => 0) Tables.latestExact_empty fun _ hr => nomatch hr
  exact ⟨h, Tables.hasNewsForUs_eq h 0 _⟩

/-! ### Where the table leaves the records -/

/-- An entry of author 0 in namespace 0 at a key. -/
def syncedEntry (key : List Byte) (timestamp : UInt64) : SignedEntry :=
  ⟨⟨0, 0⟩, ⟨⟨0, 0, key⟩, ⟨1, 1, timestamp⟩⟩⟩

/-- An older entry of an author that a sync delivers after a newer one overwrites the
author's latest row, and a removed replica keeps its latest rows: in both the peer's
heads are compared with heads the records do not have. -/
theorem latest_per_author_leaves_records :
    let step := fun t e => (put (tablesInstance 0 0 fun _ => 0) (signedEntry fun _ => 0) t e).1
    let synced := step (step Tables.empty (syncedEntry [1] 2)) (syncedEntry [2] 1)
    let imported := step Tables.empty (syncedEntry [1] 2)
    (synced.records.rows.map fun r => (r.1, r.2.timestamp)) = [(⟨0, 0, [1]⟩, 2), (⟨0, 0, [2]⟩, 1)] ∧
      synced.getLatestForEachAuthor 0 = [(0, 1, [2])] ∧
      synced.hasNewsForUs 0 (AuthorHeads.empty.insert 0 2) = some 1 ∧
      (AuthorHeads.empty.insert 0 2).hasNewsFor (recordHeads synced.records 0) = none ∧
      ∃ removed, Tables.removeReplica [] imported 0 = .ok removed ∧ removed.records.rows = [] ∧
        removed.getLatestForEachAuthor 0 = [(0, 2, [1])] ∧
        removed.hasNewsForUs 0 (AuthorHeads.empty.insert 0 1) = none ∧
        (AuthorHeads.empty.insert 0 1).hasNewsFor (recordHeads removed.records 0) = some 1 := by
  intro step synced imported
  exact ⟨by decide, by decide, by decide, by decide, _, rfl, by decide, by decide, by decide, by decide⟩


/-! ### The by-key index holds every record -/

/-- The by-key index has a row for every record. -/
def Tables.ByKeyCovers (t : Tables) : Prop :=
  ∀ r ∈ t.records.rows, ((⟨r.1.ns, r.1.key, r.1.author⟩ : RecordsByKeyId), ()) ∈ t.recordsByKey.rows

theorem Tables.byKeyCovers_empty : Tables.empty.ByKeyCovers := fun _ hr => nomatch hr

/-- `entry_put` writes the record's by-key row with it. -/
theorem Tables.ByKeyCovers.entryPut {t : Tables} (h : t.ByKeyCovers) (e : SignedEntry) :
    (t.entryPut e).ByKeyCovers := by
  intro r hr
  show _ ∈ SimpleStore.insertKey _ () t.recordsByKey.rows
  rw [SimpleStore.mem_insertKey_iff t.recordsByKey.sorted]
  rcases mem_entryPut.mp hr with rfl | ⟨hr, -⟩
  · exact .inl rfl
  · by_cases hk : (⟨r.1.ns, r.1.key, r.1.author⟩ : RecordsByKeyId) =
        ⟨e.entry.id.ns, e.entry.id.key, e.entry.id.author⟩
    · exact .inl (by rw [hk])
    · exact .inr ⟨h r hr, hk⟩

end Iroh.Docs.Store
