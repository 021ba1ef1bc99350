import Mathlib

/-! The DNS server's zone store (`iroh-dns-server/src/store.rs`, `store/signed_packets.rs`).

Published pkarr packets go to the `SignedPacketStore`, which keeps per key the packet no
later one is more recent than (`upsert`). DNS queries are answered from zones, the records
of a packet by `RrKey`, kept in a `ZoneCache`: an LRU cache of zones of stored packets and a
TTL cache of zones the mainline DHT returned. A publish that updates the store drops the key
from both caches.

What the store uses of pkarr's `SignedPacket` is a parameter (`Pkarr`): its key, its
timestamp, `more_recent_than`, and its zone (`signed_packet_to_hickory_records_without_origin`,
which may fail). A query is its `RrKey`. The database's I/O errors are not modelled.

The server's tasks share one zone store, and its calls are not atomic: `resolve` takes the
cache lock for its lookup, releases it, reads the store, awaits the DHT when it asks it, and
takes the lock again to cache what it found; `insert` takes the lock only after its `upsert`.
A call between two of its steps is a `Call`, the zone store with the calls in flight is a
`Server`, and an operation (`Op`) starts a call or lets one in flight take its next step, the
DHT's answer being an input of that step. The caches' evictions, by capacity and by expiry,
are operations of their own that may drop any entry at any time (`Op.evict`, `Op.expire`).
So every interleaving of the code's calls is a run of the model, whatever the caches'
policies. Whatever the interleaving, the store keeps for each key a packet no packet
published for it is more recent than (`stored_most_recent`). -/

namespace Iroh.DnsServer

/-- What the store uses of pkarr's `SignedPacket`: `PublicKeyBytes::from_signed_packet`,
`timestamp`, `more_recent_than`, and the records of its zone by `RrKey`. -/
structure Pkarr (K P Q RS E : Type) where
  keyOf : P → K
  timestamp : P → Nat
  moreRecentThan : P → P → Bool
  records : P → Except E (AList fun _ : Q => RS)

variable {K P Q RS E : Type}

/-! `more_recent_than` is taken to be asymmetric and negatively transitive, as pkarr's order of
packets by timestamp and then by their bytes is: being no more recent is then transitive. -/

namespace Pkarr

variable (pk : Pkarr K P Q RS E)

section

variable [Std.Asymm fun a b : P => pk.moreRecentThan a b = true]

theorem moreRecentThan_self (a : P) : pk.moreRecentThan a a = false :=
  Bool.eq_false_iff.mpr fun h => asymm (r := fun a b : P => pk.moreRecentThan a b = true) h h

theorem moreRecentThan_eq_false_of_gt {a b : P} (h : pk.moreRecentThan a b = true) :
    pk.moreRecentThan b a = false :=
  Bool.eq_false_iff.mpr (asymm (r := fun a b : P => pk.moreRecentThan a b = true) h)

end

theorem moreRecentThan_eq_false_trans [IsOrderConnected P fun a b => pk.moreRecentThan a b = true]
    {a b c : P} (hab : pk.moreRecentThan a b = false) (hbc : pk.moreRecentThan b c = false) :
    pk.moreRecentThan a c = false := by
  rw [Bool.eq_false_iff] at hab hbc ⊢
  exact IsOrderConnected.neg_trans (r := fun a b : P => pk.moreRecentThan a b = true) hab hbc

end Pkarr

/-- `CachedZone`. -/
structure CachedZone (Q RS : Type) where
  timestamp : Nat
  records : AList fun _ : Q => RS

namespace CachedZone

variable (pk : Pkarr K P Q RS E)

/-- `CachedZone::from_signed_packet`. -/
def fromSignedPacket (p : P) : Except E (CachedZone Q RS) :=
  (fun records => ⟨pk.timestamp p, records⟩) <$> pk.records p

/-- `CachedZone::is_newer_than`. -/
def isNewerThan (z : CachedZone Q RS) (p : P) : Bool := decide (pk.timestamp p < z.timestamp)

/-- `CachedZone::resolve`. -/
def resolve [DecidableEq Q] (z : CachedZone Q RS) (q : Q) : Option RS := z.records.lookup q

theorem timestamp_of_fromSignedPacket {p : P} {z : CachedZone Q RS}
    (h : fromSignedPacket pk p = .ok z) : z.timestamp = pk.timestamp p := by
  unfold fromSignedPacket at h
  cases hr : pk.records p with
  | error e => simp [hr] at h
  | ok records =>
    simp only [hr, Except.map_ok, Except.ok.injEq] at h
    rw [← h]

/-- A zone is never newer than the packet it was made from. -/
theorem not_isNewerThan_of_fromSignedPacket {p : P} {z : CachedZone Q RS}
    (h : fromSignedPacket pk p = .ok z) : z.isNewerThan pk p = false := by
  simp [isNewerThan, timestamp_of_fromSignedPacket pk h]

end CachedZone

variable [DecidableEq K]

/-- `SignedPacketStore`: the packets by key. -/
structure SignedPacketStore (K P : Type) [DecidableEq K] where
  packets : AList fun _ : K => P

namespace SignedPacketStore

variable (pk : Pkarr K P Q RS E)

/-- `SignedPacketStore::in_memory`: an empty database. -/
def inMemory : SignedPacketStore K P := ⟨∅⟩

/-- `SignedPacketStore::get`. -/
def get (s : SignedPacketStore K P) (k : K) : Option P := s.packets.lookup k

/-- `SignedPacketStore::upsert`: store the packet unless the one stored is more recent; the
flag is whether it was stored. -/
def upsert (s : SignedPacketStore K P) (p : P) : SignedPacketStore K P × Bool :=
  match s.get (pk.keyOf p) with
  | some existing =>
    if pk.moreRecentThan existing p then (s, false) else (⟨s.packets.insert (pk.keyOf p) p⟩, true)
  | none => (⟨s.packets.insert (pk.keyOf p) p⟩, true)

/-- Every packet is stored under its own key, as `upsert` stores it. -/
def Keyed (s : SignedPacketStore K P) : Prop := ∀ k p, s.get k = some p → pk.keyOf p = k

@[simp] theorem get_inMemory (k : K) : (inMemory : SignedPacketStore K P).get k = none :=
  AList.lookup_empty k

theorem get_insert (s : SignedPacketStore K P) (k k' : K) (p : P) :
    (⟨s.packets.insert k p⟩ : SignedPacketStore K P).get k' = if k' = k then some p else s.get k' := by
  by_cases h : k' = k
  · subst h
    simp [get, AList.lookup_insert]
  · simp [get, AList.lookup_insert_ne h, h]

/-- What `upsert` can do: keep the store, the stored packet being more recent, or store the
packet, the stored one (if any) not being more recent. -/
theorem upsert_cases (s : SignedPacketStore K P) (p : P) :
    (s.upsert pk p = (s, false) ∧ ∃ e, s.get (pk.keyOf p) = some e ∧ pk.moreRecentThan e p = true) ∨
      (s.upsert pk p = (⟨s.packets.insert (pk.keyOf p) p⟩, true) ∧
        ∀ e, s.get (pk.keyOf p) = some e → pk.moreRecentThan e p = false) := by
  unfold upsert
  rcases hg : s.get (pk.keyOf p) with _ | e
  · exact .inr ⟨rfl, by simp⟩
  · by_cases hm : pk.moreRecentThan e p = true
    · exact .inl ⟨by simp [hm], e, rfl, hm⟩
    · refine .inr ⟨by simp [hm], ?_⟩
      rintro e' ⟨⟩
      simpa using hm

theorem get_upsert (s : SignedPacketStore K P) (p : P) (k : K) :
    (s.upsert pk p).1.get k = s.get k ∨ k = pk.keyOf p ∧ (s.upsert pk p).1.get k = some p := by
  rcases upsert_cases pk s p with ⟨h, -⟩ | ⟨h, -⟩ <;> rw [h]
  · exact .inl rfl
  · rw [get_insert]
    by_cases hk : k = pk.keyOf p <;> simp [hk]

theorem Keyed.insert {s : SignedPacketStore K P} (hs : s.Keyed pk) (p : P) :
    (⟨s.packets.insert (pk.keyOf p) p⟩ : SignedPacketStore K P).Keyed pk := by
  intro k p' hp'
  rw [get_insert] at hp'
  split at hp'
  · rename_i hk
    cases hp'
    exact hk.symm
  · exact hs k p' hp'

theorem Keyed.upsert {s : SignedPacketStore K P} (hs : s.Keyed pk) (p : P) : (s.upsert pk p).1.Keyed pk := by
  rcases upsert_cases pk s p with ⟨h, -⟩ | ⟨h, -⟩ <;> rw [h]
  · exact hs
  · exact hs.insert pk p

section MoreRecent

variable [Std.Asymm fun a b : P => pk.moreRecentThan a b = true]

/-- After `upsert`, a key holds a packet the one it held before is not more recent than. -/
theorem upsert_keeps_recent {s : SignedPacketStore K P} {k : K} {e : P} (he : s.get k = some e) (p : P) :
    ∃ e', (s.upsert pk p).1.get k = some e' ∧ pk.moreRecentThan e e' = false := by
  rcases upsert_cases pk s p with ⟨h, -⟩ | ⟨h, hold⟩ <;> rw [h]
  · exact ⟨e, he, pk.moreRecentThan_self e⟩
  · rw [get_insert]
    by_cases hk : k = pk.keyOf p
    · subst hk
      exact ⟨p, if_pos rfl, hold e he⟩
    · exact ⟨e, by rw [if_neg hk, he], pk.moreRecentThan_self e⟩

/-- After `upsert p`, the key of `p` holds a packet `p` is not more recent than. -/
theorem upsert_recent_self (s : SignedPacketStore K P) (p : P) :
    ∃ e', (s.upsert pk p).1.get (pk.keyOf p) = some e' ∧ pk.moreRecentThan p e' = false := by
  rcases upsert_cases pk s p with ⟨h, e, he, hm⟩ | ⟨h, -⟩ <;> rw [h]
  · exact ⟨e, he, pk.moreRecentThan_eq_false_of_gt hm⟩
  · exact ⟨p, by rw [get_insert, if_pos rfl], pk.moreRecentThan_self p⟩

end MoreRecent

end SignedPacketStore

variable [DecidableEq Q]

/-- `ZoneCache`: the LRU cache of zones of stored packets and the TTL cache of zones from
the DHT. -/
structure ZoneCache (K Q RS : Type) [DecidableEq K] where
  cache : AList fun _ : K => CachedZone Q RS
  dhtCache : AList fun _ : K => CachedZone Q RS

namespace ZoneCache

variable (pk : Pkarr K P Q RS E)

/-- `ZoneCache::new`: both caches empty. -/
def new : ZoneCache K Q RS := ⟨∅, ∅⟩

/-- `ZoneCache::resolve`: the LRU cache first, then the DHT cache. -/
def resolve (c : ZoneCache K Q RS) (k : K) (q : Q) : Option RS :=
  match c.cache.lookup k with
  | some z => z.resolve q
  | none =>
    match c.dhtCache.lookup k with
    | some z => z.resolve q
    | none => none

/-- `ZoneCache::insert`: cache the packet's zone unless the cached one is newer. -/
def insert (c : ZoneCache K Q RS) (p : P) : Except E (ZoneCache K Q RS) :=
  if (c.cache.lookup (pk.keyOf p)).any (CachedZone.isNewerThan pk · p) then .ok c
  else (fun z => { c with cache := c.cache.insert (pk.keyOf p) z }) <$> CachedZone.fromSignedPacket pk p

/-- `ZoneCache::insert_and_resolve`. -/
def insertAndResolve (c : ZoneCache K Q RS) (p : P) (q : Q) :
    Except E (ZoneCache K Q RS × Option RS) :=
  (fun c => (c, c.resolve (pk.keyOf p) q)) <$> c.insert pk p

/-- `ZoneCache::insert_and_resolve_dht`. -/
def insertAndResolveDht (c : ZoneCache K Q RS) (p : P) (q : Q) :
    Except E (ZoneCache K Q RS × Option RS) :=
  (fun z => ({ c with dhtCache := c.dhtCache.insert (pk.keyOf p) z }, z.resolve q)) <$>
    CachedZone.fromSignedPacket pk p

/-- `ZoneCache::remove`. -/
def remove (c : ZoneCache K Q RS) (k : K) : ZoneCache K Q RS :=
  ⟨c.cache.erase k, c.dhtCache.erase k⟩

variable {pk}

theorem resolve_of_cache {c : ZoneCache K Q RS} {k : K} {z : CachedZone Q RS}
    (h : c.cache.lookup k = some z) (q : Q) : c.resolve k q = z.resolve q := by
  simp [resolve, h]

theorem resolve_of_not_cached {c : ZoneCache K Q RS} {k : K} (h : c.cache.lookup k = none)
    (hd : c.dhtCache.lookup k = none) (q : Q) : c.resolve k q = none := by
  simp [resolve, h, hd]

@[simp] theorem resolve_insert_self (c : ZoneCache K Q RS) (k : K) (z : CachedZone Q RS) (q : Q) :
    ({ c with cache := c.cache.insert k z } : ZoneCache K Q RS).resolve k q = z.resolve q :=
  resolve_of_cache (AList.lookup_insert _) q

omit [DecidableEq Q] in
/-- `insert` leaves the cache or caches the packet's zone. -/
theorem insert_cases {c c' : ZoneCache K Q RS} {p : P} (h : c.insert pk p = .ok c') :
    c' = c ∨ ∃ z, CachedZone.fromSignedPacket pk p = .ok z ∧
      c' = { c with cache := c.cache.insert (pk.keyOf p) z } := by
  unfold insert at h
  split at h
  · exact .inl (Except.ok.inj h).symm
  · cases hz : CachedZone.fromSignedPacket pk p with
    | error e => simp [hz] at h
    | ok z =>
      simp only [hz, Except.map_ok, Except.ok.injEq] at h
      exact .inr ⟨z, rfl, h.symm⟩

omit [DecidableEq Q] in
/-- Where the cached zone, if any, is the packet's own, `insert` caches the packet's zone. -/
theorem insert_of_cached {c : ZoneCache K Q RS} {p : P}
    (h : ∀ z, c.cache.lookup (pk.keyOf p) = some z → CachedZone.fromSignedPacket pk p = .ok z) :
    c.insert pk p =
      (fun z => { c with cache := c.cache.insert (pk.keyOf p) z }) <$> CachedZone.fromSignedPacket pk p := by
  have hnew : (c.cache.lookup (pk.keyOf p)).any (CachedZone.isNewerThan pk · p) = false := by
    rcases hz : c.cache.lookup (pk.keyOf p) with _ | z
    · rfl
    · exact CachedZone.not_isNewerThan_of_fromSignedPacket pk (h z hz)
  rw [insert, hnew]
  rfl

omit [DecidableEq Q] in
/-- `insert` fails only as the packet's zone does. -/
theorem insert_error {c : ZoneCache K Q RS} {p : P} {e : E} (h : c.insert pk p = .error e) :
    CachedZone.fromSignedPacket pk p = .error e := by
  unfold insert at h
  split at h
  · cases h
  · cases hz : CachedZone.fromSignedPacket pk p with
    | error e' =>
      simp only [hz, Except.map_error, Except.error.injEq] at h
      rw [h]
    | ok z => simp [hz] at h

theorem resolve_of_dht {c : ZoneCache K Q RS} {k : K} {z : CachedZone Q RS} (h : c.cache.lookup k = none)
    (hd : c.dhtCache.lookup k = some z) (q : Q) : c.resolve k q = z.resolve q := by
  simp [resolve, h, hd]

end ZoneCache

/-- `ZoneStore`: the zone cache, the packet store, and whether a mainline DHT client is
configured. -/
structure ZoneStore (K P Q RS : Type) [DecidableEq K] where
  cache : ZoneCache K Q RS
  store : SignedPacketStore K P
  pkarr : Bool

namespace ZoneStore

variable (pk : Pkarr K P Q RS E)

/-- `ZoneStore::new`: empty caches over a packet store, with no DHT client. -/
def new (store : SignedPacketStore K P) : ZoneStore K P Q RS := ⟨ZoneCache.new, store, false⟩

/-- `ZoneStore::with_mainline_fallback`. -/
def withMainlineFallback (zs : ZoneStore K P Q RS) : ZoneStore K P Q RS := { zs with pkarr := true }

/-- `ZoneStore::get_signed_packet`. -/
def getSignedPacket (zs : ZoneStore K P Q RS) (k : K) : Option P := zs.store.get k

/-- The step of `resolve` that caches the stored packet's zone and answers from the cache
(`insert_and_resolve`). -/
def cacheStored (zs : ZoneStore K P Q RS) (p : P) (q : Q) : ZoneStore K P Q RS × Except E (Option RS) :=
  match zs.cache.insertAndResolve pk p q with
  | .ok (cache, r) => ({ zs with cache }, .ok r)
  | .error e => (zs, .error e)

/-- The step of `resolve` after the DHT answered: the `?` on its error, no answer, or its
packet's zone cached and asked (`insert_and_resolve_dht`). -/
def cacheDht (zs : ZoneStore K P Q RS) (dht : Except E (Option P)) (q : Q) :
    ZoneStore K P Q RS × Except E (Option RS) :=
  match dht with
  | .error e => (zs, .error e)
  | .ok none => (zs, .ok none)
  | .ok (some p) =>
    match zs.cache.insertAndResolveDht pk p q with
    | .ok (cache, r) => ({ zs with cache }, .ok r)
    | .error e => (zs, .error e)

/-- The first step of `insert`: `self.store.upsert`, with whether it stored the packet. -/
def upsert (zs : ZoneStore K P Q RS) (p : P) : ZoneStore K P Q RS × Bool :=
  ({ zs with store := (zs.store.upsert pk p).1 }, (zs.store.upsert pk p).2)

/-- The second step of `insert`, after an update: `self.cache.lock().remove`. -/
def uncache (zs : ZoneStore K P Q RS) (k : K) : ZoneStore K P Q RS := { zs with cache := zs.cache.remove k }

/-- An entry dropped from the LRU cache. -/
def evict (zs : ZoneStore K P Q RS) (k : K) : ZoneStore K P Q RS :=
  { zs with cache := { zs.cache with cache := zs.cache.cache.erase k } }

/-- An entry dropped from the DHT cache. -/
def expire (zs : ZoneStore K P Q RS) (k : K) : ZoneStore K P Q RS :=
  { zs with cache := { zs.cache with dhtCache := zs.cache.dhtCache.erase k } }

/-- What caching the stored packet's zone does: the cache takes the packet (or keeps a newer
zone) and is asked, or the packet's zone fails. -/
theorem cacheStored_cases (zs : ZoneStore K P Q RS) (p : P) (q : Q) :
    (∃ c, zs.cache.insert pk p = .ok c ∧
      zs.cacheStored pk p q = ({ zs with cache := c }, .ok (c.resolve (pk.keyOf p) q))) ∨
    ∃ e, CachedZone.fromSignedPacket pk p = .error e ∧ zs.cacheStored pk p q = (zs, .error e) := by
  unfold cacheStored ZoneCache.insertAndResolve
  cases hi : zs.cache.insert pk p with
  | ok c => exact .inl ⟨c, rfl, rfl⟩
  | error e => exact .inr ⟨e, ZoneCache.insert_error hi, rfl⟩

/-- What the step after the DHT's answer does: pass on its error or its lack of a packet, or
answer from the packet's zone, cached in the DHT cache unless it fails. -/
theorem cacheDht_cases (zs : ZoneStore K P Q RS) (dht : Except E (Option P)) (q : Q) :
    (∃ e, dht = .error e ∧ zs.cacheDht pk dht q = (zs, .error e)) ∨
    (dht = .ok none ∧ zs.cacheDht pk dht q = (zs, .ok none)) ∨
    ∃ p, dht = .ok (some p) ∧
      (zs.cacheDht pk dht q).2 = (CachedZone.resolve · q) <$> CachedZone.fromSignedPacket pk p ∧
      ((zs.cacheDht pk dht q).1 = zs ∨ ∃ z, CachedZone.fromSignedPacket pk p = .ok z ∧
        (zs.cacheDht pk dht q).1 =
          { zs with cache := { zs.cache with dhtCache := zs.cache.dhtCache.insert (pk.keyOf p) z } }) := by
  rcases dht with e | _ | p
  · exact .inl ⟨e, rfl, rfl⟩
  · exact .inr (.inl ⟨rfl, rfl⟩)
  · refine .inr (.inr ⟨p, rfl, ?_⟩)
    cases hz : CachedZone.fromSignedPacket pk p with
    | ok z => exact ⟨by simp [cacheDht, ZoneCache.insertAndResolveDht, hz],
        .inr ⟨z, rfl, by simp [cacheDht, ZoneCache.insertAndResolveDht, hz]⟩⟩
    | error e => exact ⟨by simp [cacheDht, ZoneCache.insertAndResolveDht, hz],
        .inl (by simp [cacheDht, ZoneCache.insertAndResolveDht, hz])⟩

/-- The answer of the stored packet alone, with no cache and no DHT. -/
def storedAnswer (zs : ZoneStore K P Q RS) (k : K) (q : Q) : Except E (Option RS) :=
  match zs.store.get k with
  | some p => (CachedZone.resolve · q) <$> CachedZone.fromSignedPacket pk p
  | none => .ok none

end ZoneStore

/-- A call in flight on the zone store, at the step it takes next. -/
inductive Call (K P Q : Type) where
  /-- `resolve` of a query for `k` after a cache miss, before `self.store.get` -/
  | read (k : K) (q : Q)
  /-- `resolve` after `self.store.get` returned `p`, before `insert_and_resolve` -/
  | cache (k : K) (q : Q) (p : P)
  /-- `resolve` with no stored packet, awaiting the DHT -/
  | awaitDht (k : K) (q : Q)
  /-- `insert` after an `upsert` that stored a packet of `k`, before `remove` -/
  | uncache (k : K)

/-- The zone store the server's tasks share, with the calls in flight on it. -/
structure Server (K P Q RS : Type) [DecidableEq K] where
  zones : ZoneStore K P Q RS
  calls : List (Call K P Q)

/-- What happens to the server: a call starts, the `i`-th call in flight takes its next step, or
a cache drops an entry, by capacity (`evict`) or by expiry (`expire`). -/
inductive Op (K P Q E : Type) where
  /-- `insert` starts with its `upsert` -/
  | insert (p : P)
  /-- `resolve` starts with its cache lookup -/
  | resolve (k : K) (q : Q)
  /-- the `i`-th call takes a step that awaits nothing -/
  | advance (i : Nat)
  /-- the DHT answers the `i`-th call, a `resolve` for `k` -/
  | dht (i : Nat) (k : K) (dht : Except E (Option P))
  | evict (k : K)
  | expire (k : K)

namespace Op

variable (pk : Pkarr K P Q RS E)

/-- The DHT answers a query for a key with a packet of that key: pkarr's client checks the
packet's signature against the key it asked for. -/
def Honest : Op K P Q E → Prop
  | .dht _ k (.ok (some p)) => pk.keyOf p = k
  | _ => True

end Op

namespace Server

variable (pk : Pkarr K P Q RS E)

/-- One operation, with the reply to the query it answers, if it answers one. -/
def step (s : Server K P Q RS) : Op K P Q E → Server K P Q RS × Option (K × Q × Except E (Option RS))
  | .insert p =>
    (⟨(s.zones.upsert pk p).1,
      if (s.zones.upsert pk p).2 then .uncache (pk.keyOf p) :: s.calls else s.calls⟩, none)
  | .resolve k q =>
    match s.zones.cache.resolve k q with
    | some rs => (s, some (k, q, .ok (some rs)))
    | none => (⟨s.zones, .read k q :: s.calls⟩, none)
  | .advance i =>
    match s.calls[i]? with
    | some (.read k q) =>
      match s.zones.store.get k with
      | some p => (⟨s.zones, .cache k q p :: s.calls.eraseIdx i⟩, none)
      | none =>
        if s.zones.pkarr then (⟨s.zones, .awaitDht k q :: s.calls.eraseIdx i⟩, none)
        else (⟨s.zones, s.calls.eraseIdx i⟩, some (k, q, .ok none))
    | some (.cache k q p) =>
      (⟨(s.zones.cacheStored pk p q).1, s.calls.eraseIdx i⟩, some (k, q, (s.zones.cacheStored pk p q).2))
    | some (.uncache k) => (⟨s.zones.uncache k, s.calls.eraseIdx i⟩, none)
    | some (.awaitDht _ _) | none => (s, none)
  | .dht i k dht =>
    match s.calls[i]? with
    | some (.awaitDht k' q) =>
      if k' = k then
        (⟨(s.zones.cacheDht pk dht q).1, s.calls.eraseIdx i⟩, some (k, q, (s.zones.cacheDht pk dht q).2))
      else (s, none)
    | _ => (s, none)
  | .evict k => (⟨s.zones.evict k, s.calls⟩, none)
  | .expire k => (⟨s.zones.expire k, s.calls⟩, none)

/-- The server after a sequence of operations. -/
def run (s : Server K P Q RS) (ops : List (Op K P Q E)) : Server K P Q RS :=
  ops.foldl (fun s o => (s.step pk o).1) s

@[simp] theorem run_nil (s : Server K P Q RS) : s.run pk [] = s := rfl

@[simp] theorem run_cons (s : Server K P Q RS) (o : Op K P Q E) (ops : List (Op K P Q E)) :
    s.run pk (o :: ops) = (s.step pk o).1.run pk ops := rfl

theorem run_append (s : Server K P Q RS) (ops ops' : List (Op K P Q E)) :
    s.run pk (ops ++ ops') = (s.run pk ops).run pk ops' := List.foldl_append

theorem cacheStored_store (zs : ZoneStore K P Q RS) (p : P) (q : Q) :
    (zs.cacheStored pk p q).1.store = zs.store ∧ (zs.cacheStored pk p q).1.pkarr = zs.pkarr := by
  unfold ZoneStore.cacheStored
  split <;> exact ⟨rfl, rfl⟩

theorem cacheDht_store (zs : ZoneStore K P Q RS) (dht : Except E (Option P)) (q : Q) :
    (zs.cacheDht pk dht q).1.store = zs.store ∧ (zs.cacheDht pk dht q).1.pkarr = zs.pkarr := by
  unfold ZoneStore.cacheDht
  repeat' split
  all_goals exact ⟨rfl, rfl⟩

/-- Only an `insert` changes the packet store, by its `upsert`, and no step changes whether the
store asks the DHT. -/
theorem store_pkarr_step (s : Server K P Q RS) (o : Op K P Q E) :
    (s.step pk o).1.zones.store = (match o with
      | .insert p => (s.zones.store.upsert pk p).1
      | _ => s.zones.store) ∧ (s.step pk o).1.zones.pkarr = s.zones.pkarr := by
  cases o with
  | insert p => exact ⟨rfl, rfl⟩
  | resolve k q =>
    simp only [step]
    split <;> exact ⟨rfl, rfl⟩
  | advance i =>
    simp only [step]
    rcases s.calls[i]? with _ | (⟨k, q⟩ | ⟨k, q, p⟩ | ⟨k, q⟩ | k)
    · exact ⟨rfl, rfl⟩
    · dsimp only
      split
      · exact ⟨rfl, rfl⟩
      · split <;> exact ⟨rfl, rfl⟩
    · exact cacheStored_store pk s.zones p q
    · exact ⟨rfl, rfl⟩
    · exact ⟨rfl, rfl⟩
  | dht i k dht =>
    simp only [step]
    rcases s.calls[i]? with _ | (⟨k', q⟩ | ⟨k', q, p⟩ | ⟨k', q⟩ | k')
    · exact ⟨rfl, rfl⟩
    · exact ⟨rfl, rfl⟩
    · exact ⟨rfl, rfl⟩
    · dsimp only
      split
      · exact cacheDht_store pk s.zones dht q
      · exact ⟨rfl, rfl⟩
    · exact ⟨rfl, rfl⟩
  | evict k | expire k => exact ⟨rfl, rfl⟩

theorem store_step (s : Server K P Q RS) (o : Op K P Q E) :
    (s.step pk o).1.zones.store = match o with
      | .insert p => (s.zones.store.upsert pk p).1
      | _ => s.zones.store :=
  (store_pkarr_step pk s o).1

@[simp] theorem pkarr_step (s : Server K P Q RS) (o : Op K P Q E) :
    (s.step pk o).1.zones.pkarr = s.zones.pkarr :=
  (store_pkarr_step pk s o).2

@[simp] theorem pkarr_run (s : Server K P Q RS) (ops : List (Op K P Q E)) :
    (s.run pk ops).zones.pkarr = s.zones.pkarr := by
  induction ops generalizing s with
  | nil => rfl
  | cons o ops ih => rw [run_cons, ih, pkarr_step]

/-- A step changes a key's packet only by publishing one. -/
theorem get_store_step (s : Server K P Q RS) (o : Op K P Q E) (k : K) :
    (s.step pk o).1.zones.store.get k = s.zones.store.get k ∨
      ∃ p, o = .insert p ∧ (s.step pk o).1.zones.store.get k = some p := by
  rw [store_step]
  cases o with
  | insert p =>
    rcases SignedPacketStore.get_upsert pk s.zones.store p k with h | ⟨-, h⟩
    · exact .inl h
    · exact .inr ⟨p, rfl, h⟩
  | _ => exact .inl rfl

section MoreRecent

variable [Std.Asymm fun a b : P => pk.moreRecentThan a b = true]

theorem store_step_keeps_recent {s : Server K P Q RS} {k : K} {e : P} (he : s.zones.store.get k = some e)
    (o : Op K P Q E) : ∃ e', (s.step pk o).1.zones.store.get k = some e' ∧ pk.moreRecentThan e e' = false := by
  rw [store_step]
  cases o with
  | insert p => exact SignedPacketStore.upsert_keeps_recent pk he p
  | _ => exact ⟨e, he, pk.moreRecentThan_self e⟩

/-- After any run from any server, the packet stored for a key is one it held at the start or one
published, and no packet it held at the start or published for it is more recent. -/
theorem run_stored_recent [IsOrderConnected P fun a b => pk.moreRecentThan a b = true]
    (s₀ : Server K P Q RS) (ops : List (Op K P Q E)) {k : K} {p : P}
    (h : (s₀.run pk ops).zones.store.get k = some p) :
    (s₀.zones.store.get k = some p ∨ Op.insert p ∈ ops) ∧
      ∀ p', s₀.zones.store.get k = some p' ∨ Op.insert p' ∈ ops ∧ pk.keyOf p' = k →
        pk.moreRecentThan p' p = false := by
  -- induction on the operations, from the first: the statement for the rest of the run holds
  -- of the server after the first step
  induction ops generalizing s₀ with
  | nil =>
    refine ⟨.inl h, ?_⟩
    rintro p' (hp' | ⟨hp', -⟩)
    · rw [run_nil, hp'] at h
      cases h
      exact pk.moreRecentThan_self _
    · cases hp'
  | cons o ops ih =>
    obtain ⟨hmem, hrec⟩ := ih (s₀.step pk o).1 h
    refine ⟨?_, ?_⟩
    · rcases hmem with hs | hs
      · rcases get_store_step pk s₀ o k with he | ⟨p'', rfl, he⟩
        · exact .inl (he ▸ hs)
        · rw [he] at hs
          cases hs
          exact .inr List.mem_cons_self
      · exact .inr (List.mem_cons_of_mem o hs)
    · rintro p' (hs | ⟨hin, hk⟩)
      · obtain ⟨e', he', hold⟩ := store_step_keeps_recent pk hs o
        exact pk.moreRecentThan_eq_false_trans hold (hrec e' (.inl he'))
      · rcases List.mem_cons.mp hin with rfl | hin
        · obtain ⟨e', he', hold⟩ := SignedPacketStore.upsert_recent_self pk s₀.zones.store p'
          rw [hk] at he'
          refine pk.moreRecentThan_eq_false_trans hold (hrec e' (.inl ?_))
          rwa [store_step]
        · exact hrec p' (.inr ⟨hin, hk⟩)

end MoreRecent

end Server

namespace ZoneStore

variable (pk : Pkarr K P Q RS E)

/-- The zone store after a sequence of operations, from no call in flight. -/
def run (zs : ZoneStore K P Q RS) (ops : List (Op K P Q E)) : ZoneStore K P Q RS :=
  (Server.run pk ⟨zs, []⟩ ops).zones

/-- Packets of a key and a timestamp, the later one more recent, whose zone has one record,
the timestamp, under query `0`. -/
def stampPkarr : Pkarr Nat (Nat × Nat) Nat Nat Unit :=
  ⟨Prod.fst, Prod.snd, fun a b => decide (b.2 < a.2), fun p => .ok ((∅ : AList fun _ : Nat => Nat).insert 0 p.2)⟩

variable {pk}

section MoreRecent

variable [Std.Asymm fun a b : P => pk.moreRecentThan a b = true]

/-- After any run, the packet stored for a key is one it held at the start or one published,
and no packet it held at the start or published for it is more recent. -/
theorem stored_most_recent [IsOrderConnected P fun a b => pk.moreRecentThan a b = true]
    (zs₀ : ZoneStore K P Q RS) (ops : List (Op K P Q E)) {k : K} {p : P}
    (h : (zs₀.run pk ops).store.get k = some p) :
    (zs₀.store.get k = some p ∨ Op.insert p ∈ ops) ∧
      ∀ p', zs₀.store.get k = some p' ∨ Op.insert p' ∈ ops ∧ pk.keyOf p' = k →
        pk.moreRecentThan p' p = false :=
  Server.run_stored_recent pk ⟨zs₀, []⟩ ops h

theorem stored_most_recent_kept :
    ((new .inMemory : ZoneStore Nat (Nat × Nat) Nat Nat).run stampPkarr
        [.insert (1, 5), .insert (1, 3)]).store.get 1 = some (1, 5) ∧
      (SignedPacketStore.inMemory.get 1 = some (1, 5) ∨
          Op.insert (1, 5) ∈ ([.insert (1, 5), .insert (1, 3)] : List (Op Nat (Nat × Nat) Nat Unit))) ∧
        ∀ p', SignedPacketStore.inMemory.get 1 = some p' ∨
            Op.insert p' ∈ ([.insert (1, 5), .insert (1, 3)] : List (Op Nat (Nat × Nat) Nat Unit)) ∧
              stampPkarr.keyOf p' = 1 →
          stampPkarr.moreRecentThan p' (1, 5) = false := by
  have : Std.Asymm fun a b : Nat × Nat => stampPkarr.moreRecentThan a b = true :=
    ⟨fun a b h h' => by simp [stampPkarr] at h h'; omega⟩
  have : IsOrderConnected (Nat × Nat) fun a b => stampPkarr.moreRecentThan a b = true :=
    ⟨fun a b c h => by simp [stampPkarr] at h ⊢; omega⟩
  have h : ((new .inMemory : ZoneStore Nat (Nat × Nat) Nat Nat).run stampPkarr
      [.insert (1, 5), .insert (1, 3)]).store.get 1 = some (1, 5) := by decide
  exact ⟨h, stored_most_recent _ _ h⟩

end MoreRecent

end ZoneStore

end Iroh.DnsServer
