import Iroh.DnsServer.ZoneStore
import Iroh.Lib.AList

/-! The zone store when its calls do not overlap (`store.rs`).

Run to its end with no other call in between, `resolve` answers from the cache, else caches
the stored packet's zone and answers from it, else asks the DHT if there is a client
(`ZoneStore.resolve`), and `insert` upserts and, on an update, drops the packet's key from the
caches (`ZoneStore.insert`). A `Request` is such a call, or a cache dropping an entry. Its
steps (`Request.ops`), taken on a server with no call in flight, do what those functions do
(`exec_ops`), so requests served one after the other are a run of the server (`run_serial`).

Over such runs the caches agree with the store (`Coherent`): an LRU entry is the zone of the
stored packet of its key, and the DHT cache holds only keys with no stored packet. So a query
that runs alone is answered as the stored packet's zone answers it, whatever the caches hold
(`serial_reply_eq_storedAnswer`); overlapping calls lose this (`reply_answered_stale`). -/

namespace Iroh.DnsServer

variable {K P Q RS E : Type} [DecidableEq K] [DecidableEq Q]

namespace ZoneStore

variable (pk : Pkarr K P Q RS E)

/-- `ZoneStore::resolve` run to its end with no other call in between, `dht` being what the DHT
answers if it is asked: the cache, then the store, then the DHT. -/
def resolve (zs : ZoneStore K P Q RS) (k : K) (q : Q) (dht : Except E (Option P)) :
    ZoneStore K P Q RS × Except E (Option RS) :=
  match zs.cache.resolve k q with
  | some rs => (zs, .ok (some rs))
  | none =>
    match zs.store.get k with
    | some p => zs.cacheStored pk p q
    | none => if zs.pkarr then zs.cacheDht pk dht q else (zs, .ok none)

/-- `ZoneStore::insert` run to its end: an update drops the packet's key from the caches. -/
def insert (zs : ZoneStore K P Q RS) (p : P) : ZoneStore K P Q RS × Bool :=
  if (zs.upsert pk p).2 then ((zs.upsert pk p).1.uncache (pk.keyOf p), true) else ((zs.upsert pk p).1, false)

end ZoneStore

/-- A call run to its end, with what the DHT answers if it is asked, or a cache dropping an
entry. -/
inductive Request (K P Q E : Type) where
  | insert (p : P)
  | resolve (k : K) (q : Q) (dht : Except E (Option P))
  | evict (k : K)
  | expire (k : K)

namespace Request

/-- A request's steps on a server with no other call in flight: its call is the first in flight. -/
def ops : Request K P Q E → List (Op K P Q E)
  | .insert p => [.insert p, .advance 0]
  | .resolve k q dht => [.resolve k q, .advance 0, .advance 0, .dht 0 k dht]
  | .evict k => [.evict k]
  | .expire k => [.expire k]

variable (pk : Pkarr K P Q RS E)

/-- The DHT answers a query for a key with a packet of that key. -/
def Honest : Request K P Q E → Prop
  | .resolve k _ (.ok (some p)) => pk.keyOf p = k
  | _ => True

end Request

namespace ZoneStore

variable (pk : Pkarr K P Q RS E)

/-- A request served, with the reply to the query it asks, if it asks one. -/
def serve (zs : ZoneStore K P Q RS) : Request K P Q E → ZoneStore K P Q RS × Option (K × Q × Except E (Option RS))
  | .insert p => ((zs.insert pk p).1, none)
  | .resolve k q dht => ((zs.resolve pk k q dht).1, some (k, q, (zs.resolve pk k q dht).2))
  | .evict k => (zs.evict k, none)
  | .expire k => (zs.expire k, none)

/-- Requests served one after the other. -/
def serveAll (zs : ZoneStore K P Q RS) (rs : List (Request K P Q E)) : ZoneStore K P Q RS :=
  rs.foldl (fun zs r => (zs.serve pk r).1) zs

end ZoneStore

namespace Server

variable (pk : Pkarr K P Q RS E)

/-- The server after a sequence of operations, with the replies it gave. -/
def exec (s : Server K P Q RS) : List (Op K P Q E) → Server K P Q RS × List (K × Q × Except E (Option RS))
  | [] => (s, [])
  | o :: ops => (((s.step pk o).1.exec ops).1, (s.step pk o).2.toList ++ ((s.step pk o).1.exec ops).2)

theorem exec_fst (s : Server K P Q RS) (ops : List (Op K P Q E)) : (s.exec pk ops).1 = s.run pk ops := by
  induction ops generalizing s with
  | nil => rfl
  | cons o ops ih => exact ih _

/-- A request's steps on a server with no call in flight serve the request. -/
theorem exec_ops (zs : ZoneStore K P Q RS) (r : Request K P Q E) :
    Server.exec pk ⟨zs, []⟩ r.ops = (⟨(zs.serve pk r).1, []⟩, (zs.serve pk r).2.toList) := by
  cases r with
  | insert p =>
    cases hb : (zs.upsert pk p).2 <;>
      simp [exec, Request.ops, step, ZoneStore.serve, ZoneStore.insert, hb]
  | resolve k q dht =>
    rcases hc : zs.cache.resolve k q with _ | rs
    · rcases hg : zs.store.get k with _ | p
      · cases hp : zs.pkarr <;>
          simp [exec, Request.ops, step, ZoneStore.serve, ZoneStore.resolve, hc, hg, hp]
      · simp [exec, Request.ops, step, ZoneStore.serve, ZoneStore.resolve, hc, hg]
    · simp [exec, Request.ops, step, ZoneStore.serve, ZoneStore.resolve, hc]
  | evict k | expire k => rfl

/-- Requests served one after the other are a run of the server. -/
theorem run_serial (zs : ZoneStore K P Q RS) (rs : List (Request K P Q E)) :
    Server.run pk ⟨zs, []⟩ (rs.flatMap Request.ops) = ⟨zs.serveAll pk rs, []⟩ := by
  induction rs generalizing zs with
  | nil => rfl
  | cons r rs ih =>
    have hr : Server.run pk ⟨zs, []⟩ r.ops = ⟨(zs.serve pk r).1, []⟩ := by
      rw [← exec_fst, exec_ops]
    rw [List.flatMap_cons, run_append, hr, ih]
    rfl

end Server

namespace ZoneStore

variable (pk : Pkarr K P Q RS E)

/-- What `resolve` run alone can do to the zone store: nothing, cache the stored packet's zone,
or cache what the DHT answered for a key with no stored packet. -/
theorem resolve_cases (zs : ZoneStore K P Q RS) (k : K) (q : Q) (dht : Except E (Option P)) :
    (zs.resolve pk k q dht).1 = zs ∨
      (∃ p, zs.store.get k = some p ∧ (zs.resolve pk k q dht).1 = (zs.cacheStored pk p q).1) ∨
      zs.store.get k = none ∧ zs.pkarr = true ∧ (zs.resolve pk k q dht).1 = (zs.cacheDht pk dht q).1 := by
  unfold ZoneStore.resolve
  rcases zs.cache.resolve k q with _ | rs
  · rcases hg : zs.store.get k with _ | p <;> dsimp only
    · by_cases hp : zs.pkarr = true
      · exact .inr (.inr ⟨rfl, hp, by simp [hp]⟩)
      · exact .inl (by simp [hp])
    · exact .inr (.inl ⟨p, rfl, rfl⟩)
  · exact .inl rfl

omit [DecidableEq Q] in
theorem insert_fst (zs : ZoneStore K P Q RS) (p : P) :
    (zs.insert pk p).1 = zs ∨ (zs.insert pk p).1 =
      { zs with store := ⟨zs.store.packets.insert (pk.keyOf p) p⟩, cache := zs.cache.remove (pk.keyOf p) } := by
  rcases SignedPacketStore.upsert_cases pk zs.store p with ⟨h, -⟩ | ⟨h, -⟩
  · exact .inl (by simp [insert, upsert, h])
  · exact .inr (by simp [insert, upsert, uncache, h])

variable {pk}

/-! ### The caches agree with the store -/

variable (pk) in
/-- The caches agree with the store: the LRU cache holds the zones of stored packets, the DHT
cache only keys with no stored packet, and nothing at all with no DHT client. -/
structure Coherent (zs : ZoneStore K P Q RS) : Prop where
  keyed : zs.store.Keyed pk
  cached : ∀ k z, zs.cache.cache.lookup k = some z →
    ∃ p, zs.store.get k = some p ∧ CachedZone.fromSignedPacket pk p = .ok z
  dhtUnstored : ∀ k z, zs.cache.dhtCache.lookup k = some z → zs.store.get k = none
  noDht : zs.pkarr = false → ∀ k, zs.cache.dhtCache.lookup k = none

omit [DecidableEq Q] in
theorem coherent_new {s : SignedPacketStore K P} (hs : s.Keyed pk) : (new s : ZoneStore K P Q RS).Coherent pk where
  keyed := hs
  cached k z h := by simp [new, ZoneCache.new, AList.lookup_empty] at h
  dhtUnstored k z h := by simp [new, ZoneCache.new, AList.lookup_empty] at h
  noDht _ k := AList.lookup_empty k

omit [DecidableEq Q] in
theorem Coherent.withMainlineFallback {zs : ZoneStore K P Q RS} (h : zs.Coherent pk) :
    zs.withMainlineFallback.Coherent pk where
  keyed := h.keyed
  cached := h.cached
  dhtUnstored := h.dhtUnstored
  noDht hp := by cases hp

omit [DecidableEq Q] in
/-- Caches that hold no entry the coherent ones did not, over the same store and DHT client,
are coherent. -/
theorem Coherent.frame {zs zs' : ZoneStore K P Q RS} (h : zs.Coherent pk) (hs : zs'.store = zs.store)
    (hp : zs'.pkarr = zs.pkarr)
    (hc : ∀ k z, zs'.cache.cache.lookup k = some z → zs.cache.cache.lookup k = some z)
    (hd : ∀ k z, zs'.cache.dhtCache.lookup k = some z → zs.cache.dhtCache.lookup k = some z) :
    zs'.Coherent pk where
  keyed := hs ▸ h.keyed
  cached k z hz := hs ▸ h.cached k z (hc k z hz)
  dhtUnstored k z hz := hs ▸ h.dhtUnstored k z (hd k z hz)
  noDht hp' k := by
    rcases he : zs'.cache.dhtCache.lookup k with _ | z
    · rfl
    · have hz := hd k z he
      rw [h.noDht (hp ▸ hp') k] at hz
      cases hz

omit [DecidableEq Q] in
theorem Coherent.insert {zs : ZoneStore K P Q RS} (h : zs.Coherent pk) (p : P) : (zs.insert pk p).1.Coherent pk := by
  rcases insert_fst pk zs p with he | he <;> rw [he]
  · exact h
  -- the key's zones are dropped; the other keys keep their stored packets
  refine ⟨h.keyed.insert pk p, fun k z hz => ?_, fun k z hz => ?_, fun hp k => ?_⟩
  · obtain ⟨hk, hz⟩ := AList.lookup_erase_eq_some hz
    rw [SignedPacketStore.get_insert, if_neg hk]
    exact h.cached k z hz
  · obtain ⟨hk, hz⟩ := AList.lookup_erase_eq_some hz
    rw [SignedPacketStore.get_insert, if_neg hk]
    exact h.dhtUnstored k z hz
  · exact AList.lookup_erase_of_lookup_eq_none (h.noDht hp k)

omit [DecidableEq Q] in
/-- Caching the stored packet's zone keeps the caches coherent. -/
theorem Coherent.cacheStored {zs : ZoneStore K P Q RS} (h : zs.Coherent pk) {k : K} {p : P}
    (hg : zs.store.get k = some p) {c : ZoneCache K Q RS} (hc : zs.cache.insert pk p = .ok c) :
    ({ zs with cache := c } : ZoneStore K P Q RS).Coherent pk := by
  have hkp : pk.keyOf p = k := h.keyed k p hg
  rcases ZoneCache.insert_cases hc with rfl | ⟨z, hz, rfl⟩
  · exact h
  refine ⟨h.keyed, fun k' z' hz' => ?_, h.dhtUnstored, h.noDht⟩
  rcases AList.lookup_insert_eq_some.mp hz' with ⟨rfl, rfl⟩ | ⟨-, hz'⟩
  · rw [hkp]
    exact ⟨p, hg, hz⟩
  · exact h.cached k' z' hz'

omit [DecidableEq Q] in
/-- Caching the zone of a DHT packet for a key with no stored packet keeps them coherent. -/
theorem Coherent.cacheDht {zs : ZoneStore K P Q RS} (h : zs.Coherent pk) (hp : zs.pkarr = true) {p : P}
    (hg : zs.store.get (pk.keyOf p) = none) (z : CachedZone Q RS) :
    ({ zs with cache := { zs.cache with dhtCache := zs.cache.dhtCache.insert (pk.keyOf p) z } } :
      ZoneStore K P Q RS).Coherent pk := by
  refine ⟨h.keyed, h.cached, fun k z' hz' => ?_, by simp [hp]⟩
  rcases AList.lookup_insert_eq_some.mp hz' with ⟨rfl, -⟩ | ⟨-, hz'⟩
  · exact hg
  · exact h.dhtUnstored k z' hz'

theorem Coherent.resolve {zs : ZoneStore K P Q RS} (h : zs.Coherent pk) {k : K} {q : Q} {dht : Except E (Option P)}
    (hdht : ∀ p, dht = .ok (some p) → pk.keyOf p = k) : (zs.resolve pk k q dht).1.Coherent pk := by
  rcases resolve_cases pk zs k q dht with he | ⟨p, hg, he⟩ | ⟨hg, hp, he⟩ <;> rw [he]
  · exact h
  · rcases cacheStored_cases pk zs p q with ⟨c, hi, he'⟩ | ⟨e, -, he'⟩ <;> rw [he']
    · exact h.cacheStored hg hi
    · exact h
  · rcases cacheDht_cases pk zs dht q with ⟨e, -, he'⟩ | ⟨-, he'⟩ | ⟨p, rfl, -, he' | ⟨z, -, he'⟩⟩ <;> rw [he']
    · exact h
    · exact h
    · exact h
    · rw [← hdht p rfl] at hg
      exact h.cacheDht hp hg z

theorem Coherent.serve {zs : ZoneStore K P Q RS} (h : zs.Coherent pk) {r : Request K P Q E} (hr : r.Honest pk) :
    (zs.serve pk r).1.Coherent pk := by
  cases r with
  | insert p => exact h.insert p
  | resolve k q dht =>
    refine h.resolve fun p hp => ?_
    subst hp
    exact hr
  | evict k => exact h.frame rfl rfl (fun _ _ hz => AList.lookup_of_lookup_erase hz) fun _ _ => id
  | expire k => exact h.frame rfl rfl (fun _ _ => id) fun _ _ hz => AList.lookup_of_lookup_erase hz

theorem Coherent.serveAll {zs : ZoneStore K P Q RS} (h : zs.Coherent pk) {rs : List (Request K P Q E)}
    (hrs : ∀ r ∈ rs, r.Honest pk) : (zs.serveAll pk rs).Coherent pk := by
  induction rs generalizing zs with
  | nil => exact h
  | cons r rs ih =>
    exact ih (h.serve (hrs r List.mem_cons_self)) fun r' hr' => hrs r' (List.mem_cons_of_mem r hr')

/-! ### Answers -/

/-- With coherent caches, a key with a stored packet is answered by that packet's zone. -/
theorem Coherent.resolve_of_stored {zs : ZoneStore K P Q RS} (h : zs.Coherent pk) {k : K} {p : P}
    (hg : zs.store.get k = some p) (q : Q) (dht : Except E (Option P)) :
    (zs.resolve pk k q dht).2 = (CachedZone.resolve · q) <$> CachedZone.fromSignedPacket pk p := by
  have hkp : pk.keyOf p = k := h.keyed k p hg
  have hd : zs.cache.dhtCache.lookup k = none := by
    rcases hz : zs.cache.dhtCache.lookup k with _ | z
    · rfl
    · simp [h.dhtUnstored k z hz] at hg
  have hins := ZoneCache.insert_of_cached (c := zs.cache) (p := p) fun z hz => by
    obtain ⟨p', hp', hz'⟩ := h.cached _ z hz
    rw [hkp, hg] at hp'
    cases hp'
    exact hz'
  rcases hl : zs.cache.cache.lookup k with _ | z
  · -- a cache miss: the stored packet's zone is cached and asked
    have hr := ZoneCache.resolve_of_not_cached hl hd q
    unfold ZoneStore.resolve ZoneStore.cacheStored
    rw [hr, hg]
    simp only [ZoneCache.insertAndResolve, hins]
    cases CachedZone.fromSignedPacket pk p with
    | error e => rfl
    | ok z => simp [ZoneCache.resolve_insert_self]
  · obtain ⟨p', hp', hz⟩ := h.cached k z hl
    rw [hg] at hp'
    cases hp'
    rw [hz, Except.map_ok]
    unfold ZoneStore.resolve
    rw [ZoneCache.resolve_of_cache hl]
    rcases hq : z.resolve q with _ | rs
    · -- the zone has no such record: the store is asked, and answers the same
      simp only [hg, ZoneStore.cacheStored, ZoneCache.insertAndResolve, hins, hz, Except.map_ok, hkp,
        ZoneCache.resolve_insert_self, hq]
    · rfl

/-- With coherent caches and no DHT client, a key with no stored packet has no answer. -/
theorem Coherent.resolve_of_unstored {zs : ZoneStore K P Q RS} (h : zs.Coherent pk) (hp : zs.pkarr = false)
    {k : K} (hg : zs.store.get k = none) (q : Q) (dht : Except E (Option P)) :
    (zs.resolve pk k q dht).2 = .ok none := by
  have hl : zs.cache.cache.lookup k = none := by
    rcases hz : zs.cache.cache.lookup k with _ | z
    · rfl
    · obtain ⟨p, hp', -⟩ := h.cached k z hz
      simp [hg] at hp'
  unfold ZoneStore.resolve
  simp [ZoneCache.resolve_of_not_cached hl (h.noDht hp k), hg, hp]

end ZoneStore

/-- On a zone store opened over a database of packets under their own keys, with or without a
DHT client, after any requests served one after the other with the DHT answering only packets
of the keys asked, a query that runs alone gets one reply: for a key with a stored packet, the
stored packet's zone's answer, whatever the caches have kept or dropped, and without a DHT
client the stored packet's answer for every key. -/
theorem serial_reply_eq_storedAnswer (pk : Pkarr K P Q RS E) {st : SignedPacketStore K P} (hst : st.Keyed pk)
    {zs₀ : ZoneStore K P Q RS} (h₀ : zs₀ = .new st ∨ zs₀ = (ZoneStore.new st).withMainlineFallback)
    (rs : List (Request K P Q E)) (hrs : ∀ r ∈ rs, r.Honest pk) (k : K) (q : Q) (dht : Except E (Option P))
    (hk : zs₀ = .new st ∨ ((Server.run pk ⟨zs₀, []⟩ (rs.flatMap Request.ops)).zones.store.get k).isSome) :
    (Server.exec pk (Server.run pk ⟨zs₀, []⟩ (rs.flatMap Request.ops)) (Request.resolve k q dht).ops).2 =
      [(k, q, (Server.run pk ⟨zs₀, []⟩ (rs.flatMap Request.ops)).zones.storedAnswer pk k q)] := by
  have hpkarr : (zs₀.serveAll pk rs).pkarr = zs₀.pkarr := by
    rw [← Server.pkarr_run pk ⟨zs₀, []⟩ (rs.flatMap Request.ops), Server.run_serial]
  rw [Server.run_serial] at hk ⊢
  rw [Server.exec_ops]
  have hc₀ : zs₀.Coherent pk := by
    rcases h₀ with rfl | rfl
    · exact ZoneStore.coherent_new hst
    · exact (ZoneStore.coherent_new hst).withMainlineFallback
  have hc := hc₀.serveAll hrs
  show [(k, q, _)] = _
  congr 3
  rcases hg : (zs₀.serveAll pk rs).store.get k with _ | p
  · have hp : (zs₀.serveAll pk rs).pkarr = false := by
      rcases hk with rfl | hk
      · exact hpkarr
      · simp [hg] at hk
    rw [hc.resolve_of_unstored hp hg, ZoneStore.storedAnswer, hg]
  · rw [hc.resolve_of_stored hg, ZoneStore.storedAnswer, hg]

/-- With the DHT fallback: a query for a published key whose zone was evicted is answered from
the stored packet, not from the DHT. -/
theorem serial_reply_eq_storedAnswer_fallback :
    let rs : List (Request Nat (Nat × Nat) Nat Unit) :=
      [.insert (1, 5), .resolve 2 0 (.ok (some (2, 7))), .evict 1, .resolve 1 0 (.error ())]
    let s := Server.run ZoneStore.stampPkarr
      ⟨(ZoneStore.new .inMemory : ZoneStore Nat (Nat × Nat) Nat Nat).withMainlineFallback, []⟩ (rs.flatMap Request.ops)
    (∀ r ∈ rs, r.Honest ZoneStore.stampPkarr) ∧ (s.zones.store.get 1).isSome ∧
      (Server.exec ZoneStore.stampPkarr s (Request.resolve 1 0 (.ok (some (1, 9)))).ops).2 = [(1, 0, .ok (some 5))] := by
  intro rs s
  have hst : SignedPacketStore.inMemory.Keyed ZoneStore.stampPkarr := fun k p h => by simp at h
  have hrs : ∀ r ∈ rs, r.Honest ZoneStore.stampPkarr := by
    intro r hr
    simp only [rs, List.mem_cons, List.not_mem_nil, or_false] at hr
    rcases hr with rfl | rfl | rfl | rfl <;> trivial
  have hk : (s.zones.store.get 1).isSome := by decide
  refine ⟨hrs, hk, ?_⟩
  exact (serial_reply_eq_storedAnswer ZoneStore.stampPkarr hst (.inr rfl) rs hrs 1 0 _ (.inr hk)).trans (by decide)

end Iroh.DnsServer
