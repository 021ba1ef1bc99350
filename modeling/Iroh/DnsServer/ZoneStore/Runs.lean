import Iroh.DnsServer.ZoneStore
import Iroh.Lib.AList

/-! The zone store over every interleaving of its calls (`store.rs`).

`resolve` releases the cache lock between its lookup, its store read and its cache write, and
awaits the DHT before the last. A publish that runs in between can leave a zone in the LRU
cache that is older than the stored packet, or a DHT zone for a key that now has a stored
packet: the `resolve` read the store, or asked the DHT, before the publish, and writes to the
cache after the publish dropped the key. So the caches need not agree with the store. What
holds in every reachable state (`Server.Sound`) is that every zone in the LRU cache, and every
packet a call in flight read from the store, is of a packet of its key that is no more recent
than the stored one (`Behind`), and that the DHT cache holds zones of packets of their keys, and
only with a DHT client. So every reply to a query for a key is the answer of the zone of a
packet of that key, one behind the stored packet or, with a DHT client, any; no record; or,
with a DHT client, the DHT's error (`reply_answered`). A reply can come from a zone older than
the stored packet, with no DHT client at all (`reply_answered_stale`). -/

namespace Iroh.DnsServer

variable {K P Q RS E : Type} [DecidableEq K] [DecidableEq Q] (pk : Pkarr K P Q RS E)

/-- `p` is no more recent than the packet the store holds for `k`. -/
def Behind (store : SignedPacketStore K P) (k : K) (p : P) : Prop :=
  ∃ e, store.get k = some e ∧ pk.moreRecentThan p e = false

/-- What a call in flight knows of the zone store: the packet it read is of its key and behind
the stored one, and it awaits the DHT only with a DHT client. -/
def Call.Sound (zs : ZoneStore K P Q RS) : Call K P Q → Prop
  | .cache k _ p => pk.keyOf p = k ∧ Behind pk zs.store k p
  | .awaitDht _ _ => zs.pkarr = true
  | .read _ _ | .uncache _ => True

/-- What a reply to a query `q` for `k` may be: the answer of the zone of a packet of `k`, one
behind the stored packet or, with a DHT client, any; no record; or, with a DHT client, the
DHT's error. -/
def Answered (zs : ZoneStore K P Q RS) (k : K) (q : Q) (ans : Except E (Option RS)) : Prop :=
  (∃ p, pk.keyOf p = k ∧ (Behind pk zs.store k p ∨ zs.pkarr = true) ∧
    ans = (CachedZone.resolve · q) <$> CachedZone.fromSignedPacket pk p) ∨
  ans = .ok none ∨ zs.pkarr = true ∧ ∃ e, ans = .error e

variable {pk}

omit [DecidableEq Q] in
/-- A call's knowledge reads only the packet store and whether the DHT is asked. -/
theorem Call.Sound.congr {zs zs' : ZoneStore K P Q RS} (hs : zs'.store = zs.store) (hp : zs'.pkarr = zs.pkarr)
    {c : Call K P Q} (h : c.Sound pk zs) : c.Sound pk zs' := by
  cases c with
  | cache k q p =>
    show pk.keyOf p = k ∧ Behind pk zs'.store k p
    rw [hs]
    exact h
  | awaitDht k q => exact hp.trans h
  | read | uncache => trivial

theorem Answered.congr {zs zs' : ZoneStore K P Q RS} (hs : zs'.store = zs.store) (hp : zs'.pkarr = zs.pkarr)
    {k : K} {q : Q} {ans : Except E (Option RS)} (h : Answered pk zs k q ans) : Answered pk zs' k q ans := by
  unfold Answered at h ⊢
  rw [hs, hp]
  exact h

section MoreRecent

variable [Std.Asymm fun a b : P => pk.moreRecentThan a b = true]

omit [DecidableEq Q] in
/-- A packet just read from the store is behind it. -/
theorem behind_of_get {store : SignedPacketStore K P} {k : K} {p : P} (h : store.get k = some p) :
    Behind pk store k p :=
  ⟨p, h, pk.moreRecentThan_self p⟩

variable [IsOrderConnected P fun a b => pk.moreRecentThan a b = true]

omit [DecidableEq Q] in
/-- A packet behind the store stays behind it: `upsert` only stores a packet the stored one is not
more recent than. -/
theorem Behind.upsert {store : SignedPacketStore K P} {k : K} {p : P} (h : Behind pk store k p) (p' : P) :
    Behind pk (store.upsert pk p').1 k p := by
  obtain ⟨e, he, hpe⟩ := h
  obtain ⟨e', he', hee'⟩ := SignedPacketStore.upsert_keeps_recent pk he p'
  exact ⟨e', he', pk.moreRecentThan_eq_false_trans hpe hee'⟩

omit [DecidableEq Q] in
theorem Call.Sound.upsert {zs : ZoneStore K P Q RS} {c : Call K P Q} (h : c.Sound pk zs) (p : P) :
    c.Sound pk (zs.upsert pk p).1 := by
  cases c with
  | cache k q p' => exact ⟨h.1, h.2.upsert p⟩
  | awaitDht k q => exact h
  | read | uncache => trivial

end MoreRecent

namespace Server

variable (pk) in
/-- The server's invariant over every interleaving: the packets are under their keys, the LRU
cache holds zones of packets behind the stored ones, the DHT cache zones of packets of their
keys, only with a DHT client, and every call in flight is sound. -/
structure Sound (s : Server K P Q RS) : Prop where
  keyed : s.zones.store.Keyed pk
  cached : ∀ k z, s.zones.cache.cache.lookup k = some z →
    ∃ p, pk.keyOf p = k ∧ CachedZone.fromSignedPacket pk p = .ok z ∧ Behind pk s.zones.store k p
  dhtCached : ∀ k z, s.zones.cache.dhtCache.lookup k = some z →
    s.zones.pkarr = true ∧ ∃ p, pk.keyOf p = k ∧ CachedZone.fromSignedPacket pk p = .ok z
  calls : ∀ c ∈ s.calls, c.Sound pk s.zones

omit [DecidableEq Q] in
/-- A server whose zone store keeps the packet store and the DHT client, whose caches hold no
new entries and whose calls are old or sound is sound. -/
theorem Sound.frame {s s' : Server K P Q RS} (h : s.Sound pk) (hs : s'.zones.store = s.zones.store)
    (hp : s'.zones.pkarr = s.zones.pkarr)
    (hc : ∀ k z, s'.zones.cache.cache.lookup k = some z → s.zones.cache.cache.lookup k = some z)
    (hd : ∀ k z, s'.zones.cache.dhtCache.lookup k = some z → s.zones.cache.dhtCache.lookup k = some z)
    (hcalls : ∀ c ∈ s'.calls, c ∈ s.calls ∨ c.Sound pk s'.zones) : s'.Sound pk where
  keyed := by
    rw [hs]
    exact h.keyed
  cached k z hz := by
    obtain ⟨p, hk, hz', hb⟩ := h.cached k z (hc k z hz)
    exact ⟨p, hk, hz', hs ▸ hb⟩
  dhtCached k z hz := by
    obtain ⟨hpk, hz'⟩ := h.dhtCached k z (hd k z hz)
    exact ⟨hp.trans hpk, hz'⟩
  calls c hc' := (hcalls c hc').elim (fun hm => (h.calls c hm).congr hs hp) id

omit [DecidableEq Q] in
/-- Dropping calls keeps a server sound. -/
theorem Sound.drop {s : Server K P Q RS} (h : s.Sound pk) {calls : List (Call K P Q)}
    (hcalls : ∀ c ∈ calls, c ∈ s.calls) : (⟨s.zones, calls⟩ : Server K P Q RS).Sound pk :=
  h.frame rfl rfl (fun _ _ => id) (fun _ _ => id) fun c hc => .inl (hcalls c hc)

omit [DecidableEq Q] in
/-- A sound call put in front of old ones keeps a server sound. -/
theorem Sound.push {s : Server K P Q RS} (h : s.Sound pk) (c₀ : Call K P Q) (hc₀ : c₀.Sound pk s.zones)
    {calls : List (Call K P Q)} (hcalls : ∀ c ∈ calls, c ∈ s.calls) :
    (⟨s.zones, c₀ :: calls⟩ : Server K P Q RS).Sound pk :=
  h.frame rfl rfl (fun _ _ => id) (fun _ _ => id) fun c hc =>
    (List.mem_cons.mp hc).elim (fun he => .inr (he ▸ hc₀)) fun hc => .inl (hcalls c hc)

/-- The LRU cache answers from zones of packets behind the stored ones, the DHT cache from zones
of packets of the key. -/
theorem Sound.answered_resolve {s : Server K P Q RS} (h : s.Sound pk) (k : K) (q : Q) :
    Answered pk s.zones k q (.ok (s.zones.cache.resolve k q)) := by
  rcases hl : s.zones.cache.cache.lookup k with _ | z
  · rcases hd : s.zones.cache.dhtCache.lookup k with _ | z
    · right
      left
      rw [ZoneCache.resolve_of_not_cached hl hd]
    · obtain ⟨hp, p, hk, hz⟩ := h.dhtCached k z hd
      refine .inl ⟨p, hk, .inr hp, ?_⟩
      rw [ZoneCache.resolve_of_dht hl hd, hz]
      rfl
  · obtain ⟨p, hk, hz, hb⟩ := h.cached k z hl
    refine .inl ⟨p, hk, .inl hb, ?_⟩
    rw [ZoneCache.resolve_of_cache hl, hz]
    rfl

/-- Caching the zone of a packet a sound call read keeps the server sound. -/
theorem Sound.cacheStored {s : Server K P Q RS} (h : s.Sound pk) {k : K} {q : Q} {p : P}
    (hcall : (Call.cache k q p).Sound pk s.zones) {calls : List (Call K P Q)}
    (hcalls : ∀ c ∈ calls, c ∈ s.calls) :
    (⟨(s.zones.cacheStored pk p q).1, calls⟩ : Server K P Q RS).Sound pk := by
  rcases ZoneStore.cacheStored_cases pk s.zones p q with ⟨c, hi, he⟩ | ⟨e, -, he⟩ <;> rw [he]
  · rcases ZoneCache.insert_cases hi with rfl | ⟨z, hz, rfl⟩
    · exact h.drop hcalls
    refine ⟨h.keyed, fun k' z' hz' => ?_, h.dhtCached, fun c hc => h.calls c (hcalls c hc)⟩
    rcases AList.lookup_insert_eq_some.mp hz' with ⟨rfl, rfl⟩ | ⟨-, hz'⟩
    · rw [hcall.1]
      exact ⟨p, hcall.1, hz, hcall.2⟩
    · exact h.cached k' z' hz'
  · exact h.drop hcalls

/-- Caching the zone of the DHT's answer to a sound call keeps the server sound. -/
theorem Sound.cacheDht {s : Server K P Q RS} (h : s.Sound pk) {k : K} {q : Q}
    (hcall : (Call.awaitDht k q).Sound pk s.zones) (dht : Except E (Option P)) {calls : List (Call K P Q)}
    (hcalls : ∀ c ∈ calls, c ∈ s.calls) :
    (⟨(s.zones.cacheDht pk dht q).1, calls⟩ : Server K P Q RS).Sound pk := by
  rcases ZoneStore.cacheDht_cases pk s.zones dht q with ⟨e, -, he⟩ | ⟨-, he⟩ | ⟨p, -, -, he | ⟨z, hz, he⟩⟩ <;>
    rw [he]
  · exact h.drop hcalls
  · exact h.drop hcalls
  · exact h.drop hcalls
  refine ⟨h.keyed, h.cached, fun k' z' hz' => ?_, fun c hc => h.calls c (hcalls c hc)⟩
  rcases AList.lookup_insert_eq_some.mp hz' with ⟨rfl, rfl⟩ | ⟨-, hz'⟩
  · exact ⟨hcall, p, rfl, hz⟩
  · exact h.dhtCached k' z' hz'

omit [DecidableEq Q] in
theorem Sound.uncache {s : Server K P Q RS} (h : s.Sound pk) (k : K) {calls : List (Call K P Q)}
    (hcalls : ∀ c ∈ calls, c ∈ s.calls) : (⟨s.zones.uncache k, calls⟩ : Server K P Q RS).Sound pk :=
  h.frame rfl rfl (fun _ _ hz => AList.lookup_of_lookup_erase hz) (fun _ _ hz => AList.lookup_of_lookup_erase hz)
    fun c hc => .inl (hcalls c hc)

section MoreRecent

variable [Std.Asymm fun a b : P => pk.moreRecentThan a b = true]

/-- The step of a call in flight keeps the server sound. -/
theorem Sound.advance {s : Server K P Q RS} (h : s.Sound pk) (i : Nat) : (s.step pk (.advance i)).1.Sound pk := by
  have herase : ∀ c ∈ s.calls.eraseIdx i, c ∈ s.calls := fun _ hc => List.mem_of_mem_eraseIdx hc
  simp only [Server.step]
  rcases hc : s.calls[i]? with _ | (⟨k, q⟩ | ⟨k, q, p⟩ | ⟨k, q⟩ | k)
  · exact h
  · -- the store read: the packet read is behind the store, and the DHT is asked only with a client
    dsimp only
    rcases hg : s.zones.store.get k with _ | p
    · dsimp only
      split
      · rename_i hp
        exact h.push (.awaitDht k q) hp herase
      · exact h.drop herase
    · exact h.push (.cache k q p) ⟨h.keyed k p hg, behind_of_get hg⟩ herase
  · exact h.cacheStored (h.calls _ (List.mem_of_getElem? hc)) herase
  · exact h
  · exact h.uncache k herase

variable [IsOrderConnected P fun a b => pk.moreRecentThan a b = true]

/-- Every step keeps the server sound. -/
theorem Sound.step {s : Server K P Q RS} (h : s.Sound pk) (o : Op K P Q E) : (s.step pk o).1.Sound pk := by
  cases o with
  | insert p =>
    refine ⟨h.keyed.upsert pk p, fun k z hz => ?_, h.dhtCached, fun c hc => ?_⟩
    · obtain ⟨p', hk, hz', hb⟩ := h.cached k z hz
      exact ⟨p', hk, hz', hb.upsert p⟩
    · -- a call in flight, or the cache removal an update leaves
      have hc' : c ∈ s.calls ∨ c = .uncache (pk.keyOf p) := by
        simp only [Server.step] at hc
        split at hc
        · exact (List.mem_cons.mp hc).symm
        · exact .inl hc
      rcases hc' with hc' | rfl
      · exact (h.calls c hc').upsert p
      · trivial
  | resolve k q =>
    simp only [Server.step]
    split
    · exact h
    · exact h.push (.read k q) trivial fun _ => id
  | advance i => exact h.advance i
  | dht i k dht =>
    simp only [Server.step]
    rcases hc : s.calls[i]? with _ | (⟨k', q⟩ | ⟨k', q, p⟩ | ⟨k', q⟩ | k')
    · exact h
    · exact h
    · exact h
    · dsimp only
      split
      · exact h.cacheDht (h.calls _ (List.mem_of_getElem? hc)) dht fun _ hc => List.mem_of_mem_eraseIdx hc
      · exact h
    · exact h
  | evict k =>
    exact h.frame rfl rfl (fun _ _ hz => AList.lookup_of_lookup_erase hz) (fun _ _ => id) fun c hc => .inl hc
  | expire k =>
    exact h.frame rfl rfl (fun _ _ => id) (fun _ _ hz => AList.lookup_of_lookup_erase hz) fun c hc => .inl hc

theorem Sound.run {s : Server K P Q RS} (h : s.Sound pk) (ops : List (Op K P Q E)) : (s.run pk ops).Sound pk := by
  induction ops generalizing s with
  | nil => exact h
  | cons o ops ih => exact ih (h.step o)

end MoreRecent

/-- The reply a step of a sound server gives is answered as `Answered` says. -/
theorem Sound.reply {s : Server K P Q RS} (h : s.Sound pk) {o : Op K P Q E} (ho : o.Honest pk) {k : K} {q : Q}
    {ans : Except E (Option RS)} (hr : (s.step pk o).2 = some (k, q, ans)) : Answered pk s.zones k q ans := by
  cases o with
  | resolve k' q' =>
    simp only [Server.step] at hr
    split at hr
    · rename_i rs hrs
      simp only [Option.some.injEq, Prod.mk.injEq] at hr
      obtain ⟨rfl, rfl, rfl⟩ := hr
      rw [← hrs]
      exact h.answered_resolve _ _
    · cases hr
  | advance i =>
    simp only [Server.step] at hr
    rcases hc : s.calls[i]? with _ | (⟨k', q'⟩ | ⟨k', q', p⟩ | ⟨k', q'⟩ | k') <;> simp only [hc] at hr
    · cases hr
    · -- a store read replies only when it finds nothing and there is no DHT client
      split at hr
      · cases hr
      · split at hr
        · cases hr
        · simp only [Option.some.injEq, Prod.mk.injEq] at hr
          obtain ⟨-, -, rfl⟩ := hr
          exact .inr (.inl rfl)
    · simp only [Option.some.injEq, Prod.mk.injEq] at hr
      obtain ⟨rfl, rfl, rfl⟩ := hr
      have hcall : (Call.cache k' q' p).Sound pk s.zones := h.calls _ (List.mem_of_getElem? hc)
      rcases ZoneStore.cacheStored_cases pk s.zones p q' with ⟨c, hi, he⟩ | ⟨e, hz, he⟩ <;> rw [he]
      · -- the reply comes from the cache the step leaves, which is sound
        have hs' := h.cacheStored hcall fun c (hc : c ∈ s.calls.eraseIdx i) => List.mem_of_mem_eraseIdx hc
        rw [he] at hs'
        rw [hcall.1]
        exact (hs'.answered_resolve k' q').congr rfl rfl
      · exact .inl ⟨p, hcall.1, .inl hcall.2, by rw [hz]; rfl⟩
    · cases hr
    · cases hr
  | dht i k' dht =>
    simp only [Server.step] at hr
    rcases hc : s.calls[i]? with _ | (⟨k'', q'⟩ | ⟨k'', q', p⟩ | ⟨k'', q'⟩ | k'') <;> simp only [hc] at hr
    · cases hr
    · cases hr
    · cases hr
    split at hr
    · simp only [Option.some.injEq, Prod.mk.injEq] at hr
      obtain ⟨rfl, rfl, rfl⟩ := hr
      have hpk : s.zones.pkarr = true := h.calls _ (List.mem_of_getElem? hc)
      rcases ZoneStore.cacheDht_cases pk s.zones dht q' with ⟨e, rfl, he⟩ | ⟨rfl, he⟩ | ⟨p, rfl, hans, -⟩
      · rw [he]
        exact .inr (.inr ⟨hpk, e, rfl⟩)
      · rw [he]
        exact .inr (.inl rfl)
      · exact .inl ⟨p, ho, .inr hpk, hans⟩
    · cases hr
    · cases hr
  | insert p | evict k' | expire k' => simp [Server.step] at hr

end Server

section MoreRecent

variable [Std.Asymm fun a b : P => pk.moreRecentThan a b = true]
  [IsOrderConnected P fun a b => pk.moreRecentThan a b = true]

omit [DecidableEq Q] [Std.Asymm fun a b : P => pk.moreRecentThan a b = true]
  [IsOrderConnected P fun a b => pk.moreRecentThan a b = true] in
/-- A zone store opened over packets under their own keys, with or without the DHT fallback,
starts sound. -/
theorem Server.sound_opened {st : SignedPacketStore K P} (hst : st.Keyed pk) {zs₀ : ZoneStore K P Q RS}
    (h₀ : zs₀ = .new st ∨ zs₀ = (ZoneStore.new st).withMainlineFallback) :
    (⟨zs₀, []⟩ : Server K P Q RS).Sound pk := by
  rcases h₀ with rfl | rfl <;>
    exact ⟨hst, fun k z h => by simp [ZoneStore.new, ZoneStore.withMainlineFallback, ZoneCache.new, AList.lookup_empty] at h,
      fun k z h => by simp [ZoneStore.new, ZoneStore.withMainlineFallback, ZoneCache.new, AList.lookup_empty] at h, fun c hc => by cases hc⟩

/-- After any interleaving of publishes, queries and cache evictions on a zone store opened over a
database of packets under their own keys, with or without the DHT fallback and with the DHT
answering only packets of the keys asked, every reply to a query for a key is the answer of the
zone of a packet of that key, one no more recent than the stored packet or, with a DHT client,
any; no record; or, with a DHT client, the DHT's error. -/
theorem reply_answered {st : SignedPacketStore K P} (hst : st.Keyed pk) {zs₀ : ZoneStore K P Q RS}
    (h₀ : zs₀ = .new st ∨ zs₀ = (ZoneStore.new st).withMainlineFallback) (ops : List (Op K P Q E))
    (o : Op K P Q E) (ho : o.Honest pk) {k : K} {q : Q} {ans : Except E (Option RS)}
    (hr : ((Server.run pk ⟨zs₀, []⟩ ops).step pk o).2 = some (k, q, ans)) :
    Answered pk (Server.run pk ⟨zs₀, []⟩ ops).zones k q ans :=
  ((Server.sound_opened hst h₀).run ops).reply ho hr

end MoreRecent

/-- A publish between a query's store read and its cache write: the query caches the zone of the
packet it read, which the publish made stale, and the next query for the key is answered from
it while the store holds the newer packet. -/
theorem reply_answered_stale :
    let ops : List (Op Nat (Nat × Nat) Nat Unit) :=
      [.insert (1, 5), .advance 0, .resolve 1 0, .advance 0, .insert (1, 9), .advance 0, .advance 0]
    let s := Server.run ZoneStore.stampPkarr ⟨(ZoneStore.new .inMemory : ZoneStore Nat (Nat × Nat) Nat Nat), []⟩ ops
    (s.step ZoneStore.stampPkarr (.resolve 1 0)).2 = some (1, 0, .ok (some 5)) ∧
      s.zones.storedAnswer ZoneStore.stampPkarr 1 0 = .ok (some 9) ∧
      Answered ZoneStore.stampPkarr s.zones 1 0 (.ok (some 5)) := by
  intro ops s
  have : Std.Asymm fun a b : Nat × Nat => ZoneStore.stampPkarr.moreRecentThan a b = true :=
    ⟨fun a b h h' => by simp [ZoneStore.stampPkarr] at h h'; omega⟩
  have : IsOrderConnected (Nat × Nat) fun a b => ZoneStore.stampPkarr.moreRecentThan a b = true :=
    ⟨fun a b c h => by simp [ZoneStore.stampPkarr] at h ⊢; omega⟩
  have hs : SignedPacketStore.inMemory.Keyed ZoneStore.stampPkarr := fun k p h => by simp at h
  have hr : (s.step ZoneStore.stampPkarr (.resolve 1 0)).2 = some (1, 0, .ok (some 5)) := by decide
  exact ⟨hr, by decide, reply_answered hs (.inl rfl) ops (.resolve 1 0) trivial hr⟩

end Iroh.DnsServer
