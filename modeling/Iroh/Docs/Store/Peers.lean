import Iroh.Docs.Replica
import Iroh.Lib.BTreeMap
import Iroh.Lib.Lru

/-! The namespace and useful-peer tables of the store (`store/fs.rs`):
`import_namespace`, `remove_replica`, `register_useful_peer` and `get_sync_peers`.

`NAMESPACE_PEERS_TABLE` is a multimap: under a namespace it keeps a set of
`(nanos, peer)` values in increasing order, the oldest registration first.
`register_useful_peer` reads the oldest value and, in one loop over the rest, the
set's length and the first value of the peer; it then replaces the peer's value, or
adds one and evicts the oldest when the set is over `PEERS_PER_DOC_CACHE_SIZE`.

Whatever the clock reads, a set holds at most one value per peer and at most
`PEERS_PER_DOC_CACHE_SIZE` values (`Bounded`); every operation on the tables keeps
that, and a namespace that is not in the store has no peers (`Inv`, `inv_run`). What
stays of a set besides the new value is `kept` (`keys_updatePeers_perm`), in order
before the new value when the clock reads later than every value there
(`keys_updatePeers`). The peers from the newest, as `get_sync_peers` lists them, are
then the cache of the most recently used peers after one more use, `Lru.touch`
(`peers_updatePeers`), and after a sequence of registrations the distinct peers by
their last registration, the latest first (`Lru.foldl_touch`).

The clock reading, `as_nanos() as u64`, is each registration's argument; the errors of
the clock and of the database itself are not modelled. -/
namespace Iroh.Docs

namespace Capability

/-- `Capability::merge`: the only upgrade is from read access to the secret. -/
def merge (self other : Capability) : Except String (Capability × Bool) :=
  if other.id ≠ self.id then .error "Namespaces are not the same"
  else match self, other with
    | .read _, .write _ => .ok (other, true)
    | _, _ => .ok (self, false)

theorem id_of_merge {self other c : Capability} {upgraded : Bool}
    (h : self.merge other = .ok (c, upgraded)) : c.id = self.id := by
  unfold merge at h
  split_ifs at h with hne
  split at h
  · obtain ⟨rfl, -⟩ := Prod.mk.inj (Except.ok.inj h)
    exact not_not.mp hne
  · obtain ⟨rfl, -⟩ := Prod.mk.inj (Except.ok.inj h)
    rfl

theorem merge_of_id_eq {self other : Capability} (h : other.id = self.id) :
    ∃ r, self.merge other = .ok r := by
  unfold merge
  rw [if_neg (not_not.mpr h)]
  split <;> exact ⟨_, rfl⟩

/-- A merge that does not upgrade keeps the capability it started from. -/
theorem eq_self_of_merge {self other c : Capability} (h : self.merge other = .ok (c, false)) :
    c = self := by
  unfold merge at h
  split_ifs at h
  split at h
  · cases h
  · cases h
    rfl

end Capability

namespace Store

/-- `PEERS_PER_DOC_CACHE_SIZE`. -/
def PEERS_PER_DOC_CACHE_SIZE : Nat := 5

/-- `ImportNamespaceOutcome`. -/
inductive ImportNamespaceOutcome where
  | inserted
  | upgraded
  | noChange
deriving DecidableEq, Repr

/-- The values of `NAMESPACE_PEERS_TABLE` under one namespace: `(nanos, peer)`. -/
abbrev NamespacePeers (P : Type) [LinearOrder P] := BTreeMap (Lex (Nat × P)) Unit

/-- `NAMESPACES_TABLE`, a namespace's capability, and `NAMESPACE_PEERS_TABLE`. -/
structure NamespaceTables (P : Type) [LinearOrder P] where
  namespaces : NamespaceId → Option Capability
  namespacePeers : NamespaceId → NamespacePeers P

namespace NamespacePeers

variable {P : Type} [LinearOrder P]

/-- The peer of a value. -/
def peerOf (k : Lex (Nat × P)) : P := (ofLex k).2

/-- The clock reading of a value. -/
def nanosOf (k : Lex (Nat × P)) : Nat := (ofLex k).1

/-- The peers, the oldest registration first. -/
def peers (s : NamespacePeers P) : List P := s.keys.map peerOf

/-- A round of the loop past the oldest value: count it, and keep the nanos of the
first value of `peer`. -/
def scanStep (peer : P) (acc : Nat × Option Nat) (k : Lex (Nat × P)) : Nat × Option Nat :=
  (acc.1 + 1, if acc.2.isNone ∧ peerOf k = peer then some (nanosOf k) else acc.2)

/-- What `register_useful_peer` does to the namespace's values. -/
def updatePeers (s : NamespacePeers P) (peer : P) (nanos : Nat) : NamespacePeers P :=
  match s.keys with
  | [] =>
    -- the set is empty, and `PEERS_PER_DOC_CACHE_SIZE` is not zero
    s.insert (toLex (nanos, peer)) ()
  | oldest :: rest =>
    if peerOf oldest = peer then
      (s.remove oldest).insert (toLex (nanos, peer)) ()
    else
      let scan := rest.foldl (scanStep peer) (1, none)
      match scan.2 with
      | some prevNanos => (s.remove (toLex (prevNanos, peer))).insert (toLex (nanos, peer)) ()
      | none =>
        let s := s.insert (toLex (nanos, peer)) ()
        if scan.1 + 1 > PEERS_PER_DOC_CACHE_SIZE then s.remove oldest else s

/-- The values that stay besides the new one: all but the peer's, or for a new peer in
a full set all but the oldest. -/
def kept (s : NamespacePeers P) (peer : P) : List (Lex (Nat × P)) :=
  if s.peers.contains peer then s.keys.filter (peerOf · ≠ peer)
  else if s.keys.length + 1 > PEERS_PER_DOC_CACHE_SIZE then s.keys.tail
  else s.keys

/-- At most one value per peer, and at most `PEERS_PER_DOC_CACHE_SIZE` values. -/
structure Bounded (s : NamespacePeers P) : Prop where
  nodup : s.peers.Nodup
  length_le : s.keys.length ≤ PEERS_PER_DOC_CACHE_SIZE

/-- Every value was registered before the clock read `nanos`. -/
def Before (s : NamespacePeers P) (nanos : Nat) : Prop := ∀ k ∈ s.keys, nanosOf k < nanos

/-! ### The loop and the branches -/

theorem foldl_scanStep_some (peer : P) (rest : List (Lex (Nat × P))) (n x : Nat) :
    rest.foldl (scanStep peer) (n, some x) = (n + rest.length, some x) := by
  induction rest generalizing n with
  | nil => rfl
  | cons k rest ih =>
    rw [List.foldl_cons, scanStep]
    simp only [Option.isNone_some, Bool.false_eq_true, false_and, if_false]
    rw [ih, List.length_cons]
    congr 1
    omega

theorem foldl_scanStep_none (peer : P) (rest : List (Lex (Nat × P))) (n : Nat) :
    rest.foldl (scanStep peer) (n, none) =
      (n + rest.length, (rest.find? (peerOf · = peer)).map nanosOf) := by
  induction rest generalizing n with
  | nil => rfl
  | cons k rest ih =>
    rw [List.foldl_cons, scanStep, List.length_cons]
    by_cases hk : peerOf k = peer
    · simp only [Option.isNone_none, hk, and_self, if_true]
      rw [foldl_scanStep_some, List.find?_cons_of_pos (by simpa using hk)]
      simp only [Option.map_some, Prod.mk.injEq, and_true]
      omega
    · simp only [hk, and_false, if_false]
      rw [ih, List.find?_cons_of_neg (by simpa using hk)]
      simp only [Prod.mk.injEq, and_true]
      omega

theorem updatePeers_of_nil {s : NamespacePeers P} (h : s.keys = []) (peer : P) (nanos : Nat) :
    s.updatePeers peer nanos = s.insert (toLex (nanos, peer)) () := by
  simp only [updatePeers, h]

theorem updatePeers_of_oldest {s : NamespacePeers P} {oldest : Lex (Nat × P)} {rest}
    (h : s.keys = oldest :: rest) {peer : P} (hp : peerOf oldest = peer) (nanos : Nat) :
    s.updatePeers peer nanos = (s.remove oldest).insert (toLex (nanos, peer)) () := by
  simp only [updatePeers, h, hp, if_true]

theorem updatePeers_of_prev {s : NamespacePeers P} {oldest k : Lex (Nat × P)} {rest}
    (h : s.keys = oldest :: rest) {peer : P} (hp : peerOf oldest ≠ peer)
    (hprev : rest.find? (peerOf · = peer) = some k) (nanos : Nat) :
    s.updatePeers peer nanos = (s.remove k).insert (toLex (nanos, peer)) () := by
  have hk : toLex (nanosOf k, peer) = k := by
    have := List.find?_some hprev
    simp only [decide_eq_true_eq] at this
    rw [← this]
    rfl
  simp only [updatePeers, h, hp, if_false, foldl_scanStep_none, hprev, Option.map_some, hk]

theorem updatePeers_of_new {s : NamespacePeers P} {oldest : Lex (Nat × P)} {rest}
    (h : s.keys = oldest :: rest) {peer : P} (hp : peerOf oldest ≠ peer)
    (hnone : rest.find? (peerOf · = peer) = none) (nanos : Nat) :
    s.updatePeers peer nanos =
      if s.keys.length + 1 > PEERS_PER_DOC_CACHE_SIZE then
        (s.insert (toLex (nanos, peer)) ()).remove oldest
      else s.insert (toLex (nanos, peer)) () := by
  simp only [updatePeers, h, hp, if_false, foldl_scanStep_none, hnone, Option.map_none,
    List.length_cons, Nat.add_comm 1 rest.length]

/-! ### What stays -/

omit [LinearOrder P] in
theorem peerOf_toLex (nanos : Nat) (peer : P) : peerOf (toLex (nanos, peer)) = peer := rfl

omit [LinearOrder P] in
theorem not_mem_of_peer_not_mem {l : List (Lex (Nat × P))} {peer : P} (h : peer ∉ l.map peerOf)
    (nanos : Nat) : toLex (nanos, peer) ∉ l :=
  fun hm => h (List.mem_map.mpr ⟨_, hm, peerOf_toLex nanos peer⟩)

/-- With one value per peer, dropping a peer's values is dropping its one value. -/
theorem filter_peerOf_eq {l : List (Lex (Nat × P))} (hnd : (l.map peerOf).Nodup)
    {k : Lex (Nat × P)} (hk : k ∈ l) : l.filter (peerOf · ≠ peerOf k) = l.filter (· ≠ k) := by
  refine List.filter_congr fun x hx => ?_
  have hiff : peerOf x = peerOf k ↔ x = k :=
    ⟨fun he => List.inj_on_of_nodup_map hnd hx hk he, fun he => he ▸ rfl⟩
  simp [hiff]

theorem map_filter_peerOf (s : NamespacePeers P) (peer : P) :
    (s.keys.filter (peerOf · ≠ peer)).map peerOf = s.peers.filter (· ≠ peer) := by
  rw [peers, List.filter_map]
  rfl

theorem kept_sublist (s : NamespacePeers P) (peer : P) : (s.kept peer).Sublist s.keys := by
  unfold kept
  split_ifs
  · exact List.filter_sublist
  · exact List.tail_sublist _
  · exact List.Sublist.refl _

theorem kept_of_mem_peers {s : NamespacePeers P} {peer : P} (hm : peer ∈ s.peers) :
    s.kept peer = s.keys.filter (peerOf · ≠ peer) := by
  rw [kept, if_pos (List.contains_iff_mem.mpr hm)]

theorem kept_of_mem {s : NamespacePeers P} (h : s.peers.Nodup) {k : Lex (Nat × P)}
    (hk : k ∈ s.keys) : s.kept (peerOf k) = (s.remove k).keys := by
  rw [kept_of_mem_peers (List.mem_map.mpr ⟨k, hk, rfl⟩), filter_peerOf_eq h hk,
    BTreeMap.keys_remove]

theorem kept_of_not_mem {s : NamespacePeers P} {peer : P} (hm : peer ∉ s.peers) :
    s.kept peer =
      if s.keys.length + 1 > PEERS_PER_DOC_CACHE_SIZE then s.keys.tail else s.keys := by
  rw [kept, if_neg (mt List.contains_iff_mem.mp hm)]

theorem peer_not_mem_kept (s : NamespacePeers P) (peer : P) :
    peer ∉ (s.kept peer).map peerOf := by
  by_cases hm : peer ∈ s.peers
  · rw [kept_of_mem_peers hm, map_filter_peerOf]
    simp
  · rw [kept_of_not_mem hm]
    split_ifs
    · exact fun hmem => hm (((List.tail_sublist _).map peerOf).subset hmem)
    · exact hm

theorem length_kept_lt {s : NamespacePeers P} (h : s.Bounded) (peer : P) :
    (s.kept peer).length < PEERS_PER_DOC_CACHE_SIZE := by
  have hlen := h.length_le
  have hpos : 0 < PEERS_PER_DOC_CACHE_SIZE := by decide
  by_cases hm : peer ∈ s.peers
  · obtain ⟨k, hk, rfl⟩ := List.mem_map.mp hm
    have hrem := BTreeMap.length_keys_remove hk
    rw [kept_of_mem h.nodup hk]
    omega
  · rw [kept_of_not_mem hm]
    split_ifs with hfull
    · rw [List.length_tail]
      omega
    · omega

/-- Whatever the clock reads, the set is what stays and the new value. -/
theorem keys_updatePeers_perm {s : NamespacePeers P} (h : s.peers.Nodup) (peer : P) (nanos : Nat) :
    (s.updatePeers peer nanos).keys.Perm (s.kept peer ++ [toLex (nanos, peer)]) := by
  refine List.Perm.trans ?_ (List.perm_append_singleton _ _).symm
  have hins : ∀ t : NamespacePeers P, peer ∉ t.keys.map peerOf →
      (t.insert (toLex (nanos, peer)) ()).keys.Perm (toLex (nanos, peer) :: t.keys) :=
    fun t ht => BTreeMap.keys_insert_perm _ _ (not_mem_of_peer_not_mem ht nanos)
  rcases hkeys : s.keys with _ | ⟨oldest, rest⟩
  · have hkept : s.kept peer = [] := List.eq_nil_of_sublist_nil (hkeys ▸ kept_sublist s peer)
    rw [updatePeers_of_nil hkeys, hkept, ← hkeys]
    exact hins s (by simp [hkeys])
  · by_cases hp : peerOf oldest = peer
    · subst hp
      have hold : oldest ∈ s.keys := hkeys ▸ List.mem_cons_self
      rw [updatePeers_of_oldest hkeys rfl, kept_of_mem h hold]
      refine hins _ ?_
      rw [← kept_of_mem h hold]
      exact peer_not_mem_kept s _
    · cases hfind : rest.find? (peerOf · = peer) with
      | some k =>
        have hk : k ∈ s.keys := hkeys ▸ List.mem_cons_of_mem _ (List.mem_of_find?_eq_some hfind)
        have hpk : peerOf k = peer := by simpa using List.find?_some hfind
        have hkept : s.kept peer = (s.remove k).keys := hpk ▸ kept_of_mem h hk
        rw [updatePeers_of_prev hkeys hp hfind, hkept]
        refine hins _ ?_
        rw [← hkept]
        exact peer_not_mem_kept s peer
      | none =>
        have hnew : peer ∉ s.peers := by
          have hrest := List.find?_eq_none.mp hfind
          simp only [peers, hkeys, List.map_cons, List.mem_cons, List.mem_map, not_or]
          exact ⟨Ne.symm hp, fun ⟨k, hk, hpk⟩ => hrest k hk (by simpa using hpk)⟩
        rw [updatePeers_of_new hkeys hp hfind, kept_of_not_mem hnew]
        split_ifs with hfull
        · have hne : toLex (nanos, peer) ≠ oldest := fun he => hp (he ▸ rfl)
          have hold : oldest ∉ rest := (List.nodup_cons.mp (hkeys ▸ BTreeMap.nodup_keys s)).1
          have hrest : rest.filter (· ≠ oldest) = rest :=
            List.filter_eq_self.mpr fun k hk => decide_eq_true fun he => hold (he ▸ hk)
          rw [BTreeMap.keys_remove]
          refine ((hins s hnew).filter _).trans ?_
          rw [List.filter_cons_of_pos (by simpa using hne), hkeys, List.filter_cons_of_neg (by simp),
            hrest, List.tail_cons]
        · exact hins s hnew

/-- When the clock reads later than every value, the new value comes last. -/
theorem keys_updatePeers {s : NamespacePeers P} (h : s.peers.Nodup) {nanos : Nat}
    (hb : s.Before nanos) (peer : P) :
    (s.updatePeers peer nanos).keys = s.kept peer ++ [toLex (nanos, peer)] := by
  have hsorted : (s.kept peer ++ [toLex (nanos, peer)]).Pairwise (· < ·) := by
    refine List.pairwise_append.mpr ⟨(BTreeMap.sorted_keys s).sublist (kept_sublist s peer),
      List.pairwise_singleton _ _, fun k hk new hnew => ?_⟩
    rw [List.mem_singleton.mp hnew]
    exact Prod.Lex.toLex_lt_toLex.mpr (Or.inl (hb k ((kept_sublist s peer).subset hk)))
  exact (keys_updatePeers_perm h peer nanos).eq_of_pairwise
    (fun _ _ _ _ hab hba => absurd hba (lt_asymm hab)) (BTreeMap.sorted_keys _) hsorted

theorem mem_keys_updatePeers {s : NamespacePeers P} (h : s.peers.Nodup) {peer : P} {nanos : Nat}
    {k : Lex (Nat × P)} (hk : k ∈ (s.updatePeers peer nanos).keys) :
    k ∈ s.keys ∨ k = toLex (nanos, peer) := by
  rcases List.mem_append.mp ((keys_updatePeers_perm h peer nanos).subset hk) with hk | hk
  · exact Or.inl ((kept_sublist s peer).subset hk)
  · exact Or.inr (List.mem_singleton.mp hk)

/-- One value per peer and the bound survive a registration, whatever the clock reads. -/
theorem Bounded.updatePeers {s : NamespacePeers P} (h : s.Bounded) (peer : P) (nanos : Nat) :
    (s.updatePeers peer nanos).Bounded := by
  have hperm := (keys_updatePeers_perm h.nodup peer nanos).map peerOf
  rw [List.map_append, List.map_singleton, peerOf_toLex] at hperm
  constructor
  · rw [peers, hperm.nodup_iff, List.nodup_append]
    refine ⟨(h.nodup.sublist ((kept_sublist s peer).map peerOf)), List.nodup_singleton _, ?_⟩
    intro a ha b hb hab
    rw [List.mem_singleton.mp hb] at hab
    exact peer_not_mem_kept s peer (hab ▸ ha)
  · rw [(keys_updatePeers_perm h.nodup peer nanos).length_eq, List.length_append,
      List.length_singleton]
    have := length_kept_lt h peer
    omega

theorem Before.updatePeers {s : NamespacePeers P} (h : s.peers.Nodup) {nanos nanos' : Nat}
    (hb : s.Before nanos') (hlt : nanos < nanos') (peer : P) :
    (s.updatePeers peer nanos).Before nanos' := fun k hk => by
  rcases mem_keys_updatePeers h hk with hk | rfl
  · exact hb k hk
  · exact hlt

/-! ### The cache of the latest peers -/

/-- The peers from the newest are the cache after one more use of `peer`. -/
theorem touch_peers {s : NamespacePeers P} (h : s.Bounded) (peer : P) :
    Lru.touch PEERS_PER_DOC_CACHE_SIZE s.peers.reverse peer =
      ((s.kept peer).map peerOf ++ [peer]).reverse := by
  rw [List.reverse_append, List.reverse_singleton, List.singleton_append, Lru.touch]
  by_cases hm : peer ∈ s.peers
  · rw [if_pos (List.mem_reverse.mpr hm), kept_of_mem_peers hm, map_filter_peerOf,
      ← Lru.erase_eq_filter h.nodup, Lru.erase_reverse h.nodup]
  · have hlen : s.peers.length = s.keys.length := List.length_map _
    have hle := h.length_le
    rw [if_neg (mt List.mem_reverse.mp hm), kept_of_not_mem hm]
    unfold PEERS_PER_DOC_CACHE_SIZE at hle ⊢
    split_ifs with hfull
    · rw [List.take_succ_cons, List.take_reverse, List.map_tail,
        show s.peers.length - 4 = 1 by omega, List.drop_one]
      rfl
    · rw [List.take_of_length_le (by simp only [List.length_cons, List.length_reverse]; omega)]
      rfl

theorem peers_updatePeers {s : NamespacePeers P} (h : s.Bounded) {nanos : Nat}
    (hb : s.Before nanos) (peer : P) :
    (s.updatePeers peer nanos).peers.reverse = Lru.touch PEERS_PER_DOC_CACHE_SIZE s.peers.reverse peer := by
  rw [touch_peers h, peers, keys_updatePeers h.nodup hb, List.map_append, List.map_singleton,
    peerOf_toLex]

end NamespacePeers

/-- An operation on the namespace tables. -/
inductive Op (P : Type) where
  | importNamespace (capability : Capability)
  | removeReplica (openReplicas : List NamespaceId) (ns : NamespaceId)
  | registerUsefulPeer (ns : NamespaceId) (peer : P) (nanos : Nat)

namespace NamespaceTables

open NamespacePeers

variable {P : Type} [LinearOrder P]

/-- Tables with no rows. -/
def empty : NamespaceTables P := ⟨fun _ => none, fun _ => BTreeMap.empty⟩

/-- The capability `import_namespace` stores, and the outcome, from the one stored. -/
def mergeExisting (existing : Option Capability) (capability : Capability) :
    Except String (Capability × ImportNamespaceOutcome) :=
  match existing with
  | some existing =>
    (existing.merge capability).map fun r => (r.1, if r.2 then .upgraded else .noChange)
  | none => .ok (capability, .inserted)

theorem mergeExisting_some {existing capability c : Capability} {outcome : ImportNamespaceOutcome} :
    mergeExisting (some existing) capability = .ok (c, outcome) ↔
      ∃ upgraded, existing.merge capability = .ok (c, upgraded) ∧
        outcome = if upgraded then .upgraded else .noChange := by
  simp only [mergeExisting]
  cases existing.merge capability with
  | error => simp [Except.map]
  | ok r =>
    simp only [Except.map, Except.ok.injEq, Prod.mk.injEq]
    constructor
    · rintro ⟨rfl, rfl⟩
      exact ⟨r.2, rfl, rfl⟩
    · rintro ⟨upgraded, rfl, rfl⟩
      exact ⟨rfl, rfl⟩

/-- `Store::import_namespace`. -/
def importNamespace (t : NamespaceTables P) (capability : Capability) :
    Except String (NamespaceTables P × ImportNamespaceOutcome) :=
  (mergeExisting (t.namespaces capability.id) capability).map fun r =>
    ({ t with namespaces := Function.update t.namespaces r.1.id (some r.1) }, r.2)

/-- `Store::remove_replica` on these tables: refused while the replica is open, and
otherwise the namespace goes with all its peers (`Tables.removeReplica` clears its
records). -/
def removeReplica (openReplicas : List NamespaceId) (t : NamespaceTables P) (ns : NamespaceId) :
    Except String (NamespaceTables P) :=
  if openReplicas.contains ns then .error "replica is not closed"
  else .ok ⟨Function.update t.namespaces ns none, Function.update t.namespacePeers ns BTreeMap.empty⟩

/-- `Store::register_useful_peer`, with the clock reading `nanos`. -/
def registerUsefulPeer (t : NamespaceTables P) (ns : NamespaceId) (peer : P) (nanos : Nat) :
    Except String (NamespaceTables P) :=
  if (t.namespaces ns).isSome then
    .ok { t with namespacePeers :=
      Function.update t.namespacePeers ns ((t.namespacePeers ns).updatePeers peer nanos) }
  else .error "document not created"

/-- `Store::get_sync_peers`: the peers from the newest, and none if there are none. -/
def getSyncPeers (t : NamespaceTables P) (ns : NamespaceId) : Option (List P) :=
  let peers := (t.namespacePeers ns).keys.reverse.map peerOf
  if peers.isEmpty then none else some peers

/-- The tables after an operation: `modify` commits only what succeeds. -/
def apply (t : NamespaceTables P) : Op P → NamespaceTables P
  | .importNamespace capability =>
    match t.importNamespace capability with
    | .ok r => r.1
    | .error _ => t
  | .removeReplica openReplicas ns =>
    match t.removeReplica openReplicas ns with
    | .ok t' => t'
    | .error _ => t
  | .registerUsefulPeer ns peer nanos =>
    match t.registerUsefulPeer ns peer nanos with
    | .ok t' => t'
    | .error _ => t

/-! ### The operations -/

theorem getSyncPeers_eq (t : NamespaceTables P) (ns : NamespaceId) :
    t.getSyncPeers ns =
      if (t.namespacePeers ns).keys = [] then none else some (t.namespacePeers ns).peers.reverse := by
  simp only [getSyncPeers, peers, List.map_reverse, List.isEmpty_iff, List.reverse_eq_nil_iff,
    List.map_eq_nil_iff]

theorem registerUsefulPeer_of_isSome {t : NamespaceTables P} {ns : NamespaceId}
    (h : (t.namespaces ns).isSome) (peer : P) (nanos : Nat) :
    t.registerUsefulPeer ns peer nanos = .ok { t with
      namespacePeers := Function.update t.namespacePeers ns ((t.namespacePeers ns).updatePeers peer nanos) } := by
  rw [registerUsefulPeer, if_pos h]

theorem eq_of_registerUsefulPeer {t t' : NamespaceTables P} {ns : NamespaceId} {peer : P}
    {nanos : Nat} (hr : t.registerUsefulPeer ns peer nanos = .ok t') :
    (t.namespaces ns).isSome ∧ t' = { t with
      namespacePeers := Function.update t.namespacePeers ns ((t.namespacePeers ns).updatePeers peer nanos) } := by
  unfold registerUsefulPeer at hr
  split_ifs at hr with h
  exact ⟨h, (Except.ok.inj hr).symm⟩

theorem namespaces_of_registerUsefulPeer {t t' : NamespaceTables P} {ns : NamespaceId} {peer : P}
    {nanos : Nat} (hr : t.registerUsefulPeer ns peer nanos = .ok t') : t'.namespaces = t.namespaces := by
  rw [(eq_of_registerUsefulPeer hr).2]

theorem namespacePeers_of_registerUsefulPeer {t t' : NamespaceTables P} {ns : NamespaceId}
    {peer : P} {nanos : Nat} (hr : t.registerUsefulPeer ns peer nanos = .ok t') (ns' : NamespaceId) :
    t'.namespacePeers ns' =
      if ns' = ns then (t.namespacePeers ns).updatePeers peer nanos else t.namespacePeers ns' := by
  rw [(eq_of_registerUsefulPeer hr).2]
  by_cases e : ns' = ns
  · subst e
    simp
  · simp [e]

theorem id_of_mergeExisting {existing : Option Capability} {capability : Capability}
    (hid : ∀ c, existing = some c → c.id = capability.id)
    {r : Capability × ImportNamespaceOutcome} (hm : mergeExisting existing capability = .ok r) :
    r.1.id = capability.id := by
  cases existing with
  | none =>
    cases hm
    rfl
  | some e =>
    simp only [mergeExisting] at hm
    cases hmerge : e.merge capability with
    | error msg => simp [hmerge, Except.map] at hm
    | ok m =>
      simp only [hmerge, Except.map, Except.ok.injEq] at hm
      rw [← hm, Capability.id_of_merge hmerge, hid e rfl]

theorem eq_of_importNamespace {t t' : NamespaceTables P} {capability : Capability}
    {outcome : ImportNamespaceOutcome} (hr : t.importNamespace capability = .ok (t', outcome)) :
    ∃ c, mergeExisting (t.namespaces capability.id) capability = .ok (c, outcome) ∧
      t' = { t with namespaces := Function.update t.namespaces c.id (some c) } := by
  unfold importNamespace at hr
  cases hm : mergeExisting (t.namespaces capability.id) capability with
  | error msg => simp [hm, Except.map] at hr
  | ok r =>
    simp only [hm, Except.map, Except.ok.injEq, Prod.mk.injEq] at hr
    exact ⟨r.1, by rw [← hr.2], hr.1.symm⟩

/-! ### What every run keeps -/

/-- A stored capability sits under its own namespace, a namespace that is not stored has
no peers, and every namespace's peers are bounded. -/
structure Inv (t : NamespaceTables P) : Prop where
  id_eq : ∀ ns c, t.namespaces ns = some c → c.id = ns
  peers_of_none : ∀ ns, t.namespaces ns = none → (t.namespacePeers ns).keys = []
  bounded : ∀ ns, (t.namespacePeers ns).Bounded

theorem bounded_of_keys_nil {s : NamespacePeers P} (h : s.keys = []) : s.Bounded :=
  ⟨by simp [peers, h], by simp [h]⟩

theorem Inv.empty : (empty : NamespaceTables P).Inv :=
  ⟨fun _ _ h => by simp [NamespaceTables.empty] at h, fun _ _ => rfl, fun _ => bounded_of_keys_nil rfl⟩

theorem Inv.importNamespace {t t' : NamespaceTables P} (h : t.Inv) {capability : Capability}
    {outcome : ImportNamespaceOutcome} (hr : t.importNamespace capability = .ok (t', outcome)) :
    t'.Inv := by
  obtain ⟨c, hm, rfl⟩ := eq_of_importNamespace hr
  have hc : c.id = capability.id := id_of_mergeExisting (h.id_eq _) hm
  refine ⟨fun ns c' hns => ?_, fun ns hns => ?_, h.bounded⟩
  · by_cases e : ns = c.id
    · subst e
      simp only [Function.update_self, Option.some.injEq] at hns
      rw [← hns]
    · simp only [Function.update_of_ne e] at hns
      exact h.id_eq ns c' hns
  · have e : ns ≠ c.id := by
      rintro rfl
      simp at hns
    simp only [Function.update_of_ne e] at hns
    exact h.peers_of_none ns hns

theorem Inv.removeReplica {t t' : NamespaceTables P} (h : t.Inv) {openReplicas : List NamespaceId}
    {ns : NamespaceId} (hr : t.removeReplica openReplicas ns = .ok t') : t'.Inv := by
  unfold NamespaceTables.removeReplica at hr
  split_ifs at hr
  cases hr
  refine ⟨fun ns' c hns => ?_, fun ns' hns => ?_, fun ns' => ?_⟩
  · by_cases e : ns' = ns
    · subst e
      simp at hns
    · simp only [Function.update_of_ne e] at hns
      exact h.id_eq ns' c hns
  · by_cases e : ns' = ns
    · subst e
      simp
    · simp only [Function.update_of_ne e] at hns ⊢
      exact h.peers_of_none ns' hns
  · by_cases e : ns' = ns
    · subst e
      exact bounded_of_keys_nil (by simp)
    · simp only [Function.update_of_ne e]
      exact h.bounded ns'

theorem Inv.registerUsefulPeer {t t' : NamespaceTables P} (h : t.Inv) {ns : NamespaceId}
    {peer : P} {nanos : Nat} (hr : t.registerUsefulPeer ns peer nanos = .ok t') : t'.Inv := by
  have hns := namespaces_of_registerUsefulPeer hr
  refine ⟨hns ▸ h.id_eq, fun ns' hnone => ?_, fun ns' => ?_⟩
  · -- only a stored namespace gets peers
    have e : ns' ≠ ns := by
      rintro rfl
      have := (eq_of_registerUsefulPeer hr).1
      simp [← hns, hnone] at this
    rw [namespacePeers_of_registerUsefulPeer hr, if_neg e]
    exact h.peers_of_none ns' (hns ▸ hnone)
  · rw [namespacePeers_of_registerUsefulPeer hr]
    split_ifs
    · exact (h.bounded ns).updatePeers peer nanos
    · exact h.bounded ns'

theorem Inv.apply {t : NamespaceTables P} (h : t.Inv) (op : Op P) : (t.apply op).Inv := by
  cases op with
  | importNamespace capability =>
    simp only [NamespaceTables.apply]
    split
    · exact h.importNamespace (by assumption)
    · exact h
  | removeReplica openReplicas ns =>
    simp only [NamespaceTables.apply]
    split
    · exact h.removeReplica (by assumption)
    · exact h
  | registerUsefulPeer ns peer nanos =>
    simp only [NamespaceTables.apply]
    split
    · exact h.registerUsefulPeer (by assumption)
    · exact h

/-- **Any run of the tables**, whatever the clock reads: every namespace's peers hold at
most one value per peer and at most `PEERS_PER_DOC_CACHE_SIZE` values, and a namespace
that is not stored has none. -/
theorem inv_run (ops : List (Op P)) : (ops.foldl apply empty).Inv := by
  suffices ∀ t : NamespaceTables P, t.Inv → (ops.foldl apply t).Inv from this _ Inv.empty
  induction ops with
  | nil => exact fun _ h => h
  | cons op ops ih => exact fun t h => ih _ (h.apply op)

/-! ### Registrations at increasing clock readings -/

/-- Registrations in a stored namespace all succeed, and when each clock reading is later
than the ones before, the peers from the newest are the cache after each peer is used in
turn. -/
theorem foldlM_registerUsefulPeer {t : NamespaceTables P} {ns : NamespaceId}
    (hcreated : (t.namespaces ns).isSome) (calls : List (P × Nat))
    (hb : (t.namespacePeers ns).Bounded) (hbefore : ∀ c ∈ calls, (t.namespacePeers ns).Before c.2)
    (hclock : (calls.map Prod.snd).Pairwise (· < ·)) :
    ∃ t', calls.foldlM (fun t c => t.registerUsefulPeer ns c.1 c.2) t = .ok t' ∧
      (t'.namespacePeers ns).peers.reverse =
        (calls.map Prod.fst).foldl (Lru.touch PEERS_PER_DOC_CACHE_SIZE)
          (t.namespacePeers ns).peers.reverse ∧
      (t'.namespacePeers ns).Bounded := by
  induction calls generalizing t with
  | nil => exact ⟨t, rfl, rfl, hb⟩
  | cons c calls ih =>
    rw [List.map_cons, List.pairwise_cons] at hclock
    obtain ⟨t₁, hreg⟩ : ∃ t₁, t.registerUsefulPeer ns c.1 c.2 = .ok t₁ :=
      ⟨_, registerUsefulPeer_of_isSome hcreated c.1 c.2⟩
    have hpeers : t₁.namespacePeers ns = (t.namespacePeers ns).updatePeers c.1 c.2 := by
      rw [namespacePeers_of_registerUsefulPeer hreg, if_pos rfl]
    have hbefore₁ : ∀ c' ∈ calls, (t₁.namespacePeers ns).Before c'.2 := fun c' hc' =>
      hpeers ▸ Before.updatePeers hb.nodup (hbefore c' (List.mem_cons_of_mem _ hc'))
        (hclock.1 _ (List.mem_map_of_mem hc')) c.1
    obtain ⟨t', hrun, hcache, hb'⟩ := ih (namespaces_of_registerUsefulPeer hreg ▸ hcreated)
      (hpeers ▸ hb.updatePeers c.1 c.2) hbefore₁ hclock.2
    refine ⟨t', ?_, ?_, hb'⟩
    · rw [List.foldlM_cons, hreg]
      exact hrun
    · rw [hcache, hpeers, peers_updatePeers hb (hbefore c List.mem_cons_self), List.map_cons,
        List.foldl_cons]

theorem sync_peers_latest_first (t : NamespaceTables P) (ns : NamespaceId) (calls : List (P × Nat))
    (hcreated : (t.namespaces ns).isSome) (hfresh : (t.namespacePeers ns).keys = [])
    (hclock : (calls.map Prod.snd).Pairwise (· < ·)) :
    ∃ t', calls.foldlM (fun t c => t.registerUsefulPeer ns c.1 c.2) t = .ok t' ∧
      t'.getSyncPeers ns =
        (if calls = [] then none
          else some ((Lru.latestFirst (calls.map Prod.fst)).take PEERS_PER_DOC_CACHE_SIZE)) ∧
      (t'.namespacePeers ns).peers.Nodup ∧
      (t'.namespacePeers ns).keys.length ≤ PEERS_PER_DOC_CACHE_SIZE := by
  obtain ⟨t', hrun, hcache, hb'⟩ := foldlM_registerUsefulPeer hcreated calls
    (bounded_of_keys_nil hfresh) (fun _ _ k hk => by simp [hfresh] at hk) hclock
  have hlatest : (t'.namespacePeers ns).peers.reverse =
      (Lru.latestFirst (calls.map Prod.fst)).take PEERS_PER_DOC_CACHE_SIZE := by
    rw [hcache, peers, hfresh, List.map_nil, List.reverse_nil, Lru.foldl_touch]
  have hnil : (t'.namespacePeers ns).keys = [] ↔ calls = [] := by
    have hpos : 0 < PEERS_PER_DOC_CACHE_SIZE := by decide
    calc (t'.namespacePeers ns).keys = [] ↔ (t'.namespacePeers ns).peers.reverse = [] := by
          simp [peers]
      _ ↔ calls.map Prod.fst = [] := by rw [hlatest, Lru.take_latestFirst_eq_nil hpos]
      _ ↔ calls = [] := List.map_eq_nil_iff
  refine ⟨t', hrun, ?_, hb'.nodup, hb'.length_le⟩
  rw [getSyncPeers_eq, hlatest]
  by_cases hc : calls = []
  · rw [if_pos (hnil.mpr hc), if_pos hc]
  · rw [if_neg (mt hnil.mp hc), if_neg hc]

theorem sync_peers_latest_first_reregistered :
    let t : NamespaceTables Nat := ⟨fun _ => some (.write 0), fun _ => BTreeMap.empty⟩
    let calls : List (Nat × Nat) := [(1, 10), (2, 20), (1, 30)]
    ((t.namespaces 0).isSome ∧ (t.namespacePeers 0).keys = [] ∧
        (calls.map Prod.snd).Pairwise (· < ·)) ∧
      ∃ t', calls.foldlM (fun t c => t.registerUsefulPeer 0 c.1 c.2) t = .ok t' ∧
        t'.getSyncPeers 0 =
          (if calls = [] then none
            else some ((Lru.latestFirst (calls.map Prod.fst)).take PEERS_PER_DOC_CACHE_SIZE)) ∧
        (t'.namespacePeers 0).peers.Nodup ∧
        (t'.namespacePeers 0).keys.length ≤ PEERS_PER_DOC_CACHE_SIZE :=
  ⟨⟨rfl, rfl, by decide⟩, sync_peers_latest_first _ 0 _ rfl rfl (by decide)⟩

/- Six peers evict the first; the first registered again evicts the second. -/
example :
    let t : NamespaceTables Nat := ⟨fun _ => some (.write 0), fun _ => BTreeMap.empty⟩
    let calls : List (Nat × Nat) := [(1, 1), (2, 2), (3, 3), (4, 4), (5, 5), (6, 6), (1, 7)]
    ((calls.foldlM (fun (t : NamespaceTables Nat) c => t.registerUsefulPeer 0 c.1 c.2) t).toOption.map
      fun t : NamespaceTables Nat => t.getSyncPeers 0) = some (some [1, 6, 5, 4, 3]) := by
  decide


end NamespaceTables

end Store

end Iroh.Docs
