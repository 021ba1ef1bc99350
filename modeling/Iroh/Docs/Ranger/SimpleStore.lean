import Iroh.Docs.Ranger.Store

/-! `SimpleStore`, the in-memory store of the `ranger.rs` tests, and the reference
insert `insert_if_larger` the tests compare it with.

The store is a `BTreeMap<K, V>`, here a list of key–value pairs strictly sorted
by key, the sortedness carried as a field. Keys have the test-only
`RangeKey::is_prefix_of`, which is a partial order on every key type the tests
use (strings and byte strings); the class carries those laws. -/
namespace Iroh.Docs.Ranger

/-- `RangeKey`: an ordered key type with `is_prefix_of`. -/
class RangeKey (K : Type) [LinearOrder K] where
  isPrefixOf : K → K → Bool
  prefix_refl : ∀ k, isPrefixOf k k = true
  prefix_trans : ∀ a b c, isPrefixOf a b = true → isPrefixOf b c = true → isPrefixOf a c = true
  prefix_antisymm : ∀ a b, isPrefixOf a b = true → isPrefixOf b a = true → a = b

instance {α : Type} [LinearOrder α] : RangeKey (List α) where
  isPrefixOf a b := a.isPrefixOf b
  prefix_refl k := by simp
  prefix_trans a b c hab hbc := by
    simp only [List.isPrefixOf_iff_prefix] at *
    exact hab.trans hbc
  prefix_antisymm a b hab hba := by
    simp only [List.isPrefixOf_iff_prefix] at *
    exact hab.eq_of_length (le_antisymm hab.length_le hba.length_le)

/-- `SimpleStore<K, V>`: a `BTreeMap`, as its entries in strictly increasing key order. -/
structure SimpleStore (K V : Type) [LinearOrder K] where
  entries : List (K × V)
  sorted : entries.Pairwise fun a b => a.1 < b.1

namespace SimpleStore
variable {K V : Type} [LinearOrder K]

/-- `BTreeMap::insert` on the sorted entries: replace on an equal key. -/
def insertKey (k : K) (v : V) : List (K × V) → List (K × V)
  | [] => [(k, v)]
  | (k', v') :: rest =>
    if k < k' then (k, v) :: (k', v') :: rest
    else if k = k' then (k, v) :: rest
    else (k', v') :: insertKey k v rest

theorem mem_insertKey {k : K} {v : V} {a : K × V} {l : List (K × V)}
    (h : a ∈ insertKey k v l) : a = (k, v) ∨ a ∈ l := by
  induction l with
  | nil => simpa [insertKey] using h
  | cons hd tl ih =>
    obtain ⟨k', v'⟩ := hd
    simp only [insertKey] at h
    split_ifs at h <;> grind

theorem insertKey_sorted (k : K) (v : V) {l : List (K × V)}
    (h : l.Pairwise fun a b => a.1 < b.1) :
    (insertKey k v l).Pairwise fun a b => a.1 < b.1 := by
  induction l with
  | nil => simp [insertKey]
  | cons hd tl ih =>
    obtain ⟨k', v'⟩ := hd
    have htl := List.pairwise_cons.mp h
    simp only [insertKey]
    split_ifs with hlt heq
    · exact List.Pairwise.cons (fun a ha => (List.mem_cons.mp ha).elim
        (fun e => e ▸ hlt) (fun m => hlt.trans (htl.1 a m))) h
    · subst heq
      exact List.Pairwise.cons (fun a ha => htl.1 a ha) htl.2
    · refine List.Pairwise.cons (fun a ha => ?_) (ih htl.2)
      rcases mem_insertKey ha with rfl | m
      · exact lt_of_le_of_ne (not_lt.mp hlt) (Ne.symm heq)
      · exact htl.1 a m

/-- With the list sorted, the pairs after inserting are the new one and the old ones
at other keys. -/
theorem mem_insertKey_iff {k : K} {v : V} {a : K × V} {l : List (K × V)}
    (h : l.Pairwise fun a b => a.1 < b.1) :
    a ∈ insertKey k v l ↔ a = (k, v) ∨ (a ∈ l ∧ a.1 ≠ k) := by
  induction l with
  | nil => simp [insertKey]
  | cons hd tl ih =>
    obtain ⟨k', v'⟩ := hd
    have htl := List.pairwise_cons.mp h
    have hgt : ∀ b ∈ tl, k' < b.1 := htl.1
    have ih := ih htl.2
    simp only [insertKey]
    split_ifs with hlt heq
    · have hne : ∀ b ∈ tl, b.1 ≠ k := fun b hb => ne_of_gt (hlt.trans (hgt b hb))
      simp only [List.mem_cons]
      grind
    · subst heq
      have hne : ∀ b ∈ tl, b.1 ≠ k := fun b hb => ne_of_gt (hgt b hb)
      simp only [List.mem_cons]
      grind
    · simp only [List.mem_cons, ih]
      grind

/-- In a strictly sorted list, two pairs with one key are one pair. -/
theorem eq_of_key_eq {l : List (K × V)} (hs : l.Pairwise fun a b => a.1 < b.1) {a b : K × V}
    (ha : a ∈ l) (hb : b ∈ l) (hk : a.1 = b.1) : a = b := by
  by_contra hne
  have hnd : l.Pairwise fun a b => a.1 ≠ b.1 := hs.imp ne_of_lt
  have : Std.Symm fun a b : K × V => a.1 ≠ b.1 := ⟨fun _ _ h => Ne.symm h⟩
  exact hnd.forall ha hb hne hk

/-- `BTreeMap::get` on the sorted entries. -/
def lookup (l : List (K × V)) (k : K) : Option V := (l.find? fun r => r.1 = k).map Prod.snd

theorem lookup_eq_some {l : List (K × V)} (hs : l.Pairwise fun a b => a.1 < b.1) {k : K} {v : V} :
    lookup l k = some v ↔ (k, v) ∈ l := by
  constructor
  · intro h
    obtain ⟨r, hr, rfl⟩ := Option.map_eq_some_iff.mp h
    have hk : r.1 = k := by simpa using List.find?_some hr
    rw [← hk]
    exact List.mem_of_find?_eq_some hr
  · intro h
    have hsome : (l.find? fun r => decide (r.1 = k)).isSome :=
      List.find?_isSome.mpr ⟨(k, v), h, by simp⟩
    obtain ⟨r, hr⟩ := Option.isSome_iff_exists.mp hsome
    have hk : r.1 = k := by simpa using List.find?_some hr
    have hrv := eq_of_key_eq hs (List.mem_of_find?_eq_some hr) h hk
    simp [lookup, hr, hrv]

theorem lookup_eq_none {l : List (K × V)} {k : K} : lookup l k = none ↔ ∀ v, (k, v) ∉ l := by
  simp only [lookup, Option.map_eq_none_iff, List.find?_eq_none, decide_eq_true_eq]
  exact ⟨fun h v hv => h _ hv rfl, fun h r hr hk => h r.2 (hk ▸ hr)⟩

theorem lookup_insertKey_self {l : List (K × V)} (hs : l.Pairwise fun a b => a.1 < b.1)
    (k : K) (v : V) : lookup (insertKey k v l) k = some v :=
  (lookup_eq_some (insertKey_sorted k v hs)).mpr ((mem_insertKey_iff hs).mpr (.inl rfl))

theorem lookup_insertKey_of_ne {l : List (K × V)} (hs : l.Pairwise fun a b => a.1 < b.1)
    {k k' : K} (v : V) (hne : k' ≠ k) : lookup (insertKey k v l) k' = lookup l k' := by
  cases hg : lookup l k' with
  | none =>
    rw [lookup_eq_none] at hg ⊢
    intro v' hv'
    rcases (mem_insertKey_iff hs).mp hv' with heq | ⟨hm, -⟩
    · exact hne (Prod.ext_iff.mp heq).1
    · exact hg v' hm
  | some v' =>
    rw [lookup_eq_some hs] at hg
    rw [lookup_eq_some (insertKey_sorted k v hs)]
    exact (mem_insertKey_iff hs).mpr (.inr ⟨hg, hne⟩)

theorem length_insertKey_le (k : K) (v : V) (l : List (K × V)) :
    (insertKey k v l).length ≤ l.length + 1 := by
  induction l with
  | nil => simp [insertKey]
  | cons hd tl ih =>
    simp only [insertKey]
    split_ifs
    · simp
    · simp
    · simpa using ih

/-! Pairs inserted one after another, as a loop of `BTreeMap::insert` over a list. -/

section Fold
variable {β : Type} (f : β → K) (g : β → V)

theorem foldl_insertKey_sorted {m : List (K × V)} (hm : m.Pairwise fun a b => a.1 < b.1) (l : List β) :
    (l.foldl (fun m e => insertKey (f e) (g e) m) m).Pairwise fun a b => a.1 < b.1 := by
  induction l generalizing m with
  | nil => exact hm
  | cons x l ih => exact ih (insertKey_sorted _ _ hm)

theorem length_foldl_insertKey_le (l : List β) (m : List (K × V)) :
    (l.foldl (fun m e => insertKey (f e) (g e) m) m).length ≤ m.length + l.length := by
  induction l generalizing m with
  | nil => simp
  | cons x l ih =>
    have := ih (insertKey (f x) (g x) m)
    have := length_insertKey_le (f x) (g x) m
    simp only [List.foldl_cons, List.length_cons]
    omega

/-- Every pair after the loop was there before or is one of the list's. -/
theorem mem_foldl_insertKey {l : List β} {m : List (K × V)} {a : K × V}
    (h : a ∈ l.foldl (fun m e => insertKey (f e) (g e) m) m) : a ∈ m ∨ ∃ e ∈ l, a = (f e, g e) := by
  induction l generalizing m with
  | nil => exact .inl h
  | cons x l ih =>
    rcases ih h with hm | ⟨e, he, rfl⟩
    · rcases mem_insertKey hm with rfl | hm
      · exact .inr ⟨x, List.mem_cons_self .., rfl⟩
      · exact .inl hm
    · exact .inr ⟨e, List.mem_cons_of_mem _ he, rfl⟩

/-- A pair stays through the loop when every element of the list at its key has its
value. -/
theorem mem_foldl_insertKey_of_agree {l : List β} {m : List (K × V)} (hm : m.Pairwise fun a b => a.1 < b.1)
    {k : K} {v : V} (hkv : (k, v) ∈ m ∨ ∃ e ∈ l, f e = k ∧ g e = v)
    (hagree : ∀ e ∈ l, f e = k → g e = v) :
    (k, v) ∈ l.foldl (fun m e => insertKey (f e) (g e) m) m := by
  induction l generalizing m with
  | nil =>
    rcases hkv with hkv | ⟨e, he, -⟩
    · exact hkv
    · exact absurd he List.not_mem_nil
  | cons x l ih =>
    rw [List.foldl_cons]
    refine ih (insertKey_sorted _ _ hm) ?_ fun e he => hagree e (List.mem_cons_of_mem _ he)
    by_cases hx : f x = k
    · have hv := hagree x (List.mem_cons_self ..) hx
      exact .inl ((mem_insertKey_iff hm).mpr (.inl (by rw [hx, hv])))
    · rcases hkv with hkv | ⟨e, he, hek, hev⟩
      · exact .inl ((mem_insertKey_iff hm).mpr (.inr ⟨hkv, Ne.symm hx⟩))
      · rcases List.mem_cons.mp he with rfl | he
        · exact absurd hek hx
        · exact .inr ⟨e, he, hek, hev⟩

end Fold

def empty : SimpleStore K V := ⟨[], List.Pairwise.nil⟩

/-- `SimpleStore::entry_put`. -/
def entryPut (s : SimpleStore K V) (e : K × V) : SimpleStore K V :=
  ⟨insertKey e.1 e.2 s.entries, insertKey_sorted e.1 e.2 s.sorted⟩

/-- `SimpleStore::get_range`: the map in key order, filtered by the range. -/
def getRange (s : SimpleStore K V) (r : Range K) : List (K × V) :=
  s.entries.filter fun e => r.contains e.1

theorem mem_getRange {s : SimpleStore K V} {r : Range K} {e : K × V} :
    e ∈ s.getRange r ↔ e ∈ s.entries ∧ r.contains e.1 = true := by
  simp [getRange]

theorem getRange_sorted (s : SimpleStore K V) (r : Range K) :
    (s.getRange r).Pairwise fun a b => a.1 < b.1 :=
  s.sorted.filter _

variable [RangeKey K]

/-- `SimpleStore::prefixes_of`: the entries whose key is a prefix of `key`. -/
def prefixesOf (s : SimpleStore K V) (key : K) : List (K × V) :=
  s.entries.filter fun e => RangeKey.isPrefixOf e.1 key

/-- `SimpleStore::remove_prefix_filtered`: `retain` the entries that are not
(below `pre` and chosen by the predicate), and report how many went. -/
def removePrefixFiltered (s : SimpleStore K V) (pre : K) (p : V → Bool) :
    SimpleStore K V × Nat :=
  let kept := s.entries.filter fun e => !(RangeKey.isPrefixOf pre e.1 && p e.2)
  (⟨kept, s.sorted.filter _⟩, s.entries.length - kept.length)

variable [Inhabited K]

/-- `SimpleStore::get_first`: the first key, or the default one. -/
def getFirst (s : SimpleStore K V) : K := (s.entries.head?.map Prod.fst).getD default

/-- `SimpleStore::get_fingerprint`: the XOR of the range's entries onto the empty set's. -/
def getFingerprint (empty : Fingerprint) (h : K × V → Fingerprint) (s : SimpleStore K V)
    (r : Range K) : Fingerprint :=
  (s.getRange r).foldl (fun fp e => fp ^^^ h e) empty

/-- The `Store` implementation of `SimpleStore`. -/
def store (empty : Fingerprint) (h : K × V → Fingerprint) :
    Store (SimpleStore K V) (K × V) K V where
  getFirst := getFirst
  getFingerprint := getFingerprint empty h
  entryPut := entryPut
  getRange := getRange
  prefixesOf := prefixesOf
  removePrefixFiltered := removePrefixFiltered

/-- Entries of the tests: the key and the value of a pair. -/
def entry (h : K × V → Fingerprint) : RangeEntry (K × V) K V := ⟨Prod.fst, Prod.snd, h⟩

end SimpleStore

end Iroh.Docs.Ranger
