import Iroh.Lib.BTreeMap
import Iroh.Gossip.Util

/-! `TimerMap` and `TimeBoundCache` (`proto/util.rs`) as the code keeps them.

A `TimeBoundCache` holds its entries twice: a map from each key to its expiry and value,
and a `TimerMap` from each instant to the keys that expire then. `insert` first removes
the key, and so its old slot in the timer map; `TimerMap::remove` leaves an empty list
behind; `expire_until(t)` drains the timer map up to `t` by splitting it at `t + 1` and
removes each drained key from the map. An `Instant` is a count of nanoseconds, so
splitting at `t + 1` keeps the instants after `t`.

`Consistent` says that the two agree: each key of the map is in the timer map once, at
its expiry, and nothing else is. Every operation keeps it (`Consistent.insert`,
`Consistent.remove`, `Consistent.expireUntil`), and from a consistent cache
`expire_until` removes exactly the keys that are due, leaves the others as they were,
and returns how many it removed. -/

namespace Iroh.Gossip.Util

/-- `TimerMap<T>`, a `BTreeMap<Instant, Vec<T>>`. -/
structure TimerMap (T : Type) where
  map : BTreeMap Nat (List T)

namespace TimerMap

variable {T : Type}

/-- `TimerMap::new`. -/
def new : TimerMap T := ⟨BTreeMap.empty⟩

/-- `TimerMap::insert`: push the item on the list of its instant. -/
def insert (t : TimerMap T) (instant : Nat) (item : T) : TimerMap T :=
  ⟨t.map.alter instant fun entry => entry.getD [] ++ [item]⟩

/-- `TimerMap::remove`: drop the item from the list of its instant, if there is one. -/
def remove [DecidableEq T] (t : TimerMap T) (instant : Nat) (item : T) : TimerMap T :=
  ⟨t.map.update instant fun items => items.filter (· != item)⟩

/-- `TimerMap::drain_until`: the items of the instants up to `upTo`, and the timer map
that is left. -/
def drainUntil (t : TimerMap T) (upTo : Nat) : List (Nat × T) × TimerMap T :=
  let splitPoint := upTo + 1
  let parts := t.map.splitOff splitPoint
  (parts.1.flatten, ⟨parts.2⟩)

/-- `TimerMap::iter`. -/
def iter (t : TimerMap T) : List (Nat × T) := t.map.flatten

/-! ### What the timer map holds at an instant -/

theorem get_insert (t : TimerMap T) (instant i : Nat) (item : T) :
    (t.insert instant item).map.get i =
      if i = instant then some ((t.map.get instant).getD [] ++ [item]) else t.map.get i :=
  BTreeMap.get_alter _ _ _ _

theorem get_remove [DecidableEq T] (t : TimerMap T) (instant i : Nat) (item : T) :
    (t.remove instant item).map.get i =
      if i = instant then (t.map.get instant).map (·.filter (· != item)) else t.map.get i :=
  BTreeMap.get_update _ _ _ _

theorem count_filter_ne [DecidableEq T] (l : List T) (item x : T) :
    (l.filter (· != item)).count x = if x = item then 0 else l.count x := by
  by_cases e : x = item
  · subst e
    simp [List.count_eq_zero]
  · rw [if_neg e, List.count_filter (by simpa using e)]

/-- Inserting an item counts it once more at its instant only. -/
theorem count_insert [DecidableEq T] (t : TimerMap T) (instant i : Nat) (item x : T) :
    (((t.insert instant item).map.get i).getD []).count x =
      ((t.map.get i).getD []).count x + if i = instant ∧ x = item then 1 else 0 := by
  rw [get_insert]
  by_cases hi : i = instant
  · subst hi
    rw [if_pos rfl, Option.getD_some, List.count_append, List.count_singleton]
    by_cases hx : x = item
    · simp [hx]
    · simp [hx, Ne.symm hx]
  · simp [hi]

/-- Removing an item from its instant counts it out of that instant only. -/
theorem count_remove [DecidableEq T] (t : TimerMap T) (instant i : Nat) (item x : T) :
    (((t.remove instant item).map.get i).getD []).count x =
      if i = instant ∧ x = item then 0 else ((t.map.get i).getD []).count x := by
  rw [get_remove]
  by_cases hi : i = instant
  · subst hi
    cases t.map.get i with
    | none => simp
    | some items =>
      rw [if_pos rfl, Option.map_some, Option.getD_some, count_filter_ne, Option.getD_some]
      simp
  · simp [hi]

theorem get_drainUntil (t : TimerMap T) (upTo i : Nat) :
    (t.drainUntil upTo).2.map.get i = if i ≤ upTo then none else t.map.get i := by
  simp only [drainUntil, BTreeMap.get_splitOff_snd, Nat.lt_succ_iff]

theorem count_iter [DecidableEq T] (t : TimerMap T) (i : Nat) (item : T) :
    t.iter.count (i, item) = ((t.map.get i).getD []).count item :=
  BTreeMap.count_flatten _ _ _

theorem count_drainUntil [DecidableEq T] (t : TimerMap T) (upTo i : Nat) (item : T) :
    (t.drainUntil upTo).1.count (i, item) =
      if i ≤ upTo then ((t.map.get i).getD []).count item else 0 := by
  simp only [drainUntil, BTreeMap.count_flatten, BTreeMap.get_splitOff_fst, Nat.lt_succ_iff]
  split_ifs <;> rfl

end TimerMap

/-- `TimeBoundCache<K, V>`: a `HashMap<K, (Instant, V)>` and the `TimerMap` of its keys. -/
structure TimeBoundCache (K V : Type) where
  map : AList fun _ : K => Nat × V
  expiry : TimerMap K

namespace TimeBoundCache

variable {K V : Type} [DecidableEq K]

/-- `TimeBoundCache::default`. -/
def default : TimeBoundCache K V := ⟨∅, .new⟩

/-- `TimeBoundCache::remove`, with the value it removed. -/
def remove (c : TimeBoundCache K V) (key : K) : TimeBoundCache K V × Option V :=
  match c.map.lookup key with
  | some (expires, value) => (⟨c.map.erase key, c.expiry.remove expires key⟩, some value)
  | none => (c, none)

/-- `TimeBoundCache::insert`. -/
def insert (c : TimeBoundCache K V) (key : K) (value : V) (expires : Nat) : TimeBoundCache K V :=
  let c := (c.remove key).1
  ⟨c.map.insert key (expires, value), c.expiry.insert expires key⟩

/-- `TimeBoundCache::contains_key`. -/
def containsKey (c : TimeBoundCache K V) (key : K) : Bool := (c.map.lookup key).isSome

/-- `TimeBoundCache::len`. -/
def len (c : TimeBoundCache K V) : Nat := c.map.entries.length

/-- `TimeBoundCache::get`. -/
def get (c : TimeBoundCache K V) (key : K) : Option V := (c.map.lookup key).map (·.2)

/-- `TimeBoundCache::expires`. -/
def expires (c : TimeBoundCache K V) (key : K) : Option Nat := (c.map.lookup key).map (·.1)

/-- `TimeBoundCache::expire_until`, with the number of items it removed. -/
def expireUntil (c : TimeBoundCache K V) (instant : Nat) : TimeBoundCache K V × Nat :=
  let drained := c.expiry.drainUntil instant
  let removed := drained.1.foldl (fun acc item => (acc.1.erase item.2, acc.2 + 1)) (c.map, 0)
  (⟨removed.1, drained.2⟩, removed.2)

/-- The operations that change a cache. -/
inductive Op (K V : Type) where
  | insert (key : K) (value : V) (expires : Nat)
  | remove (key : K)
  | expireUntil (instant : Nat)

/-- One operation. -/
def apply (c : TimeBoundCache K V) : Op K V → TimeBoundCache K V
  | .insert key value expires => c.insert key value expires
  | .remove key => (c.remove key).1
  | .expireUntil instant => (c.expireUntil instant).1

/-- The cache after a sequence of operations on the default one. -/
def run (ops : List (Op K V)) : TimeBoundCache K V := ops.foldl apply default

/-! ### The map after each operation -/

theorem lookup_remove (c : TimeBoundCache K V) (key k : K) :
    (c.remove key).1.map.lookup k = if k = key then none else c.map.lookup k := by
  unfold remove
  cases hl : c.map.lookup key with
  | none =>
    by_cases e : k = key
    · subst e
      simp [hl]
    · simp [e]
  | some ev =>
    by_cases e : k = key
    · subst e
      simp [AList.lookup_erase]
    · simp [AList.lookup_erase_ne e, e]

theorem lookup_insert (c : TimeBoundCache K V) (key k : K) (value : V) (expires : Nat) :
    (c.insert key value expires).map.lookup k = if k = key then some (expires, value)
      else c.map.lookup k := by
  by_cases e : k = key
  · subst e
    simp [insert, AList.lookup_insert]
  · simp [insert, AList.lookup_insert_ne e, lookup_remove, e]

/-- The loop of `expire_until` removes every drained key from the map. -/
theorem lookup_foldl_erase (l : List (Nat × K)) (m : AList fun _ : K => Nat × V) (n : Nat) (k : K) :
    (l.foldl (fun acc item => (acc.1.erase item.2, acc.2 + 1)) (m, n)).1.lookup k =
      if k ∈ l.map Prod.snd then none else m.lookup k := by
  induction l generalizing m n with
  | nil => simp
  | cons item l ih =>
    rw [List.foldl_cons, ih]
    by_cases e : k = item.2
    · subst e
      simp [AList.lookup_erase]
    · simp only [List.map_cons, List.mem_cons, e, false_or, AList.lookup_erase_ne e]

/-- The loop of `expire_until` counts the drained items. -/
theorem snd_foldl_erase (l : List (Nat × K)) (m : AList fun _ : K => Nat × V) (n : Nat) :
    (l.foldl (fun acc item => (acc.1.erase item.2, acc.2 + 1)) (m, n)).2 = n + l.length := by
  induction l generalizing m n with
  | nil => rfl
  | cons item l ih =>
    rw [List.foldl_cons, ih, List.length_cons]
    omega

/-! ### Consistency -/

/-- The map and the timer map agree: each key of the map is in the timer map once, at its
expiry instant, and nothing else is in it. -/
def Consistent (c : TimeBoundCache K V) : Prop :=
  ∀ instant key, c.expiry.iter.count (instant, key) = if c.expires key = some instant then 1 else 0

theorem consistent_iff (c : TimeBoundCache K V) :
    c.Consistent ↔ ∀ instant key,
      ((c.expiry.map.get instant).getD []).count key = if c.expires key = some instant then 1 else 0 := by
  simp only [Consistent, TimerMap.count_iter]

theorem Consistent.default : (default : TimeBoundCache K V).Consistent := by
  rw [consistent_iff]
  intro instant key
  simp [TimeBoundCache.default, TimerMap.new, expires, AList.lookup_empty]

/-- Removing an item from a list counts it out. -/
theorem Consistent.remove {c : TimeBoundCache K V} (hc : c.Consistent) (key : K) :
    (c.remove key).1.Consistent := by
  rw [consistent_iff] at hc ⊢
  intro i k
  have hexp : (c.remove key).1.expires k = if k = key then none else c.expires k := by
    simp only [expires, lookup_remove]
    split_ifs <;> rfl
  rw [hexp]
  cases hl : c.map.lookup key with
  | none =>
    have hrem : (c.remove key).1 = c := by simp [TimeBoundCache.remove, hl]
    rw [hrem]
    by_cases e : k = key
    · subst e
      simpa [expires, hl] using hc i k
    · simpa [e] using hc i k
  | some ev =>
    obtain ⟨e, v⟩ := ev
    have hrem : (c.remove key).1.expiry = c.expiry.remove e key := by
      simp [TimeBoundCache.remove, hl]
    rw [hrem, TimerMap.count_remove]
    by_cases hk : k = key
    · subst hk
      have hold := hc i k
      simp only [expires, hl, Option.map_some, Option.some.injEq] at hold
      by_cases hi : i = e
      · simp [hi]
      · simp [hi, Ne.symm hi, hold]
    · simp [hk, hc i k]

theorem Consistent.insert {c : TimeBoundCache K V} (hc : c.Consistent) (key : K) (value : V)
    (expires : Nat) : (c.insert key value expires).Consistent := by
  have hc₁ := (hc.remove key)
  rw [consistent_iff] at hc₁ ⊢
  have hgone : ∀ i, (((c.remove key).1.expiry.map.get i).getD []).count key = 0 := by
    intro i
    rw [hc₁ i key]
    simp [TimeBoundCache.expires, lookup_remove]
  intro i k
  have hexp : (c.insert key value expires).expires k =
      if k = key then some expires else (c.remove key).1.expires k := by
    simp only [TimeBoundCache.expires, lookup_insert, lookup_remove]
    split_ifs <;> simp_all
  rw [hexp, TimeBoundCache.insert, TimerMap.count_insert]
  by_cases hk : k = key
  · subst hk
    by_cases hi : i = expires
    · simp [hgone, hi]
    · simp [hgone, hi, Ne.symm hi]
  · simp [hk, hc₁ i k]

/-- Whether a key is due at `instant`: its expiry is not after it. -/
def Due (c : TimeBoundCache K V) (instant : Nat) (key : K) : Bool := (c.expires key).any (· ≤ instant)

section ExpireUntil

variable {c : TimeBoundCache K V} {instant : Nat}

/-- In a consistent cache, `drain_until` gives each due key once, at its expiry. -/
theorem Consistent.mem_drainUntil (hc : c.Consistent) {i : Nat} {k : K} :
    (i, k) ∈ (c.expiry.drainUntil instant).1 ↔ i ≤ instant ∧ c.expires k = some i := by
  rw [← List.count_pos_iff, TimerMap.count_drainUntil, (consistent_iff c).mp hc i k]
  split_ifs <;> simp_all

theorem Consistent.mem_drainUntil_keys (hc : c.Consistent) (k : K) :
    k ∈ (c.expiry.drainUntil instant).1.map Prod.snd ↔ c.Due instant k = true := by
  simp only [List.mem_map, Due, Option.any_eq_true, decide_eq_true_eq]
  constructor
  · rintro ⟨⟨i, k'⟩, hm, rfl⟩
    obtain ⟨hi, he⟩ := hc.mem_drainUntil.mp hm
    exact ⟨i, he, hi⟩
  · rintro ⟨i, he, hi⟩
    exact ⟨(i, k), hc.mem_drainUntil.mpr ⟨hi, he⟩, rfl⟩

/-- `expire_until` removes the due keys from the map and keeps the others. -/
theorem Consistent.lookup_expireUntil (hc : c.Consistent) (k : K) :
    (c.expireUntil instant).1.map.lookup k = if c.Due instant k = true then none else c.map.lookup k := by
  have h := lookup_foldl_erase (c.expiry.drainUntil instant).1 c.map 0 k
  simp only [hc.mem_drainUntil_keys] at h
  exact h

theorem Consistent.expireUntil (hc : c.Consistent) : (c.expireUntil instant).1.Consistent := by
  rw [consistent_iff]
  intro i k
  have hexp : (c.expireUntil instant).1.expires k =
      if c.Due instant k = true then none else c.expires k := by
    simp only [TimeBoundCache.expires, hc.lookup_expireUntil]
    split_ifs <;> rfl
  rw [hexp]
  show (((c.expiry.drainUntil instant).2.map.get i).getD []).count k = _
  have hold := (consistent_iff c).mp hc i k
  rw [TimerMap.get_drainUntil]
  by_cases hi : i ≤ instant
  · -- the drained instants are gone, and so is every key that expired at one of them
    rw [if_pos hi]
    by_cases hd : c.Due instant k = true
    · simp [hd]
    · have hne : c.expires k ≠ some i := fun he =>
        hd ((hc.mem_drainUntil_keys k).mp (List.mem_map.mpr ⟨(i, k), hc.mem_drainUntil.mpr ⟨hi, he⟩, rfl⟩))
      simp [hd, hne]
  · rw [if_neg hi]
    by_cases hd : c.Due instant k = true
    · obtain ⟨j, he, hj⟩ := (Option.any_eq_true _ _).mp hd
      have hne : c.expires k ≠ some i := by
        rw [he]
        intro hji
        simp only [Option.some.injEq] at hji
        simp only [decide_eq_true_eq] at hj
        omega
      rw [hold, if_neg hne, if_pos hd]
      simp
    · rw [hold, if_neg hd]

theorem Consistent.count_expireUntil (hc : c.Consistent) :
    (c.expireUntil instant).2 = (c.map.keys.filter (c.Due instant)).length := by
  have hlen : (c.expireUntil instant).2 = (c.expiry.drainUntil instant).1.length := by
    show ((c.expiry.drainUntil instant).1.foldl (fun acc item => (acc.1.erase item.2, acc.2 + 1))
      (c.map, 0)).2 = _
    rw [snd_foldl_erase, Nat.zero_add]
  rw [hlen, ← List.length_map (f := Prod.snd)]
  apply List.Perm.length_eq
  have hnodup : (c.expiry.drainUntil instant).1.Nodup := by
    rw [List.nodup_iff_count_le_one]
    intro x
    rw [TimerMap.count_drainUntil, (consistent_iff c).mp hc]
    split_ifs <;> omega
  have hmap : ((c.expiry.drainUntil instant).1.map Prod.snd).Nodup := by
    refine hnodup.map_on fun x hx y hy hxy => ?_
    obtain ⟨-, hex⟩ := hc.mem_drainUntil.mp (show (x.1, x.2) ∈ _ from hx)
    obtain ⟨-, hey⟩ := hc.mem_drainUntil.mp (show (y.1, y.2) ∈ _ from hy)
    rw [hxy, hey, Option.some.injEq] at hex
    exact Prod.ext hex.symm hxy
  rw [List.perm_ext_iff_of_nodup hmap ((AList.keys_nodup _).filter _)]
  intro k
  simp only [List.mem_map, List.mem_filter]
  constructor
  · rintro ⟨⟨i, k'⟩, hm, rfl⟩
    have hd := (hc.mem_drainUntil_keys k').mp (List.mem_map.mpr ⟨(i, k'), hm, rfl⟩)
    refine ⟨?_, hd⟩
    obtain ⟨j, he, -⟩ := (Option.any_eq_true _ _).mp hd
    apply AList.mem_keys.mpr
    apply AList.lookup_isSome.mp
    simpa [TimeBoundCache.expires] using congrArg Option.isSome he
  · rintro ⟨-, hd⟩
    exact List.mem_map.mp ((hc.mem_drainUntil_keys k).mpr hd)

/-- `expire_until` removes exactly the due keys. -/
theorem Consistent.containsKey_expireUntil (hc : c.Consistent) (k : K) :
    (c.expireUntil instant).1.containsKey k = (c.containsKey k && !c.Due instant k) := by
  simp only [containsKey, hc.lookup_expireUntil]
  cases c.Due instant k <;> simp

/-- A key that is not due keeps its value and its expiry. -/
theorem Consistent.get_expireUntil (hc : c.Consistent) {k : K} (hd : c.Due instant k = false) :
    (c.expireUntil instant).1.get k = c.get k ∧ (c.expireUntil instant).1.expires k = c.expires k := by
  simp [get, expires, hc.lookup_expireUntil, hd]

end ExpireUntil

/-- Every operation keeps the map and the timer map in agreement. -/
theorem Consistent.apply {c : TimeBoundCache K V} (hc : c.Consistent) :
    ∀ op : Op K V, (c.apply op).Consistent
  | .insert key value expires => hc.insert key value expires
  | .remove key => hc.remove key
  | .expireUntil _ => hc.expireUntil

theorem Consistent.foldl {c : TimeBoundCache K V} (hc : c.Consistent) (ops : List (Op K V)) :
    (ops.foldl TimeBoundCache.apply c).Consistent := by
  induction ops generalizing c with
  | nil => exact hc
  | cons op ops ih => exact ih (hc.apply op)

theorem Consistent.run (ops : List (Op K V)) : (run ops).Consistent :=
  Consistent.default.foldl ops

/-- Along any sequence of operations the map and the timer map agree, and `expire_until`
then removes exactly the due keys, keeps the value and expiry of every other key, and
returns the number of keys it removed. -/
theorem time_bound_cache_consistent (ops : List (Op K V)) (instant : Nat) :
    (run ops).Consistent ∧
      (∀ key, ((run ops).expireUntil instant).1.containsKey key =
        ((run ops).containsKey key && !(run ops).Due instant key)) ∧
      (∀ key, (run ops).Due instant key = false →
        ((run ops).expireUntil instant).1.get key = (run ops).get key ∧
          ((run ops).expireUntil instant).1.expires key = (run ops).expires key) ∧
      ((run ops).expireUntil instant).2 = ((run ops).map.keys.filter ((run ops).Due instant)).length := by
  have hc := Consistent.run ops
  exact ⟨hc, hc.containsKey_expireUntil, fun _ hd => hc.get_expireUntil hd, hc.count_expireUntil⟩

/-- The `time_bound_cache` test of `util.rs`, with instants `t0 = 0`, `t1 = 1`, `t2 = 2`. -/
example :
    let c := run ([.insert 1 10 0, .insert 2 20 1, .insert 3 30 1, .insert 4 40 2] : List (Op Nat Nat))
    (c.expireUntil 1).2 = 3 ∧ (c.expireUntil 1).1.get 2 = none ∧ (c.expireUntil 1).1.get 4 = some 40 := by
  decide

end TimeBoundCache

end Iroh.Gossip.Util

namespace Iroh.Gossip.TimeBoundCache

variable {K V : Type} [DecidableEq K]

/-! ### The first entry of a key in the gossip model's cache -/

theorem find?_remove (a : TimeBoundCache K V) (key k : K) :
    (a.remove key).entries.find? (·.1 = k) = if k = key then none else a.entries.find? (·.1 = k) := by
  rw [remove, List.find?_filter]
  by_cases e : k = key
  · subst e
    rw [if_pos rfl, List.find?_eq_none]
    intro x _
    by_cases hx : x.1 = k <;> simp [hx]
  · rw [if_neg e]
    congr 1
    funext x
    by_cases hx : x.1 = k
    · simp [hx, e]
    · simp [hx]

theorem find?_insert (a : TimeBoundCache K V) (key k : K) (value : V) (expires : Nat) :
    (a.insert key value expires).entries.find? (·.1 = k) =
      if k = key then some (key, expires, value) else a.entries.find? (·.1 = k) := by
  rw [insert, List.find?_append, find?_remove]
  by_cases e : k = key
  · subst e
    simp
  · simp [e, Ne.symm e]

theorem find?_eq_none_of_not_mem {l : List (K × Nat × V)} {k : K} (h : k ∉ l.map (·.1)) :
    l.find? (·.1 = k) = none :=
  List.find?_eq_none.mpr fun x hx hk => h (List.mem_map.mpr ⟨x, hx, by simpa using hk⟩)

/-- With one entry per key, dropping the due entries drops a key's entry exactly when it
is due. -/
theorem find?_filter_expiry {l : List (K × Nat × V)} (hnd : (l.map (·.1)).Nodup) (instant : Nat)
    (k : K) : (l.filter (instant < ·.2.1)).find? (·.1 = k) =
      (l.find? (·.1 = k)).filter (instant < ·.2.1) := by
  induction l with
  | nil => rfl
  | cons x l ih =>
    rw [List.map_cons, List.nodup_cons] at hnd
    by_cases hx : x.1 = k
    · have hrest : (l.filter (instant < ·.2.1)).find? (·.1 = k) = none :=
        find?_eq_none_of_not_mem fun hm => hnd.1 (hx ▸ (List.filter_sublist.map _).subset hm)
      rw [List.find?_cons_of_pos (by simpa using hx), Option.filter_some, List.filter_cons]
      by_cases hkeep : instant < x.2.1
      · rw [if_pos (by simpa using hkeep), if_pos (by simpa using hkeep),
          List.find?_cons_of_pos (by simpa using hx)]
      · rw [if_neg (by simpa using hkeep), if_neg (by simpa using hkeep)]
        exact hrest
    · rw [List.find?_cons_of_neg (by simpa using hx), List.filter_cons, ← ih hnd.2]
      split_ifs
      · rw [List.find?_cons_of_neg (by simpa using hx)]
      · rfl

theorem find?_expireUntil {a : TimeBoundCache K V} (hnd : (a.entries.map (·.1)).Nodup)
    (instant : Nat) (k : K) :
    (a.expireUntil instant).entries.find? (·.1 = k) =
      (a.entries.find? (·.1 = k)).filter (instant < ·.2.1) :=
  find?_filter_expiry hnd instant k

theorem nodup_remove {a : TimeBoundCache K V} (hnd : (a.entries.map (·.1)).Nodup) (key : K) :
    ((a.remove key).entries.map (·.1)).Nodup :=
  hnd.sublist (List.filter_sublist.map _)

theorem nodup_insert {a : TimeBoundCache K V} (hnd : (a.entries.map (·.1)).Nodup) (key : K)
    (value : V) (expires : Nat) : ((a.insert key value expires).entries.map (·.1)).Nodup := by
  rw [insert, List.map_append, List.map_singleton, List.nodup_append]
  refine ⟨nodup_remove hnd key, List.nodup_singleton _, ?_⟩
  intro x hx y hy hxy
  rw [List.mem_singleton.mp hy] at hxy
  obtain ⟨e, he, rfl⟩ := List.mem_map.mp hx
  exact (by simpa using (List.mem_filter.mp he).2 : e.1 ≠ key) hxy

omit [DecidableEq K] in
theorem nodup_expireUntil {a : TimeBoundCache K V} (hnd : (a.entries.map (·.1)).Nodup)
    (instant : Nat) : ((a.expireUntil instant).entries.map (·.1)).Nodup :=
  hnd.sublist (List.filter_sublist.map _)

end Iroh.Gossip.TimeBoundCache

namespace Iroh.Gossip.Util.TimeBoundCache

/-! ### The gossip model's cache

The gossip model keeps a cache as its list of entries and drops at `expire_until` the
entries that are due (`Iroh.Gossip.TimeBoundCache`). On the same operations the cache
as the code keeps it gives every key the same expiry and value (`Refines`), so the two
agree on `get` and `contains_key` after every run (`refines_run`). -/

variable {K V : Type} [DecidableEq K]

/-- An operation on the gossip model's cache. -/
def applyModel (a : Gossip.TimeBoundCache K V) : Op K V → Gossip.TimeBoundCache K V
  | .insert key value expires => a.insert key value expires
  | .remove key => a.remove key
  | .expireUntil instant => a.expireUntil instant

/-- The cache and the gossip model's give each key the same expiry and value. -/
structure Refines (c : TimeBoundCache K V) (a : Gossip.TimeBoundCache K V) : Prop where
  consistent : c.Consistent
  nodup : (a.entries.map (·.1)).Nodup
  lookup : ∀ k, c.map.lookup k = (a.entries.find? (·.1 = k)).map (·.2)

theorem Refines.default : Refines (TimeBoundCache.default : TimeBoundCache K V) Gossip.TimeBoundCache.empty :=
  ⟨Consistent.default, List.nodup_nil,
    fun _ => by simp [TimeBoundCache.default, Gossip.TimeBoundCache.empty]⟩

theorem Refines.apply {c : TimeBoundCache K V} {a : Gossip.TimeBoundCache K V} (h : Refines c a) :
    ∀ op : Op K V, Refines (c.apply op) (applyModel a op)
  | .insert key value expires => by
    refine ⟨h.consistent.insert key value expires,
      Gossip.TimeBoundCache.nodup_insert h.nodup key value expires, fun k => ?_⟩
    rw [TimeBoundCache.apply, applyModel, lookup_insert, Gossip.TimeBoundCache.find?_insert]
    split_ifs
    · rfl
    · exact h.lookup k
  | .remove key => by
    refine ⟨h.consistent.remove key, Gossip.TimeBoundCache.nodup_remove h.nodup key, fun k => ?_⟩
    rw [TimeBoundCache.apply, applyModel, lookup_remove, Gossip.TimeBoundCache.find?_remove]
    split_ifs
    · rfl
    · exact h.lookup k
  | .expireUntil instant => by
    refine ⟨h.consistent.expireUntil, Gossip.TimeBoundCache.nodup_expireUntil h.nodup instant,
      fun k => ?_⟩
    rw [TimeBoundCache.apply, applyModel, h.consistent.lookup_expireUntil,
      Gossip.TimeBoundCache.find?_expireUntil h.nodup]
    simp only [Due, expires, h.lookup k]
    cases a.entries.find? (·.1 = k) with
    | none => simp
    | some x =>
      by_cases hx : x.2.1 ≤ instant
      · simp [hx]
      · simp [hx, Nat.lt_of_not_le hx]
        exact ⟨x.1, rfl⟩

/-- **Refinement.** After any operations, the cache and the gossip model's agree on the
value and the expiry of every key. -/
theorem refines_run (ops : List (Op K V)) :
    Refines (run ops) (ops.foldl applyModel Gossip.TimeBoundCache.empty) := by
  suffices ∀ c a, Refines c a → Refines (ops.foldl TimeBoundCache.apply c) (ops.foldl applyModel a) from
    this _ _ Refines.default
  induction ops with
  | nil => exact fun _ _ h => h
  | cons op ops ih => exact fun c a h => ih _ _ (h.apply op)

end Iroh.Gossip.Util.TimeBoundCache
