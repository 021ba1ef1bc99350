import Mathlib

/-! Ordered maps, as `std::collections::BTreeMap` keeps them: the entries in strictly
increasing key order, which the structure carries as a field.

`alter` sets one key's value from what it held (`entry(k)` and a change of the value),
`update` changes the value of a key that is present (`get_mut`), `splitOff` cuts the
map at a key (`split_off`), and `flatten` lists the items of a map of lists, key by key
(`iter().flat_map`). Each has its `get` lemma, so that proofs about a map never look at
its entries; `count_flatten` counts an item of the flattened map by the list of its key,
which the order of the keys makes exact. -/

/-- A `BTreeMap`, as its entries in strictly increasing key order. -/
structure BTreeMap (κ ν : Type) [LinearOrder κ] where
  entries : List (κ × ν)
  sorted : entries.Pairwise fun a b => a.1 < b.1

namespace BTreeMap

variable {κ ν α : Type} [LinearOrder κ]

theorem sorted_nil : ([] : List (κ × ν)).Pairwise fun a b => a.1 < b.1 := List.Pairwise.nil

/-- The empty map. -/
def empty : BTreeMap κ ν := ⟨[], sorted_nil⟩

/-- The value of a key in a list of pairs. -/
def getList (k : κ) : List (κ × ν) → Option ν
  | [] => none
  | p :: l => if p.1 = k then some p.2 else getList k l

/-- `BTreeMap::get`. -/
def get (m : BTreeMap κ ν) (k : κ) : Option ν := getList k m.entries

/-- Set the value of `k` from the value it had, keeping the order. -/
def alterList (k : κ) (f : Option ν → ν) : List (κ × ν) → List (κ × ν)
  | [] => [(k, f none)]
  | p :: l =>
    if k < p.1 then (k, f none) :: p :: l
    else if k = p.1 then (k, f (some p.2)) :: l
    else p :: alterList k f l

theorem mem_alterList {k : κ} {f : Option ν → ν} {l : List (κ × ν)} {q : κ × ν}
    (h : q ∈ alterList k f l) : q.1 = k ∨ q ∈ l := by
  induction l with
  | nil =>
    simp only [alterList, List.mem_singleton] at h
    exact Or.inl (by rw [h])
  | cons p l ih =>
    simp only [alterList] at h
    split_ifs at h
    · rcases List.mem_cons.mp h with rfl | h
      · exact Or.inl rfl
      · exact Or.inr h
    · rcases List.mem_cons.mp h with rfl | h
      · exact Or.inl rfl
      · exact Or.inr (List.mem_cons_of_mem p h)
    · rcases List.mem_cons.mp h with rfl | h
      · exact Or.inr List.mem_cons_self
      · rcases ih h with h | h
        · exact Or.inl h
        · exact Or.inr (List.mem_cons_of_mem p h)

theorem alterList_sorted (k : κ) (f : Option ν → ν) {l : List (κ × ν)}
    (h : l.Pairwise fun a b => a.1 < b.1) : (alterList k f l).Pairwise fun a b => a.1 < b.1 := by
  induction l with
  | nil => simp [alterList]
  | cons p l ih =>
    rw [List.pairwise_cons] at h
    simp only [alterList]
    split_ifs with hlt heq
    · refine List.Pairwise.cons (fun q hq => ?_) (List.Pairwise.cons h.1 h.2)
      rcases List.mem_cons.mp hq with rfl | hq
      · exact hlt
      · exact lt_trans hlt (h.1 q hq)
    · exact List.Pairwise.cons (fun q hq => heq ▸ h.1 q hq) h.2
    · refine List.Pairwise.cons (fun q hq => ?_) (ih h.2)
      rcases mem_alterList hq with hq | hq
      · rw [hq]
        exact lt_of_le_of_ne (not_lt.mp hlt) (Ne.symm heq)
      · exact h.1 q hq

/-- `entry(k)` with the value set from the one it had. -/
def alter (m : BTreeMap κ ν) (k : κ) (f : Option ν → ν) : BTreeMap κ ν :=
  ⟨alterList k f m.entries, alterList_sorted k f m.sorted⟩

/-- `get_mut(k)` and a change of the value, when the key is present. -/
def update (m : BTreeMap κ ν) (k : κ) (f : ν → ν) : BTreeMap κ ν where
  entries := m.entries.map fun p => if p.1 = k then (p.1, f p.2) else p
  sorted := by
    rw [List.pairwise_map]
    refine m.sorted.imp fun {a b} hab => ?_
    split_ifs <;> exact hab

/-- `insert(k, v)`. -/
def insert (m : BTreeMap κ ν) (k : κ) (v : ν) : BTreeMap κ ν := m.alter k fun _ => v

/-- `remove(k)`. -/
def remove (m : BTreeMap κ ν) (k : κ) : BTreeMap κ ν :=
  ⟨m.entries.filter (·.1 ≠ k), m.sorted.filter _⟩

/-- The keys, in increasing order. -/
def keys (m : BTreeMap κ ν) : List κ := m.entries.map Prod.fst

/-- `split_off(k)`: the map keeps the keys below `k` and gives back the others. -/
def splitOff (m : BTreeMap κ ν) (k : κ) : BTreeMap κ ν × BTreeMap κ ν :=
  (⟨m.entries.filter (·.1 < k), m.sorted.filter _⟩,
    ⟨m.entries.filter fun p => k ≤ p.1, m.sorted.filter _⟩)

/-- The items of a map of lists with their keys, in key order. -/
def flatten (m : BTreeMap κ (List α)) : List (κ × α) :=
  m.entries.flatMap fun p => p.2.map (p.1, ·)

/-! ### Lookups -/

theorem getList_of_forall_lt {k : κ} {l : List (κ × ν)} (h : ∀ p ∈ l, k < p.1) :
    getList k l = none := by
  induction l with
  | nil => rfl
  | cons p l ih =>
    have hne : p.1 ≠ k := ne_of_gt (h p List.mem_cons_self)
    simp only [getList, hne, if_false]
    exact ih fun q hq => h q (List.mem_cons_of_mem p hq)

@[simp] theorem get_empty (k : κ) : (empty : BTreeMap κ ν).get k = none := rfl

theorem get_alter (m : BTreeMap κ ν) (k k' : κ) (f : Option ν → ν) :
    (m.alter k f).get k' = if k' = k then some (f (m.get k)) else m.get k' := by
  obtain ⟨l, hl⟩ := m
  simp only [alter, get]
  induction l with
  | nil =>
    by_cases e : k' = k
    · simp [alterList, getList, e]
    · simp [alterList, getList, Ne.symm e, e]
  | cons p l ih =>
    rw [List.pairwise_cons] at hl
    by_cases hlt : k < p.1
    · have hnone : getList k (p :: l) = none :=
        getList_of_forall_lt fun q hq => by
          rcases List.mem_cons.mp hq with rfl | hq
          · exact hlt
          · exact lt_trans hlt (hl.1 q hq)
      simp only [alterList, hlt, if_true]
      by_cases e : k' = k
      · subst e
        rw [hnone]
        simp [getList]
      · simp [getList, Ne.symm e, e]
    · by_cases heq : k = p.1
      · subst heq
        simp only [alterList, hlt, if_false, if_true]
        by_cases e : k' = p.1
        · subst e
          simp [getList]
        · simp [getList, Ne.symm e, e]
      · simp only [alterList, hlt, heq, if_false]
        have hne : p.1 ≠ k := Ne.symm heq
        by_cases e : p.1 = k'
        · subst e
          simp [getList, hne]
        · simp [getList, e, hne, ih hl.2]

theorem get_update (m : BTreeMap κ ν) (k k' : κ) (f : ν → ν) :
    (m.update k f).get k' = if k' = k then (m.get k).map f else m.get k' := by
  obtain ⟨l, hl⟩ := m
  simp only [update, get]
  induction l with
  | nil => split_ifs <;> rfl
  | cons p l ih =>
    rw [List.pairwise_cons] at hl
    simp only [List.map_cons]
    by_cases hp : p.1 = k
    · subst hp
      by_cases e : p.1 = k'
      · subst e
        simp [getList]
      · simp [getList, e, Ne.symm e, ih hl.2]
    · by_cases e : p.1 = k'
      · subst e
        simp [getList, hp]
      · simp [getList, hp, e, ih hl.2]

theorem get_splitOff_fst (m : BTreeMap κ ν) (k k' : κ) :
    (m.splitOff k).1.get k' = if k' < k then m.get k' else none := by
  obtain ⟨l, hl⟩ := m
  simp only [splitOff, get]
  induction l with
  | nil => split_ifs <;> rfl
  | cons p l ih =>
    rw [List.pairwise_cons] at hl
    by_cases hp : p.1 < k
    · by_cases e : p.1 = k'
      · subst e
        simp [hp, getList]
      · simp [hp, getList, e, ih hl.2]
    · by_cases e : p.1 = k'
      · subst e
        have hlater : getList p.1 (l.filter (·.1 < k)) = none :=
          getList_of_forall_lt fun q hq => hl.1 q (List.mem_of_mem_filter hq)
        simp [hp, hlater]
      · simp [hp, getList, e, ih hl.2]

theorem get_splitOff_snd (m : BTreeMap κ ν) (k k' : κ) :
    (m.splitOff k).2.get k' = if k' < k then none else m.get k' := by
  obtain ⟨l, hl⟩ := m
  simp only [splitOff, get]
  induction l with
  | nil => split_ifs <;> rfl
  | cons p l ih =>
    rw [List.pairwise_cons] at hl
    by_cases hp : p.1 < k
    · by_cases e : p.1 = k'
      · subst e
        have hlater : getList p.1 (l.filter fun q => k ≤ q.1) = none :=
          getList_of_forall_lt fun q hq => hl.1 q (List.mem_of_mem_filter hq)
        simp [hp, hlater]
      · simp [hp, getList, e, ih hl.2]
    · have hle : k ≤ p.1 := not_lt.mp hp
      by_cases e : p.1 = k'
      · subst e
        simp [hle, getList]
      · simp [hle, getList, e, ih hl.2]

/-! ### Keys -/

theorem sorted_keys (m : BTreeMap κ ν) : m.keys.Pairwise (· < ·) := List.pairwise_map.mpr m.sorted

theorem nodup_keys (m : BTreeMap κ ν) : m.keys.Nodup := (sorted_keys m).imp ne_of_lt

@[simp] theorem keys_empty : (empty : BTreeMap κ ν).keys = [] := rfl

theorem keys_remove (m : BTreeMap κ ν) (k : κ) : (m.remove k).keys = m.keys.filter (· ≠ k) := by
  rw [keys, keys, List.filter_map]
  rfl

theorem length_keys_remove {m : BTreeMap κ ν} {k : κ} (h : k ∈ m.keys) :
    (m.remove k).keys.length + 1 = m.keys.length := by
  have herase : m.keys.erase k = m.keys.filter (· ≠ k) := by
    rw [(nodup_keys m).erase_eq_filter]
    simp only [ne_eq, decide_not]
    rfl
  rw [keys_remove, ← herase, List.length_erase_of_mem h]
  have := List.length_pos_of_mem h
  omega

theorem map_fst_alterList_perm {k : κ} {f : Option ν → ν} {l : List (κ × ν)}
    (h : k ∉ l.map Prod.fst) : ((alterList k f l).map Prod.fst).Perm (k :: l.map Prod.fst) := by
  induction l with
  | nil => rfl
  | cons p l ih =>
    rw [List.map_cons, List.mem_cons, not_or] at h
    simp only [alterList]
    split_ifs with hlt heq
    · rfl
    · exact absurd heq h.1
    · rw [List.map_cons]
      exact ((ih h.2).cons p.1).trans (List.Perm.swap k p.1 _)

/-- A new key joins the keys, wherever its order puts it. -/
theorem keys_insert_perm (m : BTreeMap κ ν) {k : κ} (v : ν) (h : k ∉ m.keys) :
    (m.insert k v).keys.Perm (k :: m.keys) :=
  map_fst_alterList_perm h

/-- An item occurs in the flattened map as often as in the list of its key. -/
theorem count_flatten [DecidableEq κ] [DecidableEq α] (m : BTreeMap κ (List α)) (k : κ) (a : α) :
    (m.flatten).count (k, a) = ((m.get k).getD []).count a := by
  obtain ⟨l, hl⟩ := m
  simp only [flatten, get]
  induction l with
  | nil => rfl
  | cons p l ih =>
    rw [List.pairwise_cons] at hl
    rw [List.flatMap_cons, List.count_append, ih hl.2]
    by_cases e : p.1 = k
    · subst e
      have hlater : getList p.1 l = none := getList_of_forall_lt hl.1
      rw [List.count_map_of_injective _ _ (Prod.mk_right_injective p.1)]
      simp [getList, hlater]
    · have hzero : (p.2.map (p.1, ·)).count (k, a) = 0 :=
        List.count_eq_zero.mpr fun hm => by
          obtain ⟨b, -, hb⟩ := List.mem_map.mp hm
          exact e (congrArg Prod.fst hb)
      simp [getList, e, hzero]

theorem mem_flatten [DecidableEq κ] [DecidableEq α] {m : BTreeMap κ (List α)} {k : κ} {a : α} :
    (k, a) ∈ m.flatten ↔ a ∈ (m.get k).getD [] := by
  rw [← List.count_pos_iff, ← List.count_pos_iff, count_flatten]

end BTreeMap
