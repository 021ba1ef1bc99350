import Mathlib

/-! An insertion-ordered set, as `indexmap::IndexSet` keeps one: a duplicate-free list.

Elements stay in the order they were inserted in, except that `swapRemoveIndex`
(`swap_remove_index`) fills the hole with the last element, while
`shiftRemoveIndex` (`shift_remove_index`) keeps the rest in order. Either way
exactly the element at the index leaves (`mem_swapRemoveIndex`,
`mem_shiftRemoveIndex`), one at a time (`len_swapRemoveIndex`), so what a
sequence of insertions and removals keeps is described by membership and length
alone. The swap is a permutation of the erasure (`perm_swapList`). -/

/-- A set that remembers the order of insertion. -/
structure IndexSet (α : Type) where
  toList : List α
  nodup : toList.Nodup

namespace IndexSet

variable {α : Type}

instance : Membership α (IndexSet α) := ⟨fun s a => a ∈ s.toList⟩

theorem mem_def {s : IndexSet α} {a : α} : a ∈ s ↔ a ∈ s.toList := Iff.rfl

/-- The empty set. -/
def empty : IndexSet α := ⟨[], List.nodup_nil⟩

/-- The number of elements. -/
def len (s : IndexSet α) : Nat := s.toList.length

/-- The element at an index, if there is one. -/
def getIndex (s : IndexSet α) (i : Nat) : Option α := s.toList[i]?

@[simp] theorem not_mem_empty (a : α) : a ∉ (empty : IndexSet α) := List.not_mem_nil

@[simp] theorem len_empty : (empty : IndexSet α).len = 0 := rfl

theorem getIndex_eq_some {s : IndexSet α} {i : Nat} {a : α} (h : s.getIndex i = some a) : a ∈ s := by
  unfold getIndex at h
  exact List.mem_of_getElem? h

/-- The list after the element at `i` is overwritten by the last one, which is then dropped. -/
def swapList (l : List α) (i : Nat) (h : i < l.length) : List α :=
  (l.set i (l.getLast (List.ne_nil_of_length_pos (Nat.lt_of_le_of_lt (Nat.zero_le i) h)))).dropLast

theorem perm_swapList (l : List α) (i : Nat) (h : i < l.length) :
    (swapList l i h).Perm (l.eraseIdx i) := by
  unfold swapList
  generalize hz : l.getLast _ = z
  obtain ⟨l', rfl⟩ : ∃ l', l = l' ++ [z] := ⟨l.dropLast, by rw [← hz, List.dropLast_append_getLast]⟩
  simp only [List.length_append, List.length_singleton] at h
  rcases Nat.lt_succ_iff_lt_or_eq.mp h with hi | rfl
  · -- an inner index: `z` takes its place
    rw [List.set_append_left i z hi, List.dropLast_concat, List.eraseIdx_append_of_lt_length hi,
      List.set_eq_take_append_cons_drop, if_pos hi, List.eraseIdx_eq_take_drop_succ]
    exact List.perm_middle.trans (List.perm_append_singleton _ _).symm
  · -- the last index: the set is a no-op and the element is dropped
    rw [List.eraseIdx_append_of_length_le (Nat.le_refl _), Nat.sub_self]
    simp

/-- `swap_remove_index`: the element at `i`, with the last element moved into its place. -/
def swapRemoveIndex (s : IndexSet α) (i : Nat) : Option α × IndexSet α :=
  if h : i < s.toList.length then
    (some s.toList[i], ⟨swapList s.toList i h,
      ((perm_swapList _ _ h).nodup_iff).mpr (s.nodup.sublist (List.eraseIdx_sublist _ _))⟩)
  else (none, s)

/-- `shift_remove_index`: the element at `i`, the others keeping their order. -/
def shiftRemoveIndex (s : IndexSet α) (i : Nat) : Option α × IndexSet α :=
  if h : i < s.toList.length then
    (some s.toList[i], ⟨s.toList.eraseIdx i, s.nodup.sublist (List.eraseIdx_sublist _ _)⟩)
  else (none, s)

theorem swapRemoveIndex_fst_mem {s : IndexSet α} {i : Nat} {a : α}
    (h : (s.swapRemoveIndex i).1 = some a) : a ∈ s := by
  unfold swapRemoveIndex at h
  split at h
  · cases h
    exact List.getElem_mem _
  · cases h

theorem swapRemoveIndex_of_fst_eq_none {s : IndexSet α} {i : Nat}
    (h : (s.swapRemoveIndex i).1 = none) : (s.swapRemoveIndex i).2 = s := by
  unfold swapRemoveIndex at h ⊢
  split at h
  · cases h
  · rename_i hi
    rw [dif_neg hi]

theorem len_swapRemoveIndex (s : IndexSet α) (i : Nat) :
    (s.swapRemoveIndex i).2.len = if i < s.len then s.len - 1 else s.len := by
  unfold swapRemoveIndex len
  split
  · rename_i h
    exact (perm_swapList _ _ h).length_eq.trans (List.length_eraseIdx_of_lt h)
  · rfl

theorem len_shiftRemoveIndex (s : IndexSet α) (i : Nat) :
    (s.shiftRemoveIndex i).2.len = if i < s.len then s.len - 1 else s.len := by
  unfold shiftRemoveIndex len
  split
  · rename_i h
    exact List.length_eraseIdx_of_lt h
  · rfl

variable [DecidableEq α]

instance (a : α) (s : IndexSet α) : Decidable (a ∈ s) :=
  inferInstanceAs (Decidable (a ∈ s.toList))

/-- Whether `a` is an element. -/
def contains (s : IndexSet α) (a : α) : Bool := decide (a ∈ s)

/-- The index of an element, if it is one. -/
def getIndexOf (s : IndexSet α) (a : α) : Option Nat :=
  if a ∈ s then some (s.toList.idxOf a) else none

/-- `insert`: a new element goes last; an element already there stays where it is. -/
def insert (s : IndexSet α) (a : α) : IndexSet α :=
  if h : a ∈ s then s else ⟨s.toList.concat a, s.nodup.concat h⟩

/-- `swap_remove`: remove an element by swapping the last one into its place. -/
def remove (s : IndexSet α) (a : α) : Option α × IndexSet α :=
  match s.getIndexOf a with
  | some i => s.swapRemoveIndex i
  | none => (none, s)

/-! ### Membership and length -/

@[simp] theorem contains_iff {s : IndexSet α} {a : α} : s.contains a = true ↔ a ∈ s :=
  decide_eq_true_iff

@[simp] theorem mem_insert {s : IndexSet α} {a x : α} : x ∈ s.insert a ↔ x ∈ s ∨ x = a := by
  unfold insert
  split
  · constructor
    · exact Or.inl
    · rintro (h | rfl) <;> assumption
  · simp [mem_def]

theorem len_insert_of_mem {s : IndexSet α} {a : α} (h : a ∈ s) : (s.insert a).len = s.len := by
  simp [insert, h]

theorem len_insert_of_not_mem {s : IndexSet α} {a : α} (h : a ∉ s) :
    (s.insert a).len = s.len + 1 := by
  simp [insert, h, len]

theorem len_insert_le (s : IndexSet α) (a : α) : (s.insert a).len ≤ s.len + 1 := by
  by_cases h : a ∈ s
  · rw [len_insert_of_mem h]
    omega
  · exact Nat.le_of_eq (len_insert_of_not_mem h)

theorem mem_eraseIdx_iff {l : List α} (hl : l.Nodup) {i : Nat} (h : i < l.length) {x : α} :
    x ∈ l.eraseIdx i ↔ x ∈ l ∧ x ≠ l[i] := by
  rw [← hl.erase_getElem i h, hl.mem_erase_iff, and_comm]

/-- What leaves the set is exactly the element returned. -/
theorem mem_swapRemoveIndex {s : IndexSet α} {i : Nat} {x : α} :
    x ∈ (s.swapRemoveIndex i).2 ↔ x ∈ s ∧ (s.swapRemoveIndex i).1 ≠ some x := by
  unfold swapRemoveIndex
  split
  · rename_i h
    show x ∈ swapList s.toList i h ↔ x ∈ s.toList ∧ some s.toList[i] ≠ some x
    rw [(perm_swapList _ _ h).mem_iff, mem_eraseIdx_iff s.nodup h]
    simp [eq_comm]
  · simp

theorem mem_shiftRemoveIndex {s : IndexSet α} {i : Nat} {x : α} :
    x ∈ (s.shiftRemoveIndex i).2 ↔ x ∈ s ∧ (s.shiftRemoveIndex i).1 ≠ some x := by
  unfold shiftRemoveIndex
  split
  · rename_i h
    show x ∈ s.toList.eraseIdx i ↔ x ∈ s.toList ∧ some s.toList[i] ≠ some x
    rw [mem_eraseIdx_iff s.nodup h]
    simp [eq_comm]
  · simp

theorem getIndexOf_eq_some {s : IndexSet α} {a : α} {i : Nat} (h : s.getIndexOf a = some i) :
    ∃ hi : i < s.toList.length, s.toList[i] = a := by
  unfold getIndexOf at h
  split at h
  · cases h
    have hi : s.toList.idxOf a < s.toList.length := List.idxOf_lt_length_iff.mpr ‹_›
    exact ⟨hi, List.getElem_idxOf hi⟩
  · cases h

theorem getIndexOf_eq_none {s : IndexSet α} {a : α} : s.getIndexOf a = none ↔ a ∉ s := by
  unfold getIndexOf
  split <;> simp_all

/-- Removing an element by value takes out that element and nothing else. -/
@[simp] theorem mem_remove {s : IndexSet α} {a x : α} : x ∈ (s.remove a).2 ↔ x ∈ s ∧ x ≠ a := by
  unfold remove
  split
  · rename_i i hi
    obtain ⟨hlt, rfl⟩ := getIndexOf_eq_some hi
    rw [mem_swapRemoveIndex]
    simp [swapRemoveIndex, hlt, mem_def, eq_comm]
  · rename_i hn
    have ha := getIndexOf_eq_none.mp hn
    constructor
    · intro hx
      exact ⟨hx, fun h => ha (h ▸ hx)⟩
    · exact And.left

theorem len_remove_le (s : IndexSet α) (a : α) : (s.remove a).2.len ≤ s.len := by
  unfold remove
  split
  · rw [len_swapRemoveIndex]
    split <;> omega
  · exact Nat.le_refl _

end IndexSet
