import Mathlib

/-! Sets of natural numbers as sorted lists of boundaries, the representation of
`range_collections`' `RangeSet`.

A set is a strictly increasing list of boundaries, and a number is in it when an odd
number of boundaries lie at or below it: `[a, b]` is the interval from `a` to `b`, the
end excluded, and a last boundary without a partner starts a tail without end. The
boundaries are exactly the points where membership changes (`mem_boundaries_iff`),
so a set has one list of boundaries (`ext`).

A predicate that changes only at points of a strictly increasing list is the set of
its change points among them (`mem_ofChanges`); the union of two sets is built so,
from the boundaries of both (`mem_union`). -/

/-- A set of naturals by its boundaries. -/
structure RangeSet where
  boundaries : List Nat
  sorted : boundaries.Pairwise (· < ·)

namespace RangeSet

/-- Membership: an odd number of boundaries at or below. -/
def mem (s : RangeSet) (x : Nat) : Bool := s.boundaries.countP (· ≤ x) % 2 == 1

/-- Where a predicate on the naturals changes, counting it false below zero. -/
def changes (p : Nat → Bool) : Nat → Bool
  | 0 => p 0
  | x + 1 => p (x + 1) != p x

/-- The empty set. -/
def empty : RangeSet := ⟨[], List.Pairwise.nil⟩

/-- The interval from `a` to `b`, `b` excluded: empty unless `a < b`. -/
def ofRange (a b : Nat) : RangeSet :=
  if h : a < b then ⟨[a, b], by simpa using h⟩ else empty

/-- The numbers from `a` on. -/
def ofRangeFrom (a : Nat) : RangeSet := ⟨[a], List.pairwise_singleton _ _⟩

/-- A number put into a strictly increasing list, unless it is there. -/
def insertSorted (x : Nat) : List Nat → List Nat
  | [] => [x]
  | y :: ys => if x < y then x :: y :: ys else if x = y then y :: ys else y :: insertSorted x ys

/-- The set of the change points of `p` among a strictly increasing list. -/
def ofChanges (p : Nat → Bool) (l : List Nat) (hl : l.Pairwise (· < ·)) : RangeSet :=
  ⟨l.filter (changes p), hl.filter _⟩

theorem mem_insertSorted {x a : Nat} {l : List Nat} : a ∈ insertSorted x l ↔ a = x ∨ a ∈ l := by
  induction l with
  | nil => simp [insertSorted]
  | cons y ys ih =>
    simp only [insertSorted]
    split_ifs with hlt heq
    · simp
    · subst heq
      simp only [List.mem_cons]
      tauto
    · simp only [List.mem_cons, ih]
      tauto

theorem insertSorted_sorted (x : Nat) {l : List Nat} (hl : l.Pairwise (· < ·)) :
    (insertSorted x l).Pairwise (· < ·) := by
  induction l with
  | nil => exact List.pairwise_singleton _ _
  | cons y ys ih =>
    obtain ⟨hy, hys⟩ := List.pairwise_cons.mp hl
    simp only [insertSorted]
    split_ifs with hlt heq
    · exact List.pairwise_cons.mpr ⟨fun b hb => by
        rcases List.mem_cons.mp hb with rfl | hb
        · exact hlt
        · exact hlt.trans (hy b hb), hl⟩
    · exact hl
    · refine List.pairwise_cons.mpr ⟨fun b hb => ?_, ih hys⟩
      rcases mem_insertSorted.mp hb with rfl | hb
      · omega
      · exact hy b hb

/-- The boundaries of two sets, in order, each once. -/
def merge (s t : RangeSet) : List Nat := s.boundaries.foldr insertSorted t.boundaries

theorem mem_merge {s t : RangeSet} {a : Nat} : a ∈ merge s t ↔ a ∈ s.boundaries ∨ a ∈ t.boundaries := by
  unfold merge
  induction s.boundaries with
  | nil => simp
  | cons y ys ih =>
    rw [List.foldr_cons, mem_insertSorted, ih, List.mem_cons]
    tauto

theorem merge_sorted (s t : RangeSet) : (merge s t).Pairwise (· < ·) := by
  unfold merge
  induction s.boundaries with
  | nil => exact t.sorted
  | cons y ys ih => exact insertSorted_sorted y ih

/-- `|`: the set of the points of either. -/
def union (s t : RangeSet) : RangeSet := ofChanges (fun x => s.mem x || t.mem x) (merge s t) (merge_sorted s t)

/-! ### Membership -/

/-- Counting the boundaries at or below the next number adds the one at it. -/
theorem countP_le_succ {l : List Nat} (hl : l.Nodup) (x : Nat) :
    l.countP (· ≤ x + 1) = l.countP (· ≤ x) + if x + 1 ∈ l then 1 else 0 := by
  induction l with
  | nil => simp
  | cons y ys ih =>
    obtain ⟨hy, hys⟩ := List.nodup_cons.mp hl
    rw [List.countP_cons, List.countP_cons, ih hys]
    by_cases hxy : y = x + 1
    · subst hxy
      simp [hy]
    · have hmem : x + 1 ∈ y :: ys ↔ x + 1 ∈ ys := by
        simp only [List.mem_cons, or_iff_right_iff_imp]
        exact fun h => absurd h.symm hxy
      have hle : (y ≤ x + 1) ↔ (y ≤ x) := by omega
      simp only [hmem, hle]
      split_ifs <;> omega

theorem countP_le_zero {l : List Nat} (hl : l.Nodup) : l.countP (· ≤ 0) = if 0 ∈ l then 1 else 0 := by
  induction l with
  | nil => simp
  | cons y ys ih =>
    obtain ⟨hy, hys⟩ := List.nodup_cons.mp hl
    rw [List.countP_cons, ih hys]
    by_cases hy0 : y = 0
    · subst hy0
      simp [hy]
    · have : ¬ y ≤ 0 := by omega
      simp [this, Ne.symm hy0]

theorem nodup_boundaries (s : RangeSet) : s.boundaries.Nodup := s.sorted.imp Nat.ne_of_lt

theorem mem_zero (s : RangeSet) : s.mem 0 = decide (0 ∈ s.boundaries) := by
  rw [mem, countP_le_zero s.nodup_boundaries]
  split_ifs with h <;> simp [h]

theorem mem_succ (s : RangeSet) (x : Nat) :
    s.mem (x + 1) = (s.mem x != decide (x + 1 ∈ s.boundaries)) := by
  rw [mem, mem, countP_le_succ s.nodup_boundaries]
  by_cases h : x + 1 ∈ s.boundaries
  · have hpar : (s.boundaries.countP (· ≤ x) + 1) % 2 = 1 ↔ ¬ s.boundaries.countP (· ≤ x) % 2 = 1 := by omega
    simp only [h, if_true, decide_true]
    cases hc : decide (s.boundaries.countP (· ≤ x) % 2 = 1) <;> simp_all
  · simp [h]

/-- **The boundaries are where membership changes.** -/
theorem mem_boundaries_iff (s : RangeSet) (x : Nat) : x ∈ s.boundaries ↔ changes s.mem x = true := by
  cases x with
  | zero => simp [changes, mem_zero]
  | succ x =>
    simp only [changes, mem_succ]
    cases s.mem x <;> simp

/-- Two sets with the same members are one. -/
theorem ext {s t : RangeSet} (h : ∀ x, s.mem x = t.mem x) : s = t := by
  have hfun : s.mem = t.mem := funext h
  have hmem : ∀ x, x ∈ s.boundaries ↔ x ∈ t.boundaries := fun x => by
    rw [mem_boundaries_iff, mem_boundaries_iff, hfun]
  obtain ⟨b₁, h₁⟩ := s
  obtain ⟨b₂, h₂⟩ := t
  simp only [mk.injEq]
  exact List.Pairwise.eq_of_mem_iff h₁ h₂ hmem

/-- **A predicate is the set of its change points**, when they all lie in the list. -/
theorem mem_ofChanges (p : Nat → Bool) (l : List Nat) (hl : l.Pairwise (· < ·))
    (hch : ∀ x, changes p x = true → x ∈ l) (x : Nat) : (ofChanges p l hl).mem x = p x := by
  -- by induction on the number: membership toggles exactly at the change points
  have hin : ∀ y, decide (y ∈ (ofChanges p l hl).boundaries) = changes p y := by
    intro y
    cases hc : changes p y
    · simp [ofChanges, hc]
    · simp [ofChanges, hc, hch y hc]
  induction x with
  | zero =>
    rw [mem_zero, hin]
    rfl
  | succ x ih =>
    rw [mem_succ, ih, hin, changes]
    cases p x <;> cases p (x + 1) <;> rfl

theorem changes_or_of_changes {p q : Nat → Bool} {x : Nat} (h : changes (fun y => p y || q y) x = true) :
    changes p x = true ∨ changes q x = true := by
  cases x with
  | zero =>
    simp only [changes, Bool.or_eq_true] at h ⊢
    exact h
  | succ x =>
    simp only [changes] at h ⊢
    revert h
    cases p x <;> cases p (x + 1) <;> cases q x <;> cases q (x + 1) <;> decide

@[simp] theorem mem_union (s t : RangeSet) (x : Nat) : (union s t).mem x = (s.mem x || t.mem x) := by
  refine mem_ofChanges _ _ _ (fun y hy => mem_merge.mpr ?_) x
  rcases changes_or_of_changes hy with h | h
  · exact .inl ((mem_boundaries_iff s y).mpr h)
  · exact .inr ((mem_boundaries_iff t y).mpr h)

/-- A boundary of a union is a boundary of one of the sets. -/
theorem boundaries_union {s t : RangeSet} {x : Nat} (h : x ∈ (union s t).boundaries) :
    x ∈ s.boundaries ∨ x ∈ t.boundaries :=
  mem_merge.mp (List.mem_filter.mp h).1

@[simp] theorem mem_empty (x : Nat) : empty.mem x = false := rfl

@[simp] theorem mem_ofRange (a b x : Nat) : (ofRange a b).mem x = decide (a ≤ x ∧ x < b) := by
  unfold ofRange
  split_ifs with h
  · simp only [mem, List.countP_cons, List.countP_nil, decide_eq_true_eq]
    by_cases ha : a ≤ x <;> by_cases hb : b ≤ x <;> simp [ha, hb] <;> omega
  · simp only [mem_empty]
    exact (decide_eq_false fun hx => h (by omega)).symm

@[simp] theorem mem_ofRangeFrom (a x : Nat) : (ofRangeFrom a).mem x = decide (a ≤ x) := by
  by_cases ha : a ≤ x <;> simp [ofRangeFrom, mem, ha]

theorem boundaries_ofRange {a b x : Nat} (h : x ∈ (ofRange a b).boundaries) : x = a ∨ x = b := by
  unfold ofRange at h
  split_ifs at h
  · simpa using h
  · exact absurd h List.not_mem_nil

theorem boundaries_ofRangeFrom {a x : Nat} (h : x ∈ (ofRangeFrom a).boundaries) : x = a :=
  List.mem_singleton.mp h

end RangeSet
