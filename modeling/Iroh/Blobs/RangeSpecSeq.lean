import Iroh.Blobs.RangeSpec

/-! Range specifications for a sequence of blobs (`protocol/range_spec.rs`).

A `RangeSpecSeq` is a list of `(count, spec)` tuples, each count the number of times
the spec before it repeats (`EMPTY` before the first), the last spec repeating
forever. `RangeSpecSeq::new` merges equal neighbours: its tuples are the runs of the
list (`newLoop_eq`), so its iterator yields the list's specs and then the last one
forever (`nth_iter_new`), and the tuples are canonical (`isCanonical_new`). Canonical
tuples are determined by what they yield (`eq_of_nth_eq`), so two lists stand for the
same sequence exactly when `new` gives one value.

The iterator over the non-empty specs counts offsets in a `u64` with `checked_add`, so
it yields the non-empty specs below offset `u64::MAX` in order and then ends
(`yields_iterNonEmpty`), whatever the tuples: the spec at `u64::MAX` is never
yielded, even when it is not empty (`iter_non_empty_skips_last_offset`).

Counts are naturals here: `new` counts the items of a list, which has fewer than
`2 ^ 64`. -/

namespace Iroh.Blobs

/-- `RangeSpec::EMPTY`. -/
def RangeSpec.EMPTY : RangeSpec := ⟨[]⟩

/-- `RangeSpec::all`: every chunk. -/
def RangeSpec.all : RangeSpec := ⟨[0]⟩

/-- `RangeSpec::is_empty`. -/
def RangeSpec.isEmpty (spec : RangeSpec) : Bool := spec.widths.isEmpty

/-- `RangeSpecSeq`: `(count, spec)` tuples. -/
structure RangeSpecSeq where
  items : List (Nat × RangeSpec)
deriving DecidableEq, Repr

namespace RangeSpecSeq

/-- The loop of `RangeSpecSeq::new`: the tuples pushed so far, and how often the last
spec pushed (`EMPTY` before any) has been seen since. -/
def newLoop (res : List (Nat × RangeSpec)) (count : Nat) : List RangeSpec → List (Nat × RangeSpec)
  | [] => res
  | v :: children =>
    let prev := (res.getLast?.map Prod.snd).getD RangeSpec.EMPTY
    if v = prev then newLoop res (count + 1) children else newLoop (res ++ [(count, v)]) 1 children

/-- `RangeSpecSeq::new`. -/
def new (children : List RangeSpec) : RangeSpecSeq := ⟨newLoop [] 0 children⟩

/-- `RangeSpecSeq::from_ranges`: the specs of the ranges, then `EMPTY` forever. -/
def fromRanges (ranges : List ChunkRanges) : RangeSpecSeq :=
  new (ranges.map RangeSpec.new ++ [RangeSpec.EMPTY])

/-- `RangeSpecSeq::from_ranges_infinite`: the last spec repeats forever. -/
def fromRangesInfinite (ranges : List ChunkRanges) : RangeSpecSeq :=
  new (ranges.map RangeSpec.new)

/-- `RangeSpecSeq::as_single`: two tuples, the second an empty spec after one repeat. -/
def asSingle (s : RangeSpecSeq) : Option (Nat × RangeSpec) :=
  match s.items with
  | [(fstOfs, fstVal), (sndOfs, sndVal)] => if sndOfs == 1 && sndVal.isEmpty then some (fstOfs, fstVal) else none
  | _ => none

end RangeSpecSeq

/-! ### The iterator -/

/-- `RequestRangeSpecIter`. -/
structure RequestRangeSpecIter where
  current : RangeSpec
  count : Nat
  remaining : List (Nat × RangeSpec)

/-- The count of the first tuple, `0` without one (`first().map(..).unwrap_or_default()`). -/
def firstCount (ranges : List (Nat × RangeSpec)) : Nat := (ranges.head?.map Prod.fst).getD 0

namespace RequestRangeSpecIter

/-- `RequestRangeSpecIter::new`. -/
def new (ranges : List (Nat × RangeSpec)) : RequestRangeSpecIter :=
  ⟨RangeSpec.EMPTY, firstCount ranges, ranges⟩

/-- `is_at_end`: the current spec repeats forever. -/
def isAtEnd (it : RequestRangeSpecIter) : Bool := it.count == 0 && it.remaining.isEmpty

/-- The loop of `next`: a spent count takes the next tuple and goes round again, so
the loop runs down the remaining tuples. -/
def nextLoop (current : RangeSpec) (count : Nat) :
    List (Nat × RangeSpec) → RangeSpec × RequestRangeSpecIter
  | [] => if 0 < count then (current, ⟨current, count - 1, []⟩) else (current, ⟨current, count, []⟩)
  | (c, new) :: rest =>
    if 0 < count then (current, ⟨current, count - 1, (c, new) :: rest⟩)
    else nextLoop new (firstCount rest) rest

/-- `Iterator::next`, which always yields. -/
def next (it : RequestRangeSpecIter) : RangeSpec × RequestRangeSpecIter :=
  nextLoop it.current it.count it.remaining

/-- The iterator after `k` items. -/
def advance : Nat → RequestRangeSpecIter → RequestRangeSpecIter
  | 0, it => it
  | k + 1, it => advance k it.next.2

/-- The item after `i` others. -/
def nth (it : RequestRangeSpecIter) (i : Nat) : RangeSpec := (it.advance i).next.1

end RequestRangeSpecIter

/-- `RangeSpecSeq::iter`. -/
def RangeSpecSeq.iter (s : RangeSpecSeq) : RequestRangeSpecIter := .new s.items

/-! ### The iterator over the non-empty specs -/

/-- `NonEmptyRequestRangeSpecIter`: the plain iterator and the offset of its next item. -/
structure NonEmptyRequestRangeSpecIter where
  inner : RequestRangeSpecIter
  count : Nat

namespace NonEmptyRequestRangeSpecIter

/-- The loop of `next`. `fuel` is the number of `count.checked_add(1)`s that can still
succeed: at zero the offset is `u64::MAX`, the `?` returns `None`. -/
def nextLoop : Nat → RequestRangeSpecIter → Nat → Option ((Nat × RangeSpec) × NonEmptyRequestRangeSpecIter)
  | 0, _, _ => none
  | fuel + 1, inner, count =>
    let (curr, inner) := inner.next
    if !curr.isEmpty then some ((count, curr), ⟨inner, count + 1⟩)
    else if inner.isAtEnd then none
    else nextLoop fuel inner (count + 1)

/-- `Iterator::next`. -/
def next (it : NonEmptyRequestRangeSpecIter) : Option ((Nat × RangeSpec) × NonEmptyRequestRangeSpecIter) :=
  nextLoop (2 ^ 64 - 1 - it.count) it.inner it.count

/-- The first `n` items, fewer if the iterator ends. -/
def yields : Nat → NonEmptyRequestRangeSpecIter → List (Nat × RangeSpec)
  | 0, _ => []
  | n + 1, it =>
    match it.next with
    | some (item, it) => item :: yields n it
    | none => []

end NonEmptyRequestRangeSpecIter

/-- `RangeSpecSeq::iter_non_empty`. -/
def RangeSpecSeq.iterNonEmpty (s : RangeSpecSeq) : NonEmptyRequestRangeSpecIter := ⟨s.iter, 0⟩

/-! ### One step of the iterator -/

@[simp] theorem firstCount_nil : firstCount [] = 0 := rfl

@[simp] theorem firstCount_cons (x : Nat × RangeSpec) (rest : List (Nat × RangeSpec)) :
    firstCount (x :: rest) = x.1 := rfl

namespace RequestRangeSpecIter

theorem next_of_pos {current : RangeSpec} {count : Nat} {remaining : List (Nat × RangeSpec)}
    (h : 0 < count) :
    (⟨current, count, remaining⟩ : RequestRangeSpecIter).next = (current, ⟨current, count - 1, remaining⟩) := by
  cases remaining with
  | nil => exact if_pos h
  | cons c rest => exact if_pos h

theorem next_take (current new : RangeSpec) (c : Nat) (rest : List (Nat × RangeSpec)) :
    (⟨current, 0, (c, new) :: rest⟩ : RequestRangeSpecIter).next =
      (⟨new, firstCount rest, rest⟩ : RequestRangeSpecIter).next := by
  simp only [next, nextLoop, Nat.lt_irrefl, if_false]

theorem next_end (current : RangeSpec) :
    (⟨current, 0, []⟩ : RequestRangeSpecIter).next = (current, ⟨current, 0, []⟩) := by
  simp only [next, nextLoop, Nat.lt_irrefl, if_false]

/-- The iterator holds the item it yielded last. -/
theorem current_next (it : RequestRangeSpecIter) : it.next.2.current = it.next.1 := by
  obtain ⟨current, count, remaining⟩ := it
  induction remaining generalizing current count with
  | nil =>
    by_cases h : 0 < count
    · rw [next_of_pos h]
    · rw [Nat.eq_zero_of_not_pos h, next_end]
  | cons tuple rest ih =>
    obtain ⟨c, new⟩ := tuple
    by_cases h : 0 < count
    · rw [next_of_pos h]
    · rw [Nat.eq_zero_of_not_pos h, next_take]
      exact ih new (firstCount rest)

@[simp] theorem nth_zero (it : RequestRangeSpecIter) : it.nth 0 = it.next.1 := rfl

theorem nth_succ (it : RequestRangeSpecIter) (i : Nat) : it.nth (i + 1) = it.next.2.nth i := rfl

theorem advance_add (it : RequestRangeSpecIter) (k i : Nat) : it.advance (k + i) = (it.advance k).advance i := by
  induction k generalizing it with
  | zero => rw [Nat.zero_add]; rfl
  | succ k ih =>
    rw [Nat.succ_add]
    exact ih it.next.2

theorem nth_advance (it : RequestRangeSpecIter) (k i : Nat) : (it.advance k).nth i = it.nth (k + i) := by
  rw [nth, nth, advance_add]

/-- Before its count is spent the iterator yields its current spec. -/
theorem nth_lt {current : RangeSpec} {count : Nat} {remaining : List (Nat × RangeSpec)} {i : Nat}
    (h : i < count) : (⟨current, count, remaining⟩ : RequestRangeSpecIter).nth i = current := by
  induction i generalizing count with
  | zero => rw [nth_zero, next_of_pos h]
  | succ i ih =>
    rw [nth_succ, next_of_pos (by omega)]
    exact ih (by omega)

theorem nth_count_add (current : RangeSpec) (count : Nat) (remaining : List (Nat × RangeSpec)) (i : Nat) :
    (⟨current, count, remaining⟩ : RequestRangeSpecIter).nth (count + i) =
      (⟨current, 0, remaining⟩ : RequestRangeSpecIter).nth i := by
  induction count with
  | zero => rw [Nat.zero_add]
  | succ count ih =>
    rw [Nat.succ_add, nth_succ, next_of_pos (Nat.succ_pos count)]
    exact ih

theorem nth_take (current new : RangeSpec) (c : Nat) (rest : List (Nat × RangeSpec)) (i : Nat) :
    (⟨current, 0, (c, new) :: rest⟩ : RequestRangeSpecIter).nth i =
      (⟨new, firstCount rest, rest⟩ : RequestRangeSpecIter).nth i := by
  cases i with
  | zero => rw [nth_zero, nth_zero, next_take]
  | succ i => rw [nth_succ, nth_succ, next_take]

theorem nth_end (current : RangeSpec) (i : Nat) : (⟨current, 0, []⟩ : RequestRangeSpecIter).nth i = current := by
  induction i with
  | zero => rw [nth_zero, next_end]
  | succ i ih => rw [nth_succ, next_end, ih]

/-- At its end the iterator yields its current spec forever. -/
theorem nth_of_isAtEnd {it : RequestRangeSpecIter} (h : it.isAtEnd = true) (i : Nat) : it.nth i = it.current := by
  obtain ⟨current, count, remaining⟩ := it
  simp only [isAtEnd, Bool.and_eq_true, beq_iff_eq, List.isEmpty_iff] at h
  obtain ⟨rfl, rfl⟩ := h
  exact nth_end current i

end RequestRangeSpecIter

/-! ### What `new` builds -/

namespace RangeSpecSeq

/-- The tuples of `children` after `count` repeats of `prev`: each spec that differs
from the one before it, with the length of the run before it. -/
def runs (prev : RangeSpec) (count : Nat) : List RangeSpec → List (Nat × RangeSpec)
  | [] => []
  | v :: children => if v = prev then runs prev (count + 1) children else (count, v) :: runs v 1 children

/-- The loop of `new` appends the runs after the last spec it pushed. -/
theorem newLoop_eq (res : List (Nat × RangeSpec)) (count : Nat) (children : List RangeSpec) :
    newLoop res count children = res ++ runs ((res.getLast?.map Prod.snd).getD RangeSpec.EMPTY) count children := by
  induction children generalizing res count with
  | nil => simp [newLoop, runs]
  | cons v children ih =>
    by_cases hv : v = (res.getLast?.map Prod.snd).getD RangeSpec.EMPTY
    · rw [newLoop, runs, if_pos hv, if_pos hv, ih]
    · rw [newLoop, runs, if_neg hv, if_neg hv, ih, List.getLast?_concat]
      simp

theorem items_new (children : List RangeSpec) : (new children).items = runs RangeSpec.EMPTY 0 children := by
  rw [new, newLoop_eq]
  rfl

/-- The sequence a list stands for after `prev`: its specs, then its last one forever
(`prev` if it has none). -/
def extendAt (prev : RangeSpec) (children : List RangeSpec) (i : Nat) : RangeSpec :=
  children.getD i (children.getLastD prev)

/-- The sequence a list of specs stands for: its specs, then its last one forever,
`EMPTY` if it has none. -/
def specAt (children : List RangeSpec) (i : Nat) : RangeSpec := extendAt RangeSpec.EMPTY children i

theorem extendAt_cons_self (prev : RangeSpec) (children : List RangeSpec) (i : Nat) :
    extendAt prev (prev :: children) (i + 1) = extendAt prev children i := by
  rw [extendAt, extendAt, List.getD_cons_succ, List.getLastD_cons]

theorem extendAt_cons (prev v : RangeSpec) (children : List RangeSpec) (i : Nat) :
    extendAt prev (v :: children) i = if i = 0 then v else extendAt v children (i - 1) := by
  cases i with
  | zero => rfl
  | succ i => rw [if_neg (Nat.succ_ne_zero i), extendAt, extendAt, List.getD_cons_succ, List.getLastD_cons,
      Nat.add_sub_cancel]

/-- **The iterator over the runs yields the list after `count` repeats of `prev`.** -/
theorem nth_runs (prev : RangeSpec) (count : Nat) (children : List RangeSpec) (i : Nat) :
    (⟨prev, firstCount (runs prev count children), runs prev count children⟩ : RequestRangeSpecIter).nth i =
      if i < count then prev else extendAt prev children (i - count) := by
  induction children generalizing prev count i with
  | nil =>
    rw [runs, firstCount_nil, RequestRangeSpecIter.nth_end]
    split_ifs <;> rfl
  | cons v children ih =>
    by_cases hv : v = prev
    · subst hv
      rw [runs, if_pos rfl, ih]
      rcases Nat.lt_trichotomy i count with hlt | rfl | hgt
      · rw [if_pos (by omega), if_pos hlt]
      · rw [if_pos (by omega), if_neg (Nat.lt_irrefl _), Nat.sub_self]
        rfl
      · rw [if_neg (by omega), if_neg (by omega), show i - count = (i - (count + 1)) + 1 by omega,
          extendAt_cons_self]
    · rw [runs, if_neg hv]
      rw [firstCount_cons]
      by_cases hlt : i < count
      · rw [if_pos hlt, RequestRangeSpecIter.nth_lt hlt]
      · obtain ⟨j, rfl⟩ := Nat.exists_eq_add_of_le (Nat.le_of_not_lt hlt)
        rw [if_neg hlt, RequestRangeSpecIter.nth_count_add, RequestRangeSpecIter.nth_take, ih,
          Nat.add_sub_cancel_left, extendAt_cons]
        by_cases hj : j = 0
        · rw [if_pos (by omega), if_pos hj]
        · rw [if_neg (by omega), if_neg hj]

/-- **`new`'s iterator yields the list, then its last spec forever.** -/
theorem nth_iter_new (children : List RangeSpec) (i : Nat) : (new children).iter.nth i = specAt children i := by
  have h := nth_runs RangeSpec.EMPTY 0 children i
  rw [if_neg (Nat.not_lt_zero i), Nat.sub_zero] at h
  rw [iter, RequestRangeSpecIter.new, items_new]
  exact h

theorem nth_iter_fromRanges (ranges : List ChunkRanges) (i : Nat) :
    (fromRanges ranges).iter.nth i = ((ranges[i]?).map RangeSpec.new).getD RangeSpec.EMPTY := by
  rw [fromRanges, nth_iter_new, specAt, extendAt, List.getLastD_eq_getLast?, List.getLast?_concat]
  by_cases hi : i < ranges.length
  · rw [List.getD_eq_getElem?_getD, List.getElem?_append_left (by simpa using hi), List.getElem?_map,
      List.getElem?_eq_getElem hi]
    rfl
  · rw [List.getD_eq_getElem?_getD, List.getElem?_eq_none (Nat.le_of_not_lt hi)]
    rw [List.getElem?_append_right (by simpa using Nat.le_of_not_lt hi)]
    cases i - (ranges.map RangeSpec.new).length <;> simp

theorem nth_iter_fromRangesInfinite (ranges : List ChunkRanges) (i : Nat) :
    (fromRangesInfinite ranges).iter.nth i =
      ((ranges[min i (ranges.length - 1)]?).map RangeSpec.new).getD RangeSpec.EMPTY := by
  rw [fromRangesInfinite, nth_iter_new, specAt, extendAt, List.getD_eq_getElem?_getD, List.getLastD_eq_getLast?]
  by_cases hi : i < ranges.length
  · rw [Nat.min_eq_left (by omega), List.getElem?_map]
    simp [List.getElem?_eq_getElem hi]
  · rw [List.getElem?_eq_none (by simpa using Nat.le_of_not_lt hi), Option.getD_none, List.getLast?_map]
    cases ranges with
    | nil => rfl
    | cons r rs =>
      rw [Nat.min_eq_right (by simp at hi ⊢; omega), List.getLast?_eq_getElem?]

end RangeSpecSeq

/-! ### Canonical tuples -/

namespace RangeSpecSeq

/-- Canonical tuples after `prev`: each spec differs from the one before it (the first
from `prev`), and every count after the first is at least one. -/
def IsCanonicalAfter (prev : RangeSpec) (items : List (Nat × RangeSpec)) : Prop :=
  (prev :: items.map Prod.snd).IsChain (· ≠ ·) ∧ ∀ x ∈ items.tail, 1 ≤ x.1

/-- Canonical tuples, after the `EMPTY` before the first. -/
def IsCanonical (s : RangeSpecSeq) : Prop := IsCanonicalAfter RangeSpec.EMPTY s.items

theorem one_le_of_mem_runs {prev : RangeSpec} {count : Nat} (hc : 1 ≤ count) {children : List RangeSpec}
    {x : Nat × RangeSpec} (hx : x ∈ runs prev count children) : 1 ≤ x.1 := by
  induction children generalizing prev count with
  | nil => exact absurd hx List.not_mem_nil
  | cons v children ih =>
    rw [runs] at hx
    split_ifs at hx
    · exact ih (by omega) hx
    · rcases List.mem_cons.mp hx with rfl | hx
      · exact hc
      · exact ih (Nat.le_refl 1) hx

theorem isCanonicalAfter_runs (prev : RangeSpec) (count : Nat) (children : List RangeSpec) :
    IsCanonicalAfter prev (runs prev count children) := by
  induction children generalizing prev count with
  | nil => exact ⟨List.isChain_singleton _, fun _ h => absurd h List.not_mem_nil⟩
  | cons v children ih =>
    rw [runs]
    split_ifs with hv
    · exact ih prev (count + 1)
    · obtain ⟨hchain, -⟩ := ih v 1
      refine ⟨?_, fun x hx => one_le_of_mem_runs (Nat.le_refl 1) hx⟩
      rw [List.map_cons, List.isChain_cons_cons]
      exact ⟨Ne.symm hv, hchain⟩

/-- `new` gives canonical tuples. -/
theorem isCanonical_new (children : List RangeSpec) : (new children).IsCanonical := by
  rw [IsCanonical, items_new]
  exact isCanonicalAfter_runs _ _ _

theorem IsCanonicalAfter.tail {prev v : RangeSpec} {c : Nat} {rest : List (Nat × RangeSpec)}
    (h : IsCanonicalAfter prev ((c, v) :: rest)) :
    prev ≠ v ∧ IsCanonicalAfter v rest ∧ ∀ x ∈ rest, 1 ≤ x.1 := by
  obtain ⟨hchain, hcount⟩ := h
  rw [List.map_cons, List.isChain_cons_cons] at hchain
  exact ⟨hchain.1, ⟨hchain.2, fun x hx => hcount x (List.mem_of_mem_tail hx)⟩, hcount⟩

/-- After a spent count, the next tuple's spec comes out at once when its count is not zero. -/
theorem nth_zero_of_counts {v : RangeSpec} {rest : List (Nat × RangeSpec)} (h : ∀ x ∈ rest, 1 ≤ x.1) :
    (⟨v, firstCount rest, rest⟩ : RequestRangeSpecIter).nth 0 = v := by
  cases rest with
  | nil => exact RequestRangeSpecIter.nth_end v 0
  | cons x rest => exact RequestRangeSpecIter.nth_lt (h x (List.mem_cons_self ..))

theorem nth_cons_count (prev v : RangeSpec) (c : Nat) (rest : List (Nat × RangeSpec)) (j : Nat) :
    (⟨prev, c, (c, v) :: rest⟩ : RequestRangeSpecIter).nth (c + j) =
      (⟨v, firstCount rest, rest⟩ : RequestRangeSpecIter).nth j := by
  rw [RequestRangeSpecIter.nth_count_add, RequestRangeSpecIter.nth_take]

/-- **Canonical tuples are determined by the specs they yield.** -/
theorem eq_of_nth_eq {prev : RangeSpec} {items₁ items₂ : List (Nat × RangeSpec)}
    (h₁ : IsCanonicalAfter prev items₁) (h₂ : IsCanonicalAfter prev items₂)
    (h : ∀ i, (⟨prev, firstCount items₁, items₁⟩ : RequestRangeSpecIter).nth i =
      (⟨prev, firstCount items₂, items₂⟩ : RequestRangeSpecIter).nth i) : items₁ = items₂ := by
  induction items₁ generalizing prev items₂ with
  | nil =>
    cases items₂ with
    | nil => rfl
    | cons x rest =>
      obtain ⟨c, v⟩ := x
      obtain ⟨hne, -, hcounts⟩ := h₂.tail
      have hc := h (c + 0)
      rw [firstCount_nil, RequestRangeSpecIter.nth_end, firstCount_cons, nth_cons_count,
        nth_zero_of_counts hcounts] at hc
      exact absurd hc hne
  | cons x₁ rest₁ ih =>
    obtain ⟨c₁, v₁⟩ := x₁
    obtain ⟨hne₁, hcan₁, hcounts₁⟩ := h₁.tail
    cases items₂ with
    | nil =>
      have hc := h (c₁ + 0)
      rw [firstCount_nil, RequestRangeSpecIter.nth_end, firstCount_cons, nth_cons_count,
        nth_zero_of_counts hcounts₁] at hc
      exact absurd hc.symm hne₁
    | cons x₂ rest₂ =>
      obtain ⟨c₂, v₂⟩ := x₂
      obtain ⟨hne₂, hcan₂, hcounts₂⟩ := h₂.tail
      simp only [firstCount_cons] at h
      have hc : c₁ = c₂ := by
        rcases Nat.lt_trichotomy c₁ c₂ with hlt | heq | hgt
        · have := h (c₁ + 0)
          rw [nth_cons_count, nth_zero_of_counts hcounts₁, Nat.add_zero, RequestRangeSpecIter.nth_lt hlt] at this
          exact absurd this.symm hne₁
        · exact heq
        · have := h (c₂ + 0)
          rw [nth_cons_count, nth_zero_of_counts hcounts₂, Nat.add_zero, RequestRangeSpecIter.nth_lt hgt] at this
          exact absurd this hne₂
      subst hc
      have hv : v₁ = v₂ := by
        have := h (c₁ + 0)
        rwa [nth_cons_count, nth_cons_count, nth_zero_of_counts hcounts₁, nth_zero_of_counts hcounts₂] at this
      subst hv
      have hrest := ih hcan₁ hcan₂ fun j => by rw [← nth_cons_count prev v₁ c₁, ← nth_cons_count prev v₁ c₁, h]
      rw [hrest]

/-- **Two lists stand for the same sequence exactly when `new` gives one value.** -/
theorem specAt_eq_iff_new_eq (children₁ children₂ : List RangeSpec) :
    (∀ i, specAt children₁ i = specAt children₂ i) ↔ new children₁ = new children₂ := by
  constructor
  · intro h
    have hitems := eq_of_nth_eq (isCanonical_new children₁) (isCanonical_new children₂) fun i => by
      have h₁ := nth_iter_new children₁ i
      have h₂ := nth_iter_new children₂ i
      rw [iter, RequestRangeSpecIter.new] at h₁ h₂
      rw [h₁, h₂, h]
    exact congrArg RangeSpecSeq.mk hitems
  · intro h i
    rw [← nth_iter_new, ← nth_iter_new, h]

end RangeSpecSeq

/-! ### What the iterator over the non-empty specs yields -/

namespace NonEmptyRequestRangeSpecIter

theorem nextLoop_succ (fuel : Nat) (inner : RequestRangeSpecIter) (count : Nat) :
    nextLoop (fuel + 1) inner count =
      if !inner.next.1.isEmpty then some ((count, inner.next.1), ⟨inner.next.2, count + 1⟩)
      else if inner.next.2.isAtEnd then none
      else nextLoop fuel inner.next.2 (count + 1) := rfl

/-- The loop stops at the first non-empty spec within its fuel. -/
theorem nextLoop_eq_some {fuel j : Nat} {inner : RequestRangeSpecIter} {count : Nat} (hj : j < fuel)
    (hne : (inner.nth j).isEmpty = false) (hempty : ∀ k < j, (inner.nth k).isEmpty = true) :
    nextLoop fuel inner count = some ((count + j, inner.nth j), ⟨inner.advance (j + 1), count + j + 1⟩) := by
  induction j generalizing fuel inner count with
  | zero =>
    obtain ⟨fuel, rfl⟩ := Nat.exists_eq_add_of_lt hj
    rw [Nat.add_zero, nextLoop_succ, if_pos (by simpa using hne)]
    rfl
  | succ j ih =>
    obtain ⟨fuel, rfl⟩ := Nat.exists_eq_add_of_lt hj
    have hcurr : inner.next.1.isEmpty = true := hempty 0 (Nat.succ_pos j)
    -- not at the end: there the empty spec just yielded would repeat forever
    have hnot : inner.next.2.isAtEnd = false := by
      cases hend : inner.next.2.isAtEnd
      · rfl
      · rw [RequestRangeSpecIter.nth_succ, RequestRangeSpecIter.nth_of_isAtEnd hend,
          RequestRangeSpecIter.current_next] at hne
        rw [hne] at hcurr
        cases hcurr
    rw [nextLoop_succ, if_neg (by simp [hcurr]), if_neg (by simp [hnot]),
      ih (by omega) hne fun k hk => hempty (k + 1) (by omega)]
    rw [show count + 1 + j = count + (j + 1) by omega]
    rfl

/-- The loop ends when no spec within its fuel is non-empty. -/
theorem nextLoop_eq_none {fuel : Nat} {inner : RequestRangeSpecIter} {count : Nat}
    (hempty : ∀ k < fuel, (inner.nth k).isEmpty = true) : nextLoop fuel inner count = none := by
  induction fuel generalizing inner count with
  | zero => rfl
  | succ fuel ih =>
    have hcurr : inner.next.1.isEmpty = true := hempty 0 (Nat.succ_pos fuel)
    rw [nextLoop_succ, if_neg (by simp [hcurr])]
    split_ifs
    · rfl
    · exact ih fun k hk => hempty (k + 1) (by omega)

/-- The offsets from `start` below `u64::MAX` whose spec is not empty, with their specs. -/
def nonEmptyFrom (base : RequestRangeSpecIter) (start : Nat) : List (Nat × RangeSpec) :=
  ((List.range' start (2 ^ 64 - 1 - start)).filter fun i => !(base.nth i).isEmpty).map fun i => (i, base.nth i)

theorem nonEmptyFrom_of_empty {base : RequestRangeSpecIter} {start : Nat}
    (h : ∀ k < 2 ^ 64 - 1 - start, (base.nth (start + k)).isEmpty = true) : nonEmptyFrom base start = [] := by
  rw [nonEmptyFrom, List.map_eq_nil_iff, List.filter_eq_nil_iff]
  intro i hi
  have hi' := List.mem_range'_1.mp hi
  have := h (i - start) (by omega)
  rw [show start + (i - start) = i by omega] at this
  simp [this]

theorem nonEmptyFrom_of_first {base : RequestRangeSpecIter} {start j : Nat} (hj : j < 2 ^ 64 - 1 - start)
    (hne : (base.nth (start + j)).isEmpty = false)
    (hempty : ∀ k < j, (base.nth (start + k)).isEmpty = true) :
    nonEmptyFrom base start = (start + j, base.nth (start + j)) :: nonEmptyFrom base (start + j + 1) := by
  have hsplit : List.range' start (2 ^ 64 - 1 - start) =
      List.range' start j ++ (start + j) :: List.range' (start + j + 1) (2 ^ 64 - 1 - (start + j + 1)) := by
    have hlen : 2 ^ 64 - 1 - start = j + ((2 ^ 64 - 1 - (start + j + 1)) + 1) := by omega
    rw [hlen, ← List.range'_append_1, List.range'_succ]
  have hpre : (List.range' start j).filter (fun i => !(base.nth i).isEmpty) = [] := by
    rw [List.filter_eq_nil_iff]
    intro i hi
    have hi' := List.mem_range'_1.mp hi
    have := hempty (i - start) (by omega)
    rw [show start + (i - start) = i by omega] at this
    simp [this]
  rw [nonEmptyFrom, hsplit, List.filter_append, hpre, List.nil_append, List.filter_cons, if_pos (by simp [hne]),
    List.map_cons, nonEmptyFrom]

/-- **From offset `start`, the iterator yields the non-empty specs below `u64::MAX` in
order, and then ends.** -/
theorem yields_advance (base : RequestRangeSpecIter) (n start : Nat) :
    yields n ⟨base.advance start, start⟩ = (nonEmptyFrom base start).take n := by
  induction n generalizing start with
  | zero => rfl
  | succ n ih =>
    rw [yields, next]
    simp only
    by_cases hex : ∃ j, j < 2 ^ 64 - 1 - start ∧ (base.nth (start + j)).isEmpty = false
    · classical
      let j := Nat.find hex
      have hj : j < 2 ^ 64 - 1 - start ∧ (base.nth (start + j)).isEmpty = false := Nat.find_spec hex
      have hempty : ∀ k < j, (base.nth (start + k)).isEmpty = true := fun k hk => by
        have := Nat.find_min hex hk
        cases hk' : (base.nth (start + k)).isEmpty
        · exact absurd ⟨by omega, hk'⟩ this
        · rfl
      have hnth : ∀ k, (base.advance start).nth k = base.nth (start + k) := fun k => RequestRangeSpecIter.nth_advance _ _ _
      rw [nextLoop_eq_some hj.1 (by rw [hnth]; exact hj.2) (fun k hk => by rw [hnth]; exact hempty k hk)]
      simp only
      rw [← RequestRangeSpecIter.advance_add, hnth, show start + (j + 1) = start + j + 1 by omega, ih,
        nonEmptyFrom_of_first hj.1 hj.2 hempty, List.take_succ_cons]
    · have hempty : ∀ k < 2 ^ 64 - 1 - start, (base.nth (start + k)).isEmpty = true := fun k hk => by
        cases hk' : (base.nth (start + k)).isEmpty
        · exact absurd ⟨k, hk, hk'⟩ hex
        · rfl
      rw [nextLoop_eq_none fun k hk => by rw [RequestRangeSpecIter.nth_advance]; exact hempty k hk]
      simp only
      rw [nonEmptyFrom_of_empty hempty, List.take_nil]

end NonEmptyRequestRangeSpecIter

namespace RangeSpecSeq

/-- **`iter_non_empty` yields the non-empty specs below offset `u64::MAX`, in order,
and then ends**, for every sequence of tuples. -/
theorem yields_iterNonEmpty (s : RangeSpecSeq) (n : Nat) :
    s.iterNonEmpty.yields n =
      (((List.range (2 ^ 64 - 1)).filter fun i => !(s.iter.nth i).isEmpty).map fun i => (i, s.iter.nth i)).take n := by
  have h := NonEmptyRequestRangeSpecIter.yields_advance s.iter n 0
  rw [NonEmptyRequestRangeSpecIter.nonEmptyFrom, Nat.sub_zero, ← List.range_eq_range'] at h
  exact h

/-- What a sequence of ranges stands for, and what its iterators yield: the ranges'
specs and then `EMPTY` (`from_ranges`) or the last spec (`from_ranges_infinite`)
forever; `new` makes canonical tuples, so two lists of specs give one value exactly
when they stand for one sequence; and `iter_non_empty` yields the non-empty specs
below offset `u64::MAX`, in order, ending when no such spec is left. -/
theorem range_spec_seq_denotes :
    (∀ (ranges : List ChunkRanges) (i : Nat),
      (fromRanges ranges).iter.nth i = ((ranges[i]?).map RangeSpec.new).getD RangeSpec.EMPTY) ∧
    (∀ (ranges : List ChunkRanges) (i : Nat),
      (fromRangesInfinite ranges).iter.nth i =
        ((ranges[min i (ranges.length - 1)]?).map RangeSpec.new).getD RangeSpec.EMPTY) ∧
    (∀ children : List RangeSpec, (new children).IsCanonical) ∧
    (∀ (children : List RangeSpec) (i : Nat), (new children).iter.nth i = specAt children i) ∧
    (∀ children₁ children₂ : List RangeSpec,
      (∀ i, specAt children₁ i = specAt children₂ i) ↔ new children₁ = new children₂) ∧
    (∀ (s : RangeSpecSeq) (n : Nat), s.iterNonEmpty.yields n =
      (((List.range (2 ^ 64 - 1)).filter fun i => !(s.iter.nth i).isEmpty).map fun i => (i, s.iter.nth i)).take n) :=
  ⟨nth_iter_fromRanges, nth_iter_fromRangesInfinite, isCanonical_new, nth_iter_new, specAt_eq_iff_new_eq,
    yields_iterNonEmpty⟩

/-- `iter_non_empty` yields its offsets in increasing order. -/
theorem yields_sorted (s : RangeSpecSeq) (n : Nat) :
    ((s.iterNonEmpty.yields n).map Prod.fst).Pairwise (· < ·) := by
  rw [yields_iterNonEmpty, ← List.map_take, List.map_map]
  have hid : (Prod.fst ∘ fun i => (i, s.iter.nth i)) = id := rfl
  rw [hid, List.map_id]
  exact ((List.pairwise_lt_range.filter _).sublist (List.take_sublist _ _))

/-- What `iter_non_empty` yields is a non-empty spec of the sequence, with its offset. -/
theorem mem_yields {s : RangeSpecSeq} {n : Nat} {x : Nat × RangeSpec} (hx : x ∈ s.iterNonEmpty.yields n) :
    x.2 = s.iter.nth x.1 ∧ (s.iter.nth x.1).isEmpty = false := by
  rw [yields_iterNonEmpty] at hx
  obtain ⟨i, hi, rfl⟩ := List.mem_map.mp (List.mem_of_mem_take hx)
  have := (List.mem_filter.mp hi).2
  exact ⟨rfl, by simpa using this⟩

/-- `iter_non_empty` yields at most `2 ^ 64 - 1` items. -/
theorem length_yields_iterNonEmpty_le (s : RangeSpecSeq) (n : Nat) :
    (s.iterNonEmpty.yields n).length ≤ 2 ^ 64 - 1 := by
  rw [yields_iterNonEmpty]
  calc _ ≤ (((List.range (2 ^ 64 - 1)).filter fun i => !(s.iter.nth i).isEmpty).map fun i => (i, s.iter.nth i)).length :=
        List.length_take_le' _ _
    _ ≤ (List.range (2 ^ 64 - 1)).length := by rw [List.length_map]; exact List.length_filter_le _ _
    _ = 2 ^ 64 - 1 := List.length_range

/-- All chunks of every blob: the spec at offset `u64::MAX` is not empty, but
`iter_non_empty` yields at most `2 ^ 64 - 1` items, so it ends before that offset. -/
theorem iter_non_empty_skips_last_offset :
    let s : RangeSpecSeq := fromRangesInfinite [ChunkRanges.ofRangeFrom 0]
    (s.iter.nth (2 ^ 64 - 1)).isEmpty = false ∧ ∀ n, (s.iterNonEmpty.yields n).length ≤ 2 ^ 64 - 1 := by
  refine ⟨?_, length_yields_iterNonEmpty_le _⟩
  rw [nth_iter_fromRangesInfinite, List.length_singleton, Nat.sub_self, Nat.min_zero]
  rfl

end RangeSpecSeq

namespace RangeSpecSeq

/-- A request for the blob at offset `o` alone: `EMPTY` before it, its spec at it, and
the second spec after it. -/
theorem nth_iter_single (o : Nat) (x e : RangeSpec) (i : Nat) :
    (⟨[(o, x), (1, e)]⟩ : RangeSpecSeq).iter.nth i = if i < o then RangeSpec.EMPTY else if i = o then x else e := by
  show (⟨RangeSpec.EMPTY, o, [(o, x), (1, e)]⟩ : RequestRangeSpecIter).nth i = _
  by_cases hlt : i < o
  · rw [if_pos hlt, RequestRangeSpecIter.nth_lt hlt]
  · obtain ⟨j, rfl⟩ := Nat.exists_eq_add_of_le (Nat.le_of_not_lt hlt)
    rw [if_neg hlt, RequestRangeSpecIter.nth_count_add, RequestRangeSpecIter.nth_take, firstCount_cons]
    cases j with
    | zero => rw [if_pos (Nat.add_zero o), RequestRangeSpecIter.nth_lt Nat.one_pos]
    | succ j =>
      rw [if_neg (by omega), RequestRangeSpecIter.nth_succ, RequestRangeSpecIter.next_of_pos Nat.one_pos,
        RequestRangeSpecIter.nth_take, firstCount_nil, RequestRangeSpecIter.nth_end]

/-- **A request for one blob yields it alone**, below offset `u64::MAX`. -/
theorem yields_single {o n : Nat} {x e : RangeSpec} (ho : o < 2 ^ 64 - 1) (hx : x.isEmpty = false)
    (he : e.isEmpty = true) :
    (⟨[(o, x), (1, e)]⟩ : RangeSpecSeq).iterNonEmpty.yields (n + 1) = [(o, x)] := by
  have hnth := nth_iter_single o x e
  have hfirst := @NonEmptyRequestRangeSpecIter.nonEmptyFrom_of_first (⟨[(o, x), (1, e)]⟩ : RangeSpecSeq).iter 0 o
    (by omega) (by rw [Nat.zero_add, hnth, if_neg (Nat.lt_irrefl o), if_pos rfl]; exact hx)
    (fun k hk => by rw [Nat.zero_add, hnth, if_pos hk]; rfl)
  have hrest := @NonEmptyRequestRangeSpecIter.nonEmptyFrom_of_empty (⟨[(o, x), (1, e)]⟩ : RangeSpecSeq).iter
    (0 + o + 1) fun k _ => by rw [hnth, if_neg (by omega), if_neg (by omega)]; exact he
  have h := NonEmptyRequestRangeSpecIter.yields_advance (⟨[(o, x), (1, e)]⟩ : RangeSpecSeq).iter (n + 1) 0
  rw [hfirst, hrest, Nat.zero_add, hnth, if_neg (Nat.lt_irrefl o), if_pos rfl] at h
  exact h.trans (List.take_of_length_le (by simp))

end RangeSpecSeq

namespace RangeSpecSeq

theorem asSingle_eq_some {s : RangeSpecSeq} {o : Nat} {x : RangeSpec} :
    s.asSingle = some (o, x) ↔ ∃ e, s.items = [(o, x), (1, e)] ∧ e.isEmpty = true := by
  obtain ⟨items⟩ := s
  simp only [asSingle]
  split
  · rename_i fstOfs fstVal sndOfs sndVal
    by_cases hsnd : (sndOfs == 1 && sndVal.isEmpty) = true
    · simp only [Bool.and_eq_true, beq_iff_eq] at hsnd
      rw [if_pos (by simp [hsnd])]
      simp [hsnd, and_comm]
    · rw [if_neg hsnd]
      simp only [Bool.and_eq_true, beq_iff_eq, not_and] at hsnd
      simp only [reduceCtorEq, false_iff, not_exists, not_and, List.cons.injEq, Prod.mk.injEq, and_true]
      rintro e ⟨-, rfl, rfl⟩ he
      exact hsnd rfl he
  · rename_i hnot
    simp only [reduceCtorEq, false_iff, not_exists, not_and]
    exact fun e he _ => hnot o x 1 e he

/-- A request of the root alone yields offset 0 at most. -/
theorem yields_of_asSingle {s : RangeSpecSeq} {spec : RangeSpec} (h : s.asSingle = some (0, spec)) (n : Nat) :
    ∀ x ∈ s.iterNonEmpty.yields n, x.1 = 0 := by
  obtain ⟨e, hitems, he⟩ := asSingle_eq_some.mp h
  obtain ⟨items⟩ := s
  subst hitems
  intro y hy
  obtain ⟨-, hne⟩ := mem_yields hy
  rw [nth_iter_single, if_neg (Nat.not_lt_zero _)] at hne
  by_contra hzero
  rw [if_neg hzero, he] at hne
  cases hne

end RangeSpecSeq

end Iroh.Blobs
