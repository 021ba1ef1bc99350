import Iroh.Docs.Ranger.Store

/-! Case 3 of a fingerprint part with the default `split_factor = 2`: the range
is cut at a pivot into two pieces that partition it (`splitRanges_partition`).

A range is read as the set of keys it holds (`Range.toSet`). A proper range
`⟨x, y⟩` cut at a key `p ≠ x` inside it is the disjoint union of `⟨x, p⟩` and
`⟨p, y⟩`, and for `x ≠ y` the ranges `⟨x, y⟩` and `⟨y, x⟩` are complements. The
pivots are local keys; with at least two of them, sorted, the first pivot is not
the range's start and both pieces hold a local key, which is the `non_empty > 1`
the source asserts after the split and what makes the recursion shrink. -/
namespace Iroh.Docs.Ranger

namespace Range
variable {K : Type} [LinearOrder K]

/-- The keys a range holds. -/
def toSet (r : Range K) : Set K := {t | r.contains t = true}

@[simp] theorem mem_toSet {r : Range K} {t : K} : t ∈ r.toSet ↔ r.contains t = true := Iff.rfl

/-- `contains` without the three-way match: the two proper shapes as implications. -/
theorem contains_iff (r : Range K) (t : K) :
    r.contains t = true ↔ (r.x < r.y → r.x ≤ t ∧ t < r.y) ∧ (r.y < r.x → r.x ≤ t ∨ t < r.y) := by
  rcases lt_trichotomy r.x r.y with h | h | h
  · rw [contains_of_lt h]
    simp [h, not_lt_of_gt h]
  · simp [contains_of_eq h, h]
  · rw [contains_of_gt h]
    simp [h, not_lt_of_gt h]

theorem toSet_of_isAll {r : Range K} (h : r.isAll = true) : r.toSet = Set.univ := by
  ext t
  simpa using contains_of_eq (by simpa [isAll] using h) t

section Cut
variable {x y p : K}

/-- Cutting `⟨x, y⟩` at a key `p ≠ x` inside it loses nothing... -/
theorem contains_split (hp : (⟨x, y⟩ : Range K).contains p = true) (hpx : p ≠ x)
    (t : K) : (⟨x, y⟩ : Range K).contains t = true ↔
      (⟨x, p⟩ : Range K).contains t = true ∨ (⟨p, y⟩ : Range K).contains t = true := by
  simp only [contains_iff] at *
  grind

/-- ...and the two pieces do not meet. -/
theorem disjoint_split (hxy : x ≠ y) (hp : (⟨x, y⟩ : Range K).contains p = true) (hpx : p ≠ x) :
    Disjoint (⟨x, p⟩ : Range K).toSet (⟨p, y⟩ : Range K).toSet := by
  rw [Set.disjoint_left]
  intro t h₁ h₂
  simp only [mem_toSet, contains_iff] at *
  -- the order of `x`, `y` and of `p`, `x` fixes the shape of all three ranges
  rcases lt_or_gt_of_ne hxy with h | h <;> rcases lt_or_gt_of_ne hpx with h' | h' <;> grind

/-- For `x ≠ y`, the range from `y` back to `x` is the complement of `⟨x, y⟩`. -/
theorem contains_swap (hxy : x ≠ y) (t : K) :
    (⟨y, x⟩ : Range K).contains t = !(⟨x, y⟩ : Range K).contains t := by
  rcases lt_or_gt_of_ne hxy with h | h
  · rw [Bool.eq_not_iff, ne_eq, Bool.eq_iff_iff, contains_of_gt h, contains_of_lt h]
    dsimp only
    grind
  · rw [Bool.eq_not_iff, ne_eq, Bool.eq_iff_iff, contains_of_lt h, contains_of_gt h]
    dsimp only
    grind

end Cut

end Range

/-! ### Sorted keys and the start index -/

section Sorted
variable {K : Type} [LinearOrder K]

theorem lt_of_getElem?_of_lt {ks : List K} (hs : ks.Pairwise (· < ·)) {i j : Nat} {a b : K}
    (hij : i < j) (ha : ks[i]? = some a) (hb : ks[j]? = some b) : a < b := by
  obtain ⟨hi, rfl⟩ := List.getElem?_eq_some_iff.mp ha
  obtain ⟨hj, rfl⟩ := List.getElem?_eq_some_iff.mp hb
  exact List.pairwise_iff_getElem.mp hs i j hi hj hij

/-- The keys before the start index are below `x`... -/
theorem lt_of_lt_length_takeWhile {ks : List K} {x a : K} {i : Nat}
    (hi : i < (ks.takeWhile fun k => decide (k < x)).length) (ha : ks[i]? = some a) : a < x := by
  induction ks generalizing i with
  | nil => simp at ha
  | cons k ks ih =>
    by_cases hk : k < x
    · cases i with
      | zero =>
        simp only [List.getElem?_cons_zero, Option.some.injEq] at ha
        exact ha ▸ hk
      | succ i =>
        simp [hk] at hi
        exact ih hi (by simpa using ha)
    · simp [hk] at hi

/-- ...and, the keys being sorted, the ones from it on are at least `x`. -/
theorem le_of_length_takeWhile_le {ks : List K} (hs : ks.Pairwise (· < ·)) {x a : K} {i : Nat}
    (hi : (ks.takeWhile fun k => decide (k < x)).length ≤ i) (ha : ks[i]? = some a) : x ≤ a := by
  induction ks generalizing i with
  | nil => simp at ha
  | cons k ks ih =>
    by_cases hk : k < x
    · cases i with
      | zero => simp [hk] at hi
      | succ i =>
        simp [hk] at hi
        exact ih hs.of_cons hi (by simpa using ha)
    · have hkx : x ≤ k := not_lt.mp hk
      cases i with
      | zero =>
        simp only [List.getElem?_cons_zero, Option.some.injEq] at ha
        exact ha ▸ hkx
      | succ i =>
        have hka : k < a := (List.pairwise_cons.mp hs).1 a (List.mem_of_getElem? (by simpa using ha))
        exact hkx.trans hka.le

end Sorted

/-! ### The pivots of a split in two -/

section Pivot
variable {E K V : Type} [LinearOrder K] (R : RangeEntry E K V)

omit [LinearOrder K] in
/-- A pivot is the local key at its offset: the `expect` never fires. -/
theorem getElem?_pivot (L : List E) (k start : Nat) (x : K) (i : Nat) (hn : 0 < L.length) :
    (L.map R.key)[(start + L.length * (i % k + 1) / k) % L.length]? =
      some (pivot R k L start x i) := by
  have hlt := Nat.mod_lt (start + L.length * (i % k + 1) / k) hn
  simp [pivot, hlt]

omit [LinearOrder K] in
theorem pivot_mem (L : List E) (k start : Nat) (x : K) (i : Nat) (hn : 0 < L.length) :
    ∃ e ∈ L, R.key e = pivot R k L start x i := by
  have h := List.mem_of_getElem? (getElem?_pivot R L k start x i hn)
  simpa using h

omit [LinearOrder K] in
/-- With `k = 2` the pivots alternate: index `i + 2` is index `i`. -/
theorem pivot_two_add_two (L : List E) (start : Nat) (x : K) (i : Nat) :
    pivot R 2 L start x (i + 2) = pivot R 2 L start x i := by
  simp [pivot]

/-- `splitRanges` with `k = 2`: the whole set is cut at both pivots, any other range
at the first. -/
theorem splitRanges_two (L : List E) (r : Range K) :
    splitRanges R 2 L r =
      let start := (L.takeWhile fun e => decide (R.key e < r.x)).length
      let p := pivot R 2 L start r.x
      if r.isAll then (if p 0 ≠ p 1 then [⟨p 0, p 1⟩, ⟨p 1, p 0⟩] else [])
      else [⟨r.x, p 0⟩, ⟨p 0, r.y⟩] := by
  have h2 := pivot_two_add_two R L (L.takeWhile fun e => decide (R.key e < r.x)).length r.x 0
  simp only [zero_add] at h2
  unfold splitRanges
  split
  · simp only [List.range_succ, List.range_zero, List.nil_append, List.cons_append,
      List.filterMap_cons, List.filterMap_nil, zero_add, Nat.reduceAdd, h2]
    generalize pivot R 2 L (L.takeWhile fun e => decide (R.key e < r.x)).length r.x 0 = a
    generalize pivot R 2 L (L.takeWhile fun e => decide (R.key e < r.x)).length r.x 1 = b
    by_cases hab : a = b
    · simp [hab]
    · simp [hab, Ne.symm hab]
  · rfl

/-- The start index counted on the entries is the one counted on their keys. -/
theorem length_takeWhile_key (L : List E) (x : K) :
    (L.takeWhile fun e => decide (R.key e < x)).length =
      ((L.map R.key).takeWhile fun k => decide (k < x)).length := by
  rw [List.takeWhile_map, List.length_map]
  rfl

/-- Half a turn on a circle of `n ≥ 2` places moves. -/
theorem add_half_mod_ne (start : Nat) {n : Nat} (hn : 2 ≤ n) : (start + n / 2) % n ≠ start % n := by
  rw [Nat.add_mod, Nat.mod_eq_of_lt (show n / 2 < n by omega)]
  have ha : start % n < n := Nat.mod_lt _ (by omega)
  rcases Nat.lt_or_ge (start % n + n / 2) n with h | h
  · rw [Nat.mod_eq_of_lt h]
    omega
  · rw [Nat.mod_eq_sub_mod h, Nat.mod_eq_of_lt (by omega)]
    omega

variable {L : List E} (hs : (L.map R.key).Pairwise (· < ·)) (hn : 2 ≤ L.length)
include hs hn

/-- The two pivots of the whole set are different local keys. -/
theorem pivot_zero_ne_one (start : Nat) (x : K) :
    pivot R 2 L start x 0 ≠ pivot R 2 L start x 1 := by
  have h0 := getElem?_pivot R L 2 start x 0 (by omega)
  have h1 := getElem?_pivot R L 2 start x 1 (by omega)
  simp only [Nat.zero_mod, zero_add, mul_one, Nat.one_mod, Nat.reduceAdd] at h0 h1
  have hne : (start + L.length / 2) % L.length ≠ (start + L.length * 2 / 2) % L.length := by
    rw [Nat.mul_div_cancel _ (by decide), Nat.add_mod_right]
    exact add_half_mod_ne start hn
  intro heq
  rw [heq] at h0
  rcases lt_or_gt_of_ne hne with h | h
  · exact lt_irrefl _ (lt_of_getElem?_of_lt hs h h0 h1)
  · exact lt_irrefl _ (lt_of_getElem?_of_lt hs h h1 h0)

/-- With at least two local entries, a range is cut into exactly two pieces. -/
theorem splitRanges_two_pair (r : Range K) : ∃ q₁ q₂, splitRanges R 2 L r = [q₁, q₂] := by
  rw [splitRanges_two]
  dsimp only
  split
  · rw [if_pos (pivot_zero_ne_one R hs hn _ _)]
    exact ⟨_, _, rfl⟩
  · exact ⟨_, _, rfl⟩

/-- The first pivot is not `x`, and the piece from `x` to it holds a local key: the
key at the start index, read with wrap-around. -/
theorem pivot_zero_spec (x : K) :
    let p := pivot R 2 L ((L.takeWhile fun e => decide (R.key e < x)).length) x 0
    p ≠ x ∧ ∃ e ∈ L, (⟨x, p⟩ : Range K).contains (R.key e) = true := by
  intro p
  set ks := L.map R.key
  set n := L.length
  set start := (L.takeWhile fun e => decide (R.key e < x)).length with hstart
  have hks : ks.length = n := List.length_map _
  have hstart' : start = (ks.takeWhile fun k => decide (k < x)).length := length_takeWhile_key R L x
  have hle : start ≤ n := by
    rw [hstart', ← hks]
    exact (List.takeWhile_prefix _).length_le
  have hp := getElem?_pivot R L 2 start x 0 (by omega)
  simp only [Nat.zero_mod, zero_add, mul_one] at hp
  obtain ⟨q, hq⟩ : ∃ q, ks[start % n]? = some q :=
    ⟨_, List.getElem?_eq_getElem (by rw [hks]; exact Nat.mod_lt _ (by omega))⟩
  have hqL : ∃ e ∈ L, R.key e = q := by simpa [ks] using List.mem_of_getElem? hq
  obtain ⟨e, he, hkey⟩ := hqL
  suffices p ≠ x ∧ (⟨x, p⟩ : Range K).contains q = true from ⟨this.1, e, he, hkey ▸ this.2⟩
  rcases Nat.lt_or_ge start n with hlt | hge
  · rw [Nat.mod_eq_of_lt hlt] at hq
    have hxq : x ≤ q := le_of_length_takeWhile_le hs hstart'.ge hq
    rcases Nat.lt_or_ge (start + n / 2) n with hlt' | hge'
    · -- the first pivot lies after the start, inside `[x, ∞)`
      rw [Nat.mod_eq_of_lt hlt'] at hp
      have hqp : q < p := lt_of_getElem?_of_lt hs (by omega) hq hp
      have hxp : x < p := lt_of_le_of_lt hxq hqp
      exact ⟨ne_of_gt hxp, (Range.contains_of_lt hxp q).mpr ⟨hxq, hqp⟩⟩
    · -- the first pivot wrapped around, below `x`
      have hidx : (start + n / 2) % n = start + n / 2 - n := by
        rw [Nat.mod_eq_sub_mod hge', Nat.mod_eq_of_lt (by omega)]
      rw [hidx] at hp
      have hpx : p < x := lt_of_lt_length_takeWhile (by rw [← hstart']; omega) hp
      exact ⟨ne_of_lt hpx, (Range.contains_of_gt hpx q).mpr (Or.inl hxq)⟩
  · -- every key is below `x`: the start wraps to the first key
    have hsn : start = n := le_antisymm hle hge
    rw [hsn, Nat.mod_self] at hq
    have hidx : (start + n / 2) % n = n / 2 := by
      rw [hsn, Nat.add_mod_left, Nat.mod_eq_of_lt (by omega)]
    rw [hidx] at hp
    have hqp : q < p := lt_of_getElem?_of_lt hs (by omega) hq hp
    have hhalf : n / 2 < (ks.takeWhile fun k => decide (k < x)).length := by
      rw [← hstart', hsn]
      omega
    have hpx : p < x := lt_of_lt_length_takeWhile hhalf hp
    exact ⟨ne_of_lt hpx, (Range.contains_of_gt hpx q).mpr (Or.inr hqp)⟩

end Pivot

/-! ### The pieces partition the range -/

section Partition
variable {K : Type} [LinearOrder K]

/-- `pieces` cut `r` into disjoint sub-ranges that together hold all of it, each
holding one of the keys `ks`. -/
structure Partition (r : Range K) (ks : List K) (pieces : List (Range K)) : Prop where
  sub : ∀ q ∈ pieces, q.toSet ⊆ r.toSet
  disjoint : pieces.Pairwise fun a b => Disjoint a.toSet b.toSet
  cover : ∀ t ∈ r.toSet, ∃ q ∈ pieces, t ∈ q.toSet
  occupied : ∀ q ∈ pieces, ∃ k ∈ ks, k ∈ q.toSet

/-- Of two pieces that partition a range, neither is the whole set: each holds a key
the other does not. -/
theorem Partition.ne_of_pair {r : Range K} {ks : List K} {q₁ q₂ : Range K}
    (h : Partition r ks [q₁, q₂]) : q₁.x ≠ q₁.y ∧ q₂.x ≠ q₂.y := by
  obtain ⟨k₁, -, hk₁⟩ := h.occupied q₁ (List.mem_cons_self ..)
  obtain ⟨k₂, -, hk₂⟩ := h.occupied q₂ (List.mem_cons_of_mem _ (List.mem_cons_self ..))
  have hdis := List.pairwise_pair.mp h.disjoint
  constructor
  · intro heq
    exact Set.disjoint_left.mp hdis (Range.contains_of_eq heq k₂) hk₂
  · intro heq
    exact Set.disjoint_left.mp hdis hk₁ (Range.contains_of_eq heq k₁)

variable {E V : Type} (R : RangeEntry E K V)

/-- Case 3 with `split_factor = 2`: when at least two local entries, sorted by key,
lie in the range, its pieces partition it. -/
theorem splitRanges_partition {L : List E} {r : Range K} (hs : (L.map R.key).Pairwise (· < ·))
    (hin : ∀ e ∈ L, r.contains (R.key e) = true) (hn : 2 ≤ L.length) :
    Partition r (L.map R.key) (splitRanges R 2 L r) := by
  rw [splitRanges_two]
  dsimp only
  split
  · -- the whole set: cut at both pivots, which are different local keys
    rename_i hall
    set start := (L.takeWhile fun e => decide (R.key e < r.x)).length
    have hne := pivot_zero_ne_one R hs hn start r.x
    obtain ⟨e₀, he₀, hk₀⟩ := pivot_mem R L 2 start r.x 0 (by omega)
    obtain ⟨e₁, he₁, hk₁⟩ := pivot_mem R L 2 start r.x 1 (by omega)
    rw [if_pos hne]
    refine ⟨fun q _ => by simp [Range.toSet_of_isAll hall], ?_, fun t _ => ?_, ?_⟩
    · refine List.pairwise_pair.mpr (Set.disjoint_left.mpr fun t h₁ h₂ => ?_)
      rw [Range.mem_toSet] at h₁ h₂
      rw [Range.contains_swap hne, h₁] at h₂
      exact absurd h₂ (by decide)
    · by_cases ht : (⟨pivot R 2 L start r.x 0, pivot R 2 L start r.x 1⟩ : Range K).contains t
      · exact ⟨_, List.mem_cons_self .., ht⟩
      · refine ⟨_, List.mem_cons_of_mem _ (List.mem_cons_self ..), ?_⟩
        simp [Range.contains_swap hne, ht]
    · intro q hq
      simp only [List.mem_cons, List.not_mem_nil, or_false] at hq
      rcases hq with rfl | rfl
      · exact ⟨_, List.mem_map_of_mem he₀, hk₀ ▸ Range.contains_x _⟩
      · exact ⟨_, List.mem_map_of_mem he₁, hk₁ ▸ Range.contains_x _⟩
  · -- a proper range: cut at the first pivot
    rename_i hall
    have hxy : r.x ≠ r.y := by simpa [Range.isAll] using hall
    obtain ⟨hpx, e, he, hx⟩ := pivot_zero_spec R hs hn r.x
    obtain ⟨e₀, he₀, hk₀⟩ := pivot_mem R L 2
      ((L.takeWhile fun e => decide (R.key e < r.x)).length) r.x 0 (by omega)
    set p := pivot R 2 L ((L.takeWhile fun e => decide (R.key e < r.x)).length) r.x 0
    have hp : (⟨r.x, r.y⟩ : Range K).contains p = true := by
      rw [← hk₀]
      exact hin e₀ he₀
    have hsplit := Range.contains_split hp hpx
    refine ⟨fun q hq t ht => ?_, ?_, fun t ht => ?_, ?_⟩
    · simp only [List.mem_cons, List.not_mem_nil, or_false] at hq
      rcases hq with rfl | rfl <;> simp_all
    · exact List.pairwise_pair.mpr (Range.disjoint_split hxy hp hpx)
    · rcases (hsplit t).mp ht with h | h
      · exact ⟨_, List.mem_cons_self .., h⟩
      · exact ⟨_, List.mem_cons_of_mem _ (List.mem_cons_self ..), h⟩
    · intro q hq
      simp only [List.mem_cons, List.not_mem_nil, or_false] at hq
      rcases hq with rfl | rfl
      · exact ⟨_, List.mem_map_of_mem he, hx⟩
      · exact ⟨_, List.mem_map_of_mem he₀, hk₀ ▸ Range.contains_x _⟩

end Partition

end Iroh.Docs.Ranger
