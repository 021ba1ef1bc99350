import Mathlib

/-! A cache of the `k` most recently used elements, the most recent first.

`touch k C a` uses `a` in the cache `C`: `a` moves to the front if it is in `C`; else it
goes in front and, when the cache is full, the least recently used element, at the end,
drops out. What a history of uses (oldest first) means is `latestFirst`: its distinct
elements ordered by their last use, the latest first. The cache after a history holds
the first `k` of them (`foldl_touch`), because using an element commutes with keeping
the first `k` (`take_cons_erase`). -/

namespace Lru

variable {α : Type} [DecidableEq α]

/-- The distinct elements of a history, each at its last use, the latest first. -/
def latestFirst (history : List α) : List α := history.dedup.reverse

/-- Use `a` in a cache of at most `k` elements, the latest first. -/
def touch (k : Nat) (C : List α) (a : α) : List α :=
  if a ∈ C then a :: C.erase a else (a :: C).take k

/-! ### The last uses of a history -/

theorem dedup_append_singleton (l : List α) (a : α) : (l ++ [a]).dedup = l.dedup.erase a ++ [a] := by
  induction l with
  | nil => simp
  | cons x l ih =>
    rw [List.cons_append]
    by_cases hx : x ∈ l
    · rw [List.dedup_cons_of_mem (List.mem_append_left _ hx), ih, List.dedup_cons_of_mem hx]
    · by_cases hxa : x = a
      · subst hxa
        have hnot : x ∉ l.dedup := by simpa [List.mem_dedup] using hx
        rw [List.dedup_cons_of_mem (by simp), ih, List.dedup_cons_of_notMem hx, List.erase_cons_head,
          List.erase_of_not_mem hnot]
      · rw [List.dedup_cons_of_notMem (by simp [hx, hxa]), ih, List.dedup_cons_of_notMem hx,
          List.erase_cons_tail (by simpa using hxa), List.cons_append]

theorem erase_eq_filter {l : List α} (h : l.Nodup) (a : α) : l.erase a = l.filter (· ≠ a) := by
  rw [h.erase_eq_filter]
  simp only [ne_eq, decide_not]
  rfl

theorem erase_reverse {l : List α} (h : l.Nodup) (a : α) : (l.erase a).reverse = l.reverse.erase a := by
  rw [h.erase_eq_filter, (List.nodup_reverse.mpr h).erase_eq_filter, List.filter_reverse]

theorem latestFirst_append_singleton (l : List α) (a : α) :
    latestFirst (l ++ [a]) = a :: (latestFirst l).erase a := by
  rw [latestFirst, dedup_append_singleton, List.reverse_append, List.reverse_singleton,
    List.singleton_append, latestFirst, erase_reverse (List.nodup_dedup l)]

theorem take_latestFirst_eq_nil {k : Nat} (hk : 0 < k) (l : List α) :
    (latestFirst l).take k = [] ↔ l = [] := by
  rw [List.take_eq_nil_iff, latestFirst, List.reverse_eq_nil_iff, List.dedup_eq_nil]
  exact or_iff_right (Nat.pos_iff_ne_zero.mp hk)

/-! ### Keeping the first `k` -/

theorem erase_take_of_mem {l : List α} {a : α} {n : Nat} (h : a ∈ l.take n) :
    (l.take n).erase a = (l.erase a).take (n - 1) := by
  induction l generalizing n with
  | nil => simp at h
  | cons x l ih =>
    cases n with
    | zero => simp at h
    | succ n =>
      rw [List.take_succ_cons]
      by_cases hx : x = a
      · subst hx
        simp
      · have ha : a ∈ l.take n := by
          rcases List.mem_cons.mp (List.take_succ_cons ▸ h) with h | h
          · exact absurd h.symm hx
          · exact h
        have hn : n ≠ 0 := by
          rintro rfl
          simp at ha
        obtain ⟨m, rfl⟩ := Nat.exists_eq_succ_of_ne_zero hn
        rw [List.erase_cons_tail (by simpa using hx), ih ha, List.erase_cons_tail (by simpa using hx),
          Nat.add_sub_cancel, List.take_succ_cons, Nat.succ_sub_one]

theorem take_erase_of_not_mem {l : List α} {a : α} {n : Nat} (h : a ∉ l.take n) :
    (l.erase a).take n = l.take n := by
  induction l generalizing n with
  | nil => simp
  | cons x l ih =>
    cases n with
    | zero => rfl
    | succ n =>
      rw [List.take_succ_cons, List.mem_cons, not_or] at h
      rw [List.erase_cons_tail (by simpa using Ne.symm h.1), List.take_succ_cons, List.take_succ_cons,
        ih h.2]

/-- Using an element and then keeping the first `k` is using it in the first `k`. -/
theorem take_cons_erase (k : Nat) (L : List α) (a : α) :
    (a :: L.erase a).take k = touch k (L.take k) a := by
  unfold touch
  by_cases hm : a ∈ L.take k
  · rw [if_pos hm, erase_take_of_mem hm]
    have hk : k ≠ 0 := by
      rintro rfl
      simp at hm
    obtain ⟨m, rfl⟩ := Nat.exists_eq_succ_of_ne_zero hk
    rw [List.take_succ_cons, Nat.succ_sub_one]
  · rw [if_neg hm]
    cases k with
    | zero => rfl
    | succ m =>
      have hm' : a ∉ L.take m := fun h => hm (by
        rw [← Nat.min_eq_left (Nat.le_succ m), ← List.take_take] at h
        exact List.mem_of_mem_take h)
      rw [List.take_succ_cons, List.take_succ_cons, take_erase_of_not_mem hm', List.take_take,
        Nat.min_eq_left (Nat.le_succ m)]

/-- **The cache after a history** holds the `k` elements last used, the latest first. -/
theorem foldl_touch (k : Nat) (history : List α) :
    history.foldl (touch k) [] = (latestFirst history).take k := by
  induction history using List.reverseRecOn with
  | nil => simp [latestFirst]
  | append_singleton l a ih =>
    rw [List.foldl_append, ih, List.foldl_cons, List.foldl_nil, ← take_cons_erase,
      latestFirst_append_singleton]

end Lru
