import Iroh.Lib.IndexSet

/-! The random choices and the cache of the gossip protocols (`util.rs`).

`Rng` is what the protocols take from the `rand` crate: `gen_range(0..n)`, a number
below `n`, and the generator after it. On it stand `shuffle`, rand's
Fisher–Yates shuffle of a slice, and `choose`, which picks the element at a
generated index among those an iterator yields (rand's reservoir sampling draws a
different number of values, but picks among the same elements). The random
helpers of `util::IndexSet` are these applied to the set's elements in order.

A `TimeBoundCache` is a map whose entries carry an expiry instant. The source
keeps the expiries a second time, in a `TimerMap`, to find the expired ones fast;
here `expire_until` removes exactly the entries whose instant is not after the
given one, which is what the two together do. Instants are numbers. -/

namespace Iroh.Gossip

/-- A random number generator: `genRange g n` is `gen_range(0..n)` and the generator
after it. -/
structure Rng (G : Type) where
  genRange : G → Nat → Nat × G
  genRange_lt : ∀ g n, 0 < n → (genRange g n).1 < n

/-- Exchange the elements at two indices, if both exist. -/
def swapAt {α : Type} (l : List α) (a b : Nat) : List α :=
  match l[a]?, l[b]? with
  | some x, some y => (l.set a y).set b x
  | _, _ => l

namespace Rng

variable {G α : Type} (R : Rng G)

/-- The Fisher–Yates passes of `shuffle`: swap index `i` with a generated index up to
`i`, for `i` down to 1. -/
def shuffleFrom : Nat → List α → G → List α × G
  | 0, l, g => (l, g)
  | i + 1, l, g =>
    let (j, g) := R.genRange g (i + 2)
    shuffleFrom i (swapAt l (i + 1) j) g

/-- `SliceRandom::shuffle`. -/
def shuffle (l : List α) (g : G) : List α × G := R.shuffleFrom (l.length - 1) l g

/-- `IteratorRandom::choose`: an element at a generated index, `None` if there is none. -/
def choose (l : List α) (g : G) : Option α × G :=
  if l.length = 0 then (none, g)
  else
    let (i, g) := R.genRange g l.length
    (l[i]?, g)

end Rng

end Iroh.Gossip

/-! ### The random helpers of `util::IndexSet` -/

namespace IndexSet

open Iroh.Gossip

variable {G α : Type} (R : Rng G)

/-- `pick_random_index`: a generated index, `None` for the empty set. -/
def pickRandomIndex (s : IndexSet α) (g : G) : Option Nat × G :=
  if s.len = 0 then (none, g)
  else
    let (i, g) := R.genRange g s.len
    (some i, g)

/-- `remove_random`: remove the element at a generated index, keeping the order. -/
def removeRandom (s : IndexSet α) (g : G) : Option α × IndexSet α × G :=
  match pickRandomIndex R s g with
  | (some i, g) =>
    let (a, s) := s.shiftRemoveIndex i
    (a, s, g)
  | (none, g) => (none, s, g)

/-- `pick_random`: the element at a generated index. -/
def pickRandom (s : IndexSet α) (g : G) : Option α × G :=
  match pickRandomIndex R s g with
  | (some i, g) => (s.getIndex i, g)
  | (none, g) => (none, g)

/-- `shuffled_and_capped`: at most `len` elements, in random order. -/
def shuffledAndCapped (s : IndexSet α) (len : Nat) (g : G) : List α × G :=
  let (l, g) := R.shuffle s.toList g
  (l.take len, g)

theorem pickRandomIndex_lt {s : IndexSet α} {g g' : G} {i : Nat}
    (h : pickRandomIndex R s g = (some i, g')) : i < s.len := by
  unfold pickRandomIndex at h
  split at h
  · cases h
  · rename_i hs
    simp only [Prod.mk.injEq, Option.some.injEq] at h
    rw [← h.1]
    exact R.genRange_lt g s.len (Nat.pos_of_ne_zero hs)

theorem pickRandomIndex_isSome {s : IndexSet α} (g : G) (h : s.len ≠ 0) :
    (pickRandomIndex R s g).1.isSome := by
  simp [pickRandomIndex, h]

/-- On a set that is not empty, a random removal takes out one element. -/
theorem len_removeRandom {s : IndexSet α} (g : G) (h : s.len ≠ 0) :
    (removeRandom R s g).2.1.len = s.len - 1 := by
  unfold removeRandom
  split
  · rename_i i g' hi
    rw [len_shiftRemoveIndex, if_pos (pickRandomIndex_lt R hi)]
  · rename_i g' hn
    have := pickRandomIndex_isSome R g h
    rw [hn] at this
    cases this

variable [DecidableEq α]

/-- `pick_random_without`: a random element not in `without`. -/
def pickRandomWithout (s : IndexSet α) (without : List α) (g : G) : Option α × G :=
  R.choose (s.toList.filter (· ∉ without)) g

/-- `iter_without`: the elements other than `a`, in order. -/
def iterWithout (s : IndexSet α) (a : α) : List α := s.toList.filter (· ≠ a)

/-- `shuffled_without_and_capped`: at most `len` elements not in `without`, in random order. -/
def shuffledWithoutAndCapped (s : IndexSet α) (without : List α) (len : Nat) (g : G) :
    List α × G :=
  let (l, g) := R.shuffle (s.toList.filter (· ∉ without)) g
  (l.take len, g)

/-- A random removal takes out at most the element it returns. -/
theorem mem_removeRandom {s : IndexSet α} {g : G} {x : α} :
    x ∈ (removeRandom R s g).2.1 ↔ x ∈ s ∧ (removeRandom R s g).1 ≠ some x := by
  unfold removeRandom
  split
  · exact mem_shiftRemoveIndex
  · simp

/-- With every element excluded, there is nothing to pick, and no number is drawn. -/
theorem pickRandomWithout_of_forall_mem {s : IndexSet α} {without : List α} (g : G)
    (h : ∀ a ∈ s, a ∈ without) : pickRandomWithout R s without g = (none, g) := by
  have hnil : s.toList.filter (· ∉ without) = [] :=
    List.filter_eq_nil_iff.mpr fun a ha => by simpa using h a ha
  simp only [pickRandomWithout, hnil, Rng.choose, List.length_nil, if_true]

end IndexSet

namespace Iroh.Gossip

/-- `TimeBoundCache`: keys with a value and an expiry instant. -/
structure TimeBoundCache (K V : Type) where
  entries : List (K × Nat × V)

namespace TimeBoundCache

variable {K V : Type} [DecidableEq K]

/-- The empty cache. -/
def empty : TimeBoundCache K V := ⟨[]⟩

/-- `remove`. -/
def remove (c : TimeBoundCache K V) (key : K) : TimeBoundCache K V :=
  ⟨c.entries.filter (·.1 ≠ key)⟩

/-- `insert`: replace the key's entry. -/
def insert (c : TimeBoundCache K V) (key : K) (value : V) (expires : Nat) : TimeBoundCache K V :=
  ⟨(c.remove key).entries ++ [(key, expires, value)]⟩

/-- `contains_key`. -/
def containsKey (c : TimeBoundCache K V) (key : K) : Bool := c.entries.any (·.1 = key)

/-- `get`. -/
def get (c : TimeBoundCache K V) (key : K) : Option V :=
  (c.entries.find? (·.1 = key)).map (·.2.2)

/-- `expire_until`: drop every entry whose expiry is not after `instant`. -/
def expireUntil (c : TimeBoundCache K V) (instant : Nat) : TimeBoundCache K V :=
  ⟨c.entries.filter (instant < ·.2.1)⟩

@[simp] theorem containsKey_empty (key : K) : (empty : TimeBoundCache K V).containsKey key = false :=
  rfl

@[simp] theorem containsKey_insert {c : TimeBoundCache K V} {key x : K} {value : V} {expires : Nat} :
    (c.insert key value expires).containsKey x = true ↔ x = key ∨ c.containsKey x = true := by
  simp only [containsKey, insert, remove, List.any_append, List.any_filter, Bool.or_eq_true,
    List.any_eq_true, Bool.and_eq_true, decide_eq_true_eq, List.any_cons, List.any_nil,
    Bool.or_false]
  constructor
  · rintro (⟨e, he, hne, rfl⟩ | rfl)
    · exact Or.inr ⟨e, he, rfl⟩
    · exact Or.inl rfl
  · rintro (rfl | ⟨e, he, rfl⟩)
    · exact Or.inr rfl
    · by_cases hk : e.1 = key
      · exact Or.inr hk.symm
      · exact Or.inl ⟨e, he, hk, rfl⟩

end TimeBoundCache

end Iroh.Gossip
