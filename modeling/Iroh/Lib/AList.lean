import Mathlib

/-! Lookups in an association list after an erase or an insert.

The models keep the repository's hash maps (the relay server's clients, a node's topics,
the zone caches, the docs actor's open replicas) as `AList`s. What a lookup finds after
`erase a` is what it found before, at a key other than `a` (`lookup_erase_eq_some`); after
`insert a v`, either `v` at `a` or what it found before elsewhere (`lookup_insert_eq_some`). -/

namespace AList

variable {α : Type} [DecidableEq α]

/-- A key found after an erase is another key, found before it. -/
theorem lookup_erase_eq_some {β : α → Type} {l : AList β} {a a' : α} {b : β a'}
    (h : (l.erase a).lookup a' = some b) : a' ≠ a ∧ l.lookup a' = some b := by
  have hne : a' ≠ a := by
    rintro rfl
    rw [lookup_erase] at h
    cases h
  exact ⟨hne, by rwa [lookup_erase_ne hne] at h⟩

theorem lookup_of_lookup_erase {β : α → Type} {l : AList β} {a a' : α} {b : β a'}
    (h : (l.erase a).lookup a' = some b) : l.lookup a' = some b :=
  (lookup_erase_eq_some h).2

theorem lookup_erase_of_lookup_eq_none {β : α → Type} {l : AList β} {a a' : α}
    (h : l.lookup a' = none) : (l.erase a).lookup a' = none := by
  rcases he : (l.erase a).lookup a' with _ | b
  · rfl
  · rw [lookup_of_lookup_erase he] at h
    cases h

theorem lookup_insert_eq_some {β : Type} {l : AList fun _ : α => β} {a a' : α} {v b : β} :
    (l.insert a v).lookup a' = some b ↔ a' = a ∧ v = b ∨ a' ≠ a ∧ l.lookup a' = some b := by
  by_cases e : a' = a
  · subst e
    simp [lookup_insert]
  · simp [lookup_insert_ne e, e]

end AList
