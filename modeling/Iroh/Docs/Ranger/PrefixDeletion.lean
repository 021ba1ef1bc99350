import Iroh.Docs.Ranger.SimpleStore
import Iroh.Lib.MaxInsert

/-! Prefix deletion is keeping the maximal entries of an order.

An entry `d` *dominates* `e` when `d`'s key is a prefix of (or equal to) `e`'s
and `e`'s value is at most `d`'s: `Store::put` refuses an entry that a stored
one dominates and deletes the stored entries it dominates. Dominance is a
partial order on entries (`Dominated`), under which `put` on a `SimpleStore` is
`MaxInsert.insert` (`mem_put`). The invariant of a store, that no entry
dominates another (`PrefixDominance`), is then incomparability, and the test's
reference `insert_if_larger` keeps exactly the maximal entries of everything it
was given (`mem_referenceSet`). -/
namespace Iroh.Docs.Ranger

variable {K V : Type} [LinearOrder K] [RangeKey K] [LinearOrder V]

/-- `d` dominates `e` (`e` is below `d`): `d`'s key is a prefix of `e`'s and `e`'s
value is at most `d`'s. This is the order in which `put` deletes. -/
def Dominated (e d : K × V) : Prop := RangeKey.isPrefixOf d.1 e.1 = true ∧ e.2 ≤ d.2

instance : DecidableRel (Dominated (K := K) (V := V)) :=
  fun _ _ => inferInstanceAs (Decidable (_ ∧ _))

instance : IsPartialOrder (K × V) Dominated where
  refl _ := ⟨RangeKey.prefix_refl _, le_rfl⟩
  trans _ _ _ hab hbc := ⟨RangeKey.prefix_trans _ _ _ hbc.1 hab.1, hab.2.trans hbc.2⟩
  antisymm _ _ hab hba := Prod.ext (RangeKey.prefix_antisymm _ _ hba.1 hab.1) (le_antisymm hab.2 hba.2)

namespace SimpleStore

/-- The prefix-dominance invariant: no stored entry dominates another. -/
def PrefixDominance (s : SimpleStore K V) : Prop :=
  ∀ d ∈ s.entries, ∀ e ∈ s.entries, RangeKey.isPrefixOf d.1 e.1 = true → e.2 ≤ d.2 → d = e

instance (s : SimpleStore K V) : Decidable s.PrefixDominance :=
  inferInstanceAs (Decidable (∀ d ∈ s.entries, ∀ e ∈ s.entries, _ → _ → _))

theorem prefixDominance_iff (s : SimpleStore K V) :
    s.PrefixDominance ↔ MaxInsert.Incomparable Dominated s.entries :=
  ⟨fun h a ha b hb hab => (h b hb a ha hab.1 hab.2).symm,
    fun h d hd e he hp hv => (h e he d hd ⟨hp, hv⟩).symm⟩

/-- `insert_if_larger` of the tests, on the map's sorted entries. -/
def insertIfLarger (map : List (K × V)) (key : K) (value : V) : List (K × V) :=
  let insert := !map.any fun (k, v) => RangeKey.isPrefixOf k key && decide (value ≤ v)
  if insert then
    insertKey key value (map.filter fun (k, v) => !(RangeKey.isPrefixOf key k && decide (v ≤ value)))
  else map

theorem any_dominates_iff (map : List (K × V)) (e : K × V) :
    (map.any fun (k, v) => RangeKey.isPrefixOf k e.1 && decide (e.2 ≤ v)) = true ↔
      MaxInsert.Covered Dominated map e := by
  simp only [List.any_eq_true, Bool.and_eq_true, decide_eq_true_eq]
  exact ⟨fun ⟨d, hd, h⟩ => ⟨d, hd, h⟩, fun ⟨d, hd, h⟩ => ⟨d, hd, h⟩⟩

/-- Without a dominating entry, no entry at the new key survives the filter. -/
theorem key_ne_of_kept {map : List (K × V)} {e x : K × V}
    (hc : ¬MaxInsert.Covered Dominated map e) (hx : x ∈ map)
    (hk : ¬(RangeKey.isPrefixOf e.1 x.1 = true ∧ x.2 ≤ e.2)) : x.1 ≠ e.1 := by
  intro hxe
  have hlt : e.2 < x.2 := by
    by_contra hle
    exact hk ⟨hxe ▸ RangeKey.prefix_refl _, not_lt.mp hle⟩
  exact hc ⟨x, hx, hxe ▸ RangeKey.prefix_refl _, hlt.le⟩

theorem mem_insertIfLarger {map : List (K × V)} (hs : map.Pairwise fun a b => a.1 < b.1)
    (e x : K × V) :
    x ∈ insertIfLarger map e.1 e.2 ↔ x ∈ MaxInsert.insert Dominated e map := by
  by_cases hc : MaxInsert.Covered Dominated map e
  · have : (!map.any fun (k, v) => RangeKey.isPrefixOf k e.1 && decide (e.2 ≤ v)) = false := by
      simpa using (any_dominates_iff map e).mpr hc
    simp only [insertIfLarger, this, MaxInsert.insert_of_covered hc]
    rfl
  · have : (!map.any fun (k, v) => RangeKey.isPrefixOf k e.1 && decide (e.2 ≤ v)) = true := by
      simpa using (any_dominates_iff map e).not.mpr hc
    simp only [insertIfLarger, this, if_true]
    rw [mem_insertKey_iff (hs.filter _), MaxInsert.mem_insert_of_not_covered hc]
    simp only [List.mem_filter, Bool.not_eq_true', Bool.and_eq_false_iff, decide_eq_false_iff_not]
    constructor
    · rintro (rfl | ⟨⟨hx, hk⟩, -⟩)
      · exact Or.inl rfl
      · refine Or.inr ⟨hx, fun hle => ?_⟩
        rcases hk with hk | hk
        · exact absurd hle.1 (by simpa using hk)
        · exact hk hle.2
    · rintro (rfl | ⟨hx, hk⟩)
      · exact Or.inl rfl
      · have hk' : ¬(RangeKey.isPrefixOf e.1 x.1 = true ∧ x.2 ≤ e.2) := hk
        refine Or.inr ⟨⟨hx, ?_⟩, key_ne_of_kept hc hx hk'⟩
        by_cases hp : RangeKey.isPrefixOf e.1 x.1 = true
        · exact Or.inr fun hle => hk' ⟨hp, hle⟩
        · exact Or.inl (by simpa using hp)

variable [Inhabited K] (empty : Fingerprint) (h : K × V → Fingerprint)

/-- `put` on a `SimpleStore` computes the reference insert. -/
theorem put_entries (s : SimpleStore K V) (e : K × V) :
    (put (store empty h) (entry h) s e).1.entries = insertIfLarger s.entries e.1 e.2 := by
  have hany : ((store empty h).prefixesOf s e.1).any (fun p => decide (e.2 ≤ p.2)) =
      (s.entries.any fun x => RangeKey.isPrefixOf x.1 e.1 && decide (e.2 ≤ x.2)) := by
    simp only [store, prefixesOf, List.any_filter]
  by_cases hc : (s.entries.any fun x => RangeKey.isPrefixOf x.1 e.1 && decide (e.2 ≤ x.2)) = true
  · have hput : put (store empty h) (entry h) s e = (s, .notInserted) := if_pos (hany.trans hc)
    rw [hput]
    simp [insertIfLarger, hc]
  · have hput : put (store empty h) (entry h) s e =
        (entryPut (removePrefixFiltered s e.1 fun v => decide (v ≤ e.2)).1 e,
          .inserted (removePrefixFiltered s e.1 fun v => decide (v ≤ e.2)).2) :=
      if_neg fun hp => hc (hany.symm.trans hp)
    rw [hput]
    simp only [Bool.not_eq_true] at hc
    simp [insertIfLarger, hc, removePrefixFiltered, entryPut]

theorem mem_put (s : SimpleStore K V) (e x : K × V) :
    x ∈ (put (store empty h) (entry h) s e).1.entries ↔
      x ∈ MaxInsert.insert Dominated e s.entries := by
  rw [put_entries, mem_insertIfLarger s.sorted]

theorem PrefixDominance.put {s : SimpleStore K V} (hs : s.PrefixDominance) (e : K × V) :
    (put (store empty h) (entry h) s e).1.PrefixDominance := by
  rw [prefixDominance_iff] at hs ⊢
  intro a ha b hb hab
  exact MaxInsert.incomparable_insert hs a ((mem_put empty h s e a).mp ha) b
    ((mem_put empty h s e b).mp hb) hab

end SimpleStore

end Iroh.Docs.Ranger
