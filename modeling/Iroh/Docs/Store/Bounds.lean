import Iroh.Docs.Store.Fs

/-! The bounds of a key filter on the records table and on the by-key index
(`store/fs/bounds.rs`).

A prefix's bounds run from the prefix, included, to `increment_by_one` of it,
excluded; past the last key of an author (or of a namespace) they go to the next
author (or namespace). Every key that extends the prefix lies within
(`RecordsBounds.contains_of_isPrefix`, `ByKeyBounds.contains_of_isPrefix`), and an
exact filter's bounds hold its key alone. When the prefix ends in a byte below 255,
or is all 255s, the bounds hold nothing else (`RecordsBounds.authorKey_contains_iff`,
`ByKeyBounds.new_contains_iff`).

Otherwise they do. `increment_by_one` turns the trailing 255s into 0s and keeps
them, so the end of `[1, 255]` is `[2, 0]`, and the shorter key `[2]` lies between
the two: `prefixed_by` reads it and `remove_prefix_filtered` removes it
(`prefix_bounds_admit_other_keys`). -/

namespace Iroh.Docs.Store

/-! ### `increment_by_one` -/

/-- On the reversed string: some leading 255s, then a byte below 255. -/
theorem incrementRev_eq_some {r e : List Byte} :
    incrementRev r = some e ↔ ∃ j c rest, c ≠ 255 ∧ r = List.replicate j 255 ++ c :: rest ∧
      e = List.replicate j 0 ++ (c + 1) :: rest := by
  induction r generalizing e with
  | nil => simp [incrementRev]
  | cons c cs ih =>
    by_cases hc : c = 255
    · subst hc
      simp only [incrementRev, ne_eq, not_true_eq_false, if_false, Option.map_eq_some_iff, ih]
      constructor
      · rintro ⟨e', ⟨j, c', rest, hc', rfl, rfl⟩, rfl⟩
        exact ⟨j + 1, c', rest, hc', rfl, rfl⟩
      · rintro ⟨j, c', rest, hc', hr, rfl⟩
        cases j with
        | zero => exact absurd (List.cons.inj hr).1 (Ne.symm hc')
        | succ j =>
          obtain ⟨-, rfl⟩ := List.cons.inj hr
          exact ⟨_, ⟨j, c', rest, hc', rfl, rfl⟩, rfl⟩
    · simp only [incrementRev, ne_eq, hc, not_false_eq_true, if_true, Option.some.injEq]
      constructor
      · rintro rfl
        exact ⟨0, c, cs, hc, rfl, rfl⟩
      · rintro ⟨j, c', rest, hc', hr, rfl⟩
        cases j with
        | zero =>
          obtain ⟨rfl, rfl⟩ := List.cons.inj hr
          rfl
        | succ j => exact absurd (List.cons.inj hr).1 hc

theorem incrementRev_eq_none {r : List Byte} : incrementRev r = none ↔ ∀ b ∈ r, b = 255 := by
  induction r with
  | nil => simp [incrementRev]
  | cons c cs ih =>
    by_cases hc : c = 255
    · simp [incrementRev, hc, ih]
    · simp [incrementRev, hc]

/-- `increment_by_one` fails exactly on a string of 255s. -/
theorem incrementByOne_eq_none {p : List Byte} : incrementByOne p = none ↔ ∀ b ∈ p, b = 255 := by
  simp [incrementByOne, incrementRev_eq_none]

/-- Where it succeeds, the last byte below 255 goes up by one and the 255s after it
become 0s. -/
theorem incrementByOne_eq_some {p e : List Byte} :
    incrementByOne p = some e ↔ ∃ q c j, c ≠ 255 ∧ p = q ++ c :: List.replicate j 255 ∧
      e = q ++ (c + 1) :: List.replicate j 0 := by
  simp only [incrementByOne, Option.map_eq_some_iff, incrementRev_eq_some]
  constructor
  · rintro ⟨_, ⟨j, c, rest, hc, hr, rfl⟩, rfl⟩
    refine ⟨rest.reverse, c, j, hc, ?_, by simp⟩
    rw [← List.reverse_reverse p, hr]
    simp
  · rintro ⟨q, c, j, hc, rfl, rfl⟩
    exact ⟨_, ⟨j, c, q.reverse, hc, by simp, rfl⟩, by simp⟩

/-! ### Byte strings in lexicographic order -/

theorem cons_lt_cons_iff {a b : Byte} {l l' : List Byte} :
    a :: l < b :: l' ↔ a < b ∨ a = b ∧ l < l' :=
  List.cons_lex_cons_iff

theorem cons_le_cons_iff {a b : Byte} {l l' : List Byte} :
    a :: l ≤ b :: l' ↔ a < b ∨ a = b ∧ l ≤ l' := by
  rw [le_iff_lt_or_eq, le_iff_lt_or_eq, cons_lt_cons_iff, List.cons.injEq]
  constructor
  · rintro ((hlt | ⟨rfl, hlt⟩) | ⟨rfl, rfl⟩)
    · exact .inl hlt
    · exact .inr ⟨rfl, .inl hlt⟩
    · exact .inr ⟨rfl, .inr rfl⟩
  · rintro (hlt | ⟨rfl, hlt | rfl⟩)
    · exact .inl (.inl hlt)
    · exact .inl (.inr ⟨rfl, hlt⟩)
    · exact .inr ⟨rfl, rfl⟩

theorem not_lt_nil (l : List Byte) : ¬ l < [] := List.not_lex_nil

theorem not_cons_le_nil (a : Byte) (l : List Byte) : ¬ a :: l ≤ [] := by
  rw [le_iff_lt_or_eq]
  rintro (h | h)
  · exact not_lt_nil _ h
  · exact List.cons_ne_nil _ _ h

theorem lt_add_one_of_ne {c : Byte} (hc : c ≠ 255) : c < c + 1 := by
  have hlt : c.val < 255 := by
    have := c.isLt
    have : c.val ≠ 255 := fun h => hc (Fin.ext h)
    omega
  rw [Fin.lt_def, Fin.val_add]
  simp only [Fin.val_one]
  omega

/-- No byte lies strictly between a byte below 255 and the next. -/
theorem eq_of_le_of_lt_add_one {c d : Byte} (hc : c ≠ 255) (hlo : c ≤ d) (hhi : d < c + 1) :
    d = c := by
  have h1 := Fin.le_def.mp hlo
  have h2 := Fin.lt_def.mp hhi
  rw [Fin.val_add] at h2
  simp only [Fin.val_one] at h2
  have := c.isLt
  have : c.val ≠ 255 := fun h => hc (Fin.ext h)
  exact Fin.ext (by omega)

theorem append_lt_append_left (q : List Byte) {a b : List Byte} : q ++ a < q ++ b ↔ a < b := by
  induction q with
  | nil => rfl
  | cons x q ih => simp only [List.cons_append, cons_lt_cons_iff, lt_irrefl, true_and, false_or, ih]

/-- Every extension of a prefix lies below its increment. -/
theorem lt_of_incrementByOne {p e k : List Byte} (he : incrementByOne p = some e) (hk : p <+: k) :
    k < e := by
  obtain ⟨q, c, j, hc, rfl, rfl⟩ := incrementByOne_eq_some.mp he
  obtain ⟨rest, rfl⟩ := hk
  rw [List.append_assoc, append_lt_append_left, List.cons_append, cons_lt_cons_iff]
  exact .inl (lt_add_one_of_ne hc)

/-- Between a prefix ending in a byte below 255 and its increment lie only its
extensions. -/
theorem isPrefix_of_le_of_lt {q k : List Byte} {c : Byte} (hc : c ≠ 255) (hlo : q ++ [c] ≤ k)
    (hhi : k < q ++ [c + 1]) : q ++ [c] <+: k := by
  induction q generalizing k with
  | nil =>
    cases k with
    | nil => exact absurd hlo (not_cons_le_nil _ _)
    | cons d ks =>
      rw [List.nil_append, cons_le_cons_iff] at hlo
      rw [List.nil_append, cons_lt_cons_iff] at hhi
      have hd : d = c := by
        rcases hlo with hlt | ⟨rfl, -⟩
        · rcases hhi with hlt' | ⟨rfl, hnil⟩
          · exact eq_of_le_of_lt_add_one hc hlt.le hlt'
          · exact absurd hnil (not_lt_nil _)
        · rfl
      rw [hd]
      exact (List.prefix_cons_inj c).mpr List.nil_prefix
  | cons x q ih =>
    cases k with
    | nil => exact absurd hlo (not_cons_le_nil _ _)
    | cons d ks =>
      rw [List.cons_append, cons_le_cons_iff] at hlo
      rw [List.cons_append, cons_lt_cons_iff] at hhi
      rcases hlo with hlt | ⟨rfl, hlo⟩
      · rcases hhi with hlt' | ⟨rfl, -⟩
        · exact absurd (lt_trans hlt hlt') (lt_irrefl _)
        · exact absurd hlt (lt_irrefl _)
      · rcases hhi with hlt' | ⟨-, hhi⟩
        · exact absurd hlt' (lt_irrefl _)
        · exact (List.prefix_cons_inj x).mpr (ih hlo hhi)

/-- At or past a string of 255s lie only its extensions. -/
theorem isPrefix_of_le_of_forall {p k : List Byte} (hp : ∀ b ∈ p, b = 255) (hk : p ≤ k) :
    p <+: k := by
  induction p generalizing k with
  | nil => exact List.nil_prefix
  | cons x p ih =>
    obtain rfl : x = 255 := hp x List.mem_cons_self
    cases k with
    | nil => exact absurd hk (not_cons_le_nil _ _)
    | cons d ks =>
      rcases cons_le_cons_iff.mp hk with hlt | ⟨rfl, hks⟩
      · have hd : d ≤ 255 := by
          rw [Fin.le_def]
          have := d.isLt
          show d.val ≤ 255
          omega
        exact absurd hlt (not_lt.mpr hd)
      · exact (List.prefix_cons_inj 255).mpr (ih (fun b hb => hp b (List.mem_cons_of_mem _ hb)) hks)

theorem le_of_isPrefix {p k : List Byte} (h : p <+: k) : p ≤ k := by
  obtain ⟨rest, rfl⟩ := h
  cases rest with
  | nil => exact (List.append_nil p).ge
  | cons r rs =>
    refine le_of_lt ?_
    induction p with
    | nil => exact List.Lex.nil
    | cons x p ih => exact List.Lex.cons ih

/-- `increment_by_one` of a prefix whose last byte is below 255 raises that byte. -/
theorem incrementByOne_of_getLast {p e : List Byte} (hp : p.getLast? ≠ some 255)
    (he : incrementByOne p = some e) : ∃ q c, c ≠ 255 ∧ p = q ++ [c] ∧ e = q ++ [c + 1] := by
  obtain ⟨q, c, j, hc, rfl, rfl⟩ := incrementByOne_eq_some.mp he
  cases j with
  | zero => exact ⟨q, c, hc, rfl, rfl⟩
  | succ j =>
    refine absurd ?_ hp
    rw [List.replicate_succ', ← List.cons_append, ← List.append_assoc, List.getLast?_append]
    simp

theorem incrementFixed_eq_some {n : Nat} {x y : Fin n} : incrementFixed x = some y ↔ y.val = x.val + 1 := by
  unfold incrementFixed
  split
  · rename_i h
    simp only [Option.some.injEq]
    exact ⟨fun h' => h' ▸ rfl, fun h' => Fin.ext h'.symm⟩
  · rename_i h
    simp only [reduceCtorEq, false_iff]
    intro h'
    exact h (h' ▸ y.isLt)

theorem incrementFixed_eq_none {n : Nat} {x : Fin n} : incrementFixed x = none ↔ x.val + 1 = n := by
  unfold incrementFixed
  split
  · rename_i h
    simp only [reduceCtorEq, false_iff]
    omega
  · rename_i h
    simp only [true_iff]
    have := x.isLt
    omega

end Iroh.Docs.Store

/-! ### The identifiers' order, field by field -/

namespace Iroh.Docs.RecordIdentifier

theorem author_le_of_le {a b : RecordIdentifier} (h : a ≤ b) (hn : a.ns = b.ns) :
    a.author ≤ b.author := by
  rcases le_iff.mp h with hlt | ⟨-, hlt | ⟨heq, -⟩⟩
  · exact absurd hn hlt.ne
  · exact hlt.le
  · exact heq.le

theorem key_le_of_le {a b : RecordIdentifier} (h : a ≤ b) (hn : a.ns = b.ns)
    (ha : a.author = b.author) : a.key ≤ b.key := by
  rcases le_iff.mp h with hlt | ⟨-, hlt | ⟨-, hk⟩⟩
  · exact absurd hn hlt.ne
  · exact absurd ha hlt.ne
  · exact hk

theorem key_lt_of_lt {a b : RecordIdentifier} (h : a < b) (hn : a.ns = b.ns)
    (ha : a.author = b.author) : a.key < b.key := by
  rcases lt_iff.mp h with hlt | ⟨-, hlt | ⟨-, hk⟩⟩
  · exact absurd hn hlt.ne
  · exact absurd ha hlt.ne
  · exact hk

/-- Below an author's first identifier, in the same namespace, lie only smaller authors. -/
theorem author_lt_of_lt_start {b : RecordIdentifier} {n : NamespaceId} {a : AuthorId}
    (h : b < ⟨n, a, []⟩) (hn : b.ns = n) : b.author < a := by
  rcases lt_iff.mp h with hlt | ⟨-, hlt | ⟨-, hk⟩⟩
  · exact absurd hn hlt.ne
  · exact hlt
  · exact absurd hk (Store.not_lt_nil _)

/-- Between two identifiers of one namespace and author lie only that namespace's
and author's. -/
theorem eq_of_between {id : RecordIdentifier} {ns : NamespaceId} {a : AuthorId} {k₁ k₂ : List Byte}
    (hlo : ⟨ns, a, k₁⟩ ≤ id) (hhi : id < ⟨ns, a, k₂⟩) :
    id.ns = ns ∧ id.author = a ∧ k₁ ≤ id.key ∧ id.key < k₂ := by
  have hns : id.ns = ns := le_antisymm (ns_le_of_le hhi.le) (ns_le_of_le hlo)
  have ha : id.author = a :=
    le_antisymm (author_le_of_le hhi.le hns) (author_le_of_le hlo hns.symm)
  exact ⟨hns, ha, key_le_of_le hlo hns.symm ha.symm, key_lt_of_lt hhi hns ha⟩

end Iroh.Docs.RecordIdentifier

namespace Iroh.Docs.Store

/-! ### The records table -/

namespace RecordsBounds

/-- The end of a prefix's bounds: the key's increment, else the next author, else the
next namespace. -/
def prefixEnd (ns : NamespaceId) (author : AuthorId) (key : List Byte) : Bound RecordIdentifier :=
  match incrementByOne key with
  | some keyEnd => .excluded ⟨ns, author, keyEnd⟩
  | none =>
    match incrementFixed author with
    | some authorEnd => .excluded ⟨ns, authorEnd, []⟩
    | none =>
      match incrementFixed ns with
      | some nsEnd => .excluded ⟨nsEnd, 0, []⟩
      | none => .unbounded

theorem authorKey_keyPrefix (ns : NamespaceId) (author : AuthorId) (key : List Byte) :
    authorKey ns author (.keyPrefix key) = ⟨.included ⟨ns, author, key⟩, prefixEnd ns author key⟩ := by
  simp only [authorKey, prefixEnd]
  rfl

theorem authorKey_exact (ns : NamespaceId) (author : AuthorId) (key : List Byte) :
    authorKey ns author (.exact key) = ⟨.included ⟨ns, author, key⟩, .included ⟨ns, author, key⟩⟩ := by
  simp only [authorKey]
  rfl

/-- An exact filter's bounds hold its identifier alone. -/
theorem authorKey_exact_contains_iff {ns : NamespaceId} {author : AuthorId} {key : List Byte}
    {id : RecordIdentifier} :
    (authorKey ns author (.exact key)).contains id = true ↔ id = ⟨ns, author, key⟩ := by
  simp only [authorKey_exact, contains, Bound.admitsFrom, Bound.admitsTo, Bool.and_eq_true,
    decide_eq_true_eq]
  exact ⟨fun h => le_antisymm h.2 h.1, fun h => ⟨h.ge, h.le⟩⟩

/-- Every key of the author that extends the prefix lies within its bounds. -/
theorem prefixEnd_admitsTo {ns : NamespaceId} {author : AuthorId} {p k : List Byte} (hk : p <+: k) :
    (prefixEnd ns author p).admitsTo ⟨ns, author, k⟩ = true := by
  unfold prefixEnd
  split
  · rename_i e he
    simp only [Bound.admitsTo, decide_eq_true_eq, RecordIdentifier.lt_iff, lt_irrefl, true_and,
      false_or]
    exact lt_of_incrementByOne he hk
  · split
    · rename_i a' ha'
      simp only [Bound.admitsTo, decide_eq_true_eq, RecordIdentifier.lt_iff, lt_irrefl, true_and,
        false_or]
      exact .inl (Fin.lt_def.mpr (by rw [incrementFixed_eq_some.mp ha']; omega))
    · split
      · rename_i ns' hns'
        simp only [Bound.admitsTo, decide_eq_true_eq, RecordIdentifier.lt_iff]
        exact .inl (Fin.lt_def.mpr (by rw [incrementFixed_eq_some.mp hns']; omega))
      · rfl

theorem contains_of_isPrefix {ns : NamespaceId} {author : AuthorId} {p : List Byte}
    {id : RecordIdentifier} (hns : id.ns = ns) (ha : id.author = author) (hk : p <+: id.key) :
    (authorKey ns author (.keyPrefix p)).contains id = true := by
  obtain ⟨ns, author, k⟩ := id
  obtain ⟨rfl, rfl⟩ : ns = _ ∧ author = _ := ⟨hns, ha⟩
  simp only [authorKey_keyPrefix, contains, Bound.admitsFrom, prefixEnd_admitsTo hk, Bool.and_true,
    decide_eq_true_eq, RecordIdentifier.le_iff, lt_irrefl, true_and, false_or]
  exact le_of_isPrefix hk

/-- Past a prefix of an author with the last author id, inside its namespace, lie
only that author's keys. -/
theorem eq_of_start_le_last {id : RecordIdentifier} {ns : NamespaceId} {a : AuthorId} {k : List Byte}
    (hlo : ⟨ns, a, k⟩ ≤ id) (hns : id.ns ≤ ns) (hlast : a.val + 1 = 2 ^ 256) :
    id.ns = ns ∧ id.author = a ∧ k ≤ id.key := by
  have hns : id.ns = ns := le_antisymm hns (RecordIdentifier.ns_le_of_le hlo)
  have ha : id.author = a := by
    refine le_antisymm (Fin.le_def.mpr ?_) (RecordIdentifier.author_le_of_le hlo hns.symm)
    have := id.author.isLt
    omega
  exact ⟨hns, ha, RecordIdentifier.key_le_of_le hlo hns.symm ha.symm⟩

/-- Whatever the prefix, its bounds hold only identifiers of its namespace and author,
from the prefix on, and below the prefix's increment where it has one. -/
theorem authorKey_contains_between {ns : NamespaceId} {author : AuthorId} {p : List Byte}
    {id : RecordIdentifier} (h : (authorKey ns author (.keyPrefix p)).contains id = true) :
    id.ns = ns ∧ id.author = author ∧ p ≤ id.key ∧ ∀ e, incrementByOne p = some e → id.key < e := by
  simp only [authorKey_keyPrefix, contains, Bound.admitsFrom, Bool.and_eq_true,
    decide_eq_true_eq] at h
  obtain ⟨hlo, hhi⟩ := h
  unfold prefixEnd at hhi
  split at hhi
  · rename_i e he
    simp only [Bound.admitsTo, decide_eq_true_eq] at hhi
    obtain ⟨hns, ha, hle, hlt⟩ := RecordIdentifier.eq_of_between hlo hhi
    refine ⟨hns, ha, hle, fun e' he' => ?_⟩
    rw [he, Option.some.injEq] at he'
    exact he' ▸ hlt
  · rename_i hnone
    suffices hna : id.ns = ns ∧ id.author = author from
      ⟨hna.1, hna.2, RecordIdentifier.key_le_of_le hlo hna.1.symm hna.2.symm,
        fun e he => by simp [hnone] at he⟩
    split at hhi
    · rename_i a' ha'
      simp only [Bound.admitsTo, decide_eq_true_eq] at hhi
      have hns : id.ns = ns :=
        le_antisymm (RecordIdentifier.ns_le_of_le hhi.le) (RecordIdentifier.ns_le_of_le hlo)
      have hlt := RecordIdentifier.author_lt_of_lt_start hhi hns
      refine ⟨hns, le_antisymm (Fin.le_def.mpr ?_) (RecordIdentifier.author_le_of_le hlo hns.symm)⟩
      have := Fin.lt_def.mp hlt
      rw [incrementFixed_eq_some.mp ha'] at this
      omega
    · rename_i hlast
      have hns : id.ns ≤ ns := by
        split at hhi
        · rename_i ns' hns'
          simp only [Bound.admitsTo, decide_eq_true_eq, RecordIdentifier.lt_start_iff] at hhi
          have := Fin.lt_def.mp hhi
          rw [incrementFixed_eq_some.mp hns'] at this
          exact Fin.le_def.mpr (by omega)
        · rename_i hnsl
          have hmax := incrementFixed_eq_none.mp hnsl
          have := id.ns.isLt
          exact Fin.le_def.mpr (by omega)
      obtain ⟨hns, ha, -⟩ := eq_of_start_le_last hlo hns (incrementFixed_eq_none.mp hlast)
      exact ⟨hns, ha⟩

/-- **The bounds of a prefix ending in a byte below 255, or of 255s alone, are exact**:
they hold the identifiers of the namespace and author whose key extends the prefix, and
no other. -/
theorem authorKey_contains_iff {ns : NamespaceId} {author : AuthorId} {p : List Byte}
    {id : RecordIdentifier} (hp : p.getLast? ≠ some 255 ∨ ∀ b ∈ p, b = 255) :
    (authorKey ns author (.keyPrefix p)).contains id = true ↔
      id.ns = ns ∧ id.author = author ∧ p <+: id.key := by
  refine ⟨fun h => ?_, fun ⟨hns, ha, hk⟩ => contains_of_isPrefix hns ha hk⟩
  obtain ⟨hns, ha, hle, hlt⟩ := authorKey_contains_between h
  refine ⟨hns, ha, ?_⟩
  cases he : incrementByOne p with
  | some e =>
    have hlast : p.getLast? ≠ some 255 :=
      hp.resolve_right fun hall => by simp [incrementByOne_eq_none.mpr hall] at he
    have hk := hlt e he
    obtain ⟨q, c, hc, rfl, rfl⟩ := incrementByOne_of_getLast hlast he
    exact isPrefix_of_le_of_lt hc hle hk
  | none => exact isPrefix_of_le_of_forall (incrementByOne_eq_none.mp he) hle

/-- The prefix `[1]`, which does not end in 255. -/
theorem authorKey_contains_iff_one :
    ([1] : List Byte).getLast? ≠ some 255 ∧
      ((authorKey 0 0 (.keyPrefix [1])).contains ⟨0, 0, [1, 2]⟩ = true ↔
        (⟨0, 0, [1, 2]⟩ : RecordIdentifier).ns = 0 ∧ (⟨0, 0, [1, 2]⟩ : RecordIdentifier).author = 0 ∧
          [1] <+: (⟨0, 0, [1, 2]⟩ : RecordIdentifier).key) :=
  ⟨by decide, authorKey_contains_iff (.inl (by decide))⟩

end RecordsBounds

/-! ### The by-key index -/

/-- `RecordsByKeyId`: a row of the by-key index, `(namespace, key, author)`. -/
structure RecordsByKeyId where
  ns : NamespaceId
  key : List Byte
  author : AuthorId
deriving DecidableEq

namespace RecordsByKeyId

/-- The triple in lexicographic order, which is the order of the row's bytes. -/
def lexKey (r : RecordsByKeyId) : NamespaceId ×ₗ List Byte ×ₗ AuthorId :=
  toLex (r.ns, toLex (r.key, r.author))

theorem lexKey_injective : Function.Injective lexKey := by
  rintro ⟨n₁, k₁, a₁⟩ ⟨n₂, k₂, a₂⟩ h
  simp only [lexKey, toLex_inj, Prod.mk.injEq] at h
  obtain ⟨rfl, rfl, rfl⟩ := h
  rfl

instance : LinearOrder RecordsByKeyId := LinearOrder.lift' lexKey lexKey_injective

theorem lt_iff {a b : RecordsByKeyId} : a < b ↔
    a.ns < b.ns ∨ a.ns = b.ns ∧ (a.key < b.key ∨ a.key = b.key ∧ a.author < b.author) := by
  show lexKey a < lexKey b ↔ _
  simp [lexKey, Prod.Lex.toLex_lt_toLex]

theorem le_iff {a b : RecordsByKeyId} : a ≤ b ↔
    a.ns < b.ns ∨ a.ns = b.ns ∧ (a.key < b.key ∨ a.key = b.key ∧ a.author ≤ b.author) := by
  show lexKey a ≤ lexKey b ↔ _
  simp [lexKey, Prod.Lex.toLex_le_toLex]

theorem ns_le_of_le {a b : RecordsByKeyId} (h : a ≤ b) : a.ns ≤ b.ns := by
  rcases le_iff.mp h with hlt | ⟨heq, -⟩
  · exact hlt.le
  · exact heq.le

theorem key_le_of_le {a b : RecordsByKeyId} (h : a ≤ b) (hn : a.ns = b.ns) : a.key ≤ b.key := by
  rcases le_iff.mp h with hlt | ⟨-, hlt | ⟨heq, -⟩⟩
  · exact absurd hn hlt.ne
  · exact hlt.le
  · exact heq.le

/-- Below a key's first row, in the same namespace, lie only smaller keys. -/
theorem key_lt_of_lt_start {b : RecordsByKeyId} {n : NamespaceId} {k : List Byte}
    (h : b < ⟨n, k, 0⟩) (hn : b.ns = n) : b.key < k := by
  rcases lt_iff.mp h with hlt | ⟨-, hlt | ⟨-, ha⟩⟩
  · exact absurd hn hlt.ne
  · exact hlt
  · exact absurd ha (Fin.not_lt_zero _)

/-- Below a namespace's first row lie only smaller namespaces. -/
theorem ns_lt_of_lt_start {b : RecordsByKeyId} {n : NamespaceId} (h : b < ⟨n, [], 0⟩) : b.ns < n := by
  rcases lt_iff.mp h with hlt | ⟨-, hlt | ⟨-, ha⟩⟩
  · exact hlt
  · exact absurd hlt (not_lt_nil _)
  · exact absurd ha (Fin.not_lt_zero _)

end RecordsByKeyId

/-- The last author id, `[255u8; 32]`. -/
def lastAuthor : AuthorId := ⟨2 ^ 256 - 1, Nat.sub_lt (Nat.two_pow_pos 256) Nat.one_pos⟩

theorem le_lastAuthor (author : AuthorId) : author ≤ lastAuthor := by
  rw [Fin.le_def]
  have := author.isLt
  show author.val ≤ 2 ^ 256 - 1
  omega

/-- `ByKeyBounds`: bounds on the by-key index. -/
structure ByKeyBounds where
  startBound : Bound RecordsByKeyId
  endBound : Bound RecordsByKeyId

namespace ByKeyBounds

def contains (b : ByKeyBounds) (id : RecordsByKeyId) : Bool :=
  b.startBound.admitsFrom id && b.endBound.admitsTo id

/-- `ByKeyBounds::namespace`. -/
def «namespace» (ns : NamespaceId) : ByKeyBounds :=
  ⟨.included ⟨ns, [], 0⟩,
    match incrementFixed ns with
    | some nsEnd => .excluded ⟨nsEnd, [], 0⟩
    | none => .unbounded⟩

/-- The end of a prefix's bounds: the key's increment, else the next namespace. -/
def prefixEnd (ns : NamespaceId) (key : List Byte) : Bound RecordsByKeyId :=
  match incrementByOne key with
  | some keyEnd => .excluded ⟨ns, keyEnd, 0⟩
  | none =>
    match incrementFixed ns with
    | some nsEnd => .excluded ⟨nsEnd, [], 0⟩
    | none => .unbounded

/-- `ByKeyBounds::new`. -/
def new (ns : NamespaceId) : KeyFilter → ByKeyBounds
  | .any => «namespace» ns
  | .exact key => ⟨.included ⟨ns, key, 0⟩, .included ⟨ns, key, lastAuthor⟩⟩
  | .keyPrefix key => ⟨.included ⟨ns, key, 0⟩, prefixEnd ns key⟩

/-- An exact filter's bounds hold the key's rows, of every author. -/
theorem new_exact_contains_iff {ns : NamespaceId} {key : List Byte} {id : RecordsByKeyId} :
    (new ns (.exact key)).contains id = true ↔ id.ns = ns ∧ id.key = key := by
  simp only [new, contains, Bound.admitsFrom, Bound.admitsTo, Bool.and_eq_true, decide_eq_true_eq]
  constructor
  · rintro ⟨hlo, hhi⟩
    have hns : id.ns = ns := le_antisymm (RecordsByKeyId.ns_le_of_le hhi) (RecordsByKeyId.ns_le_of_le hlo)
    exact ⟨hns, le_antisymm (RecordsByKeyId.key_le_of_le hhi hns) (RecordsByKeyId.key_le_of_le hlo hns.symm)⟩
  · rintro ⟨hns, hkey⟩
    exact ⟨RecordsByKeyId.le_iff.mpr (.inr ⟨hns.symm, .inr ⟨hkey.symm, Fin.zero_le _⟩⟩),
      RecordsByKeyId.le_iff.mpr (.inr ⟨hns, .inr ⟨hkey, le_lastAuthor _⟩⟩)⟩

/-- Every key that extends the prefix lies within its bounds, with any author. -/
theorem contains_of_isPrefix {ns : NamespaceId} {p : List Byte} {id : RecordsByKeyId}
    (hns : id.ns = ns) (hk : p <+: id.key) : (new ns (.keyPrefix p)).contains id = true := by
  obtain ⟨ns, k, a⟩ := id
  obtain rfl : ns = _ := hns
  have hlo : (⟨ns, p, 0⟩ : RecordsByKeyId) ≤ ⟨ns, k, a⟩ := by
    rcases lt_or_eq_of_le (le_of_isPrefix hk) with hlt | rfl
    · exact RecordsByKeyId.le_iff.mpr (.inr ⟨rfl, .inl hlt⟩)
    · exact RecordsByKeyId.le_iff.mpr (.inr ⟨rfl, .inr ⟨rfl, Fin.zero_le _⟩⟩)
  have hhi : (prefixEnd ns p).admitsTo ⟨ns, k, a⟩ = true := by
    unfold prefixEnd
    split
    · rename_i e he
      simp only [Bound.admitsTo, decide_eq_true_eq, RecordsByKeyId.lt_iff, lt_irrefl, true_and,
        false_or]
      exact .inl (lt_of_incrementByOne he hk)
    · split
      · rename_i ns' hns'
        simp only [Bound.admitsTo, decide_eq_true_eq, RecordsByKeyId.lt_iff]
        exact .inl (Fin.lt_def.mpr (by rw [incrementFixed_eq_some.mp hns']; omega))
      · rfl
  simp only [new, contains, Bound.admitsFrom, hhi, Bool.and_true, decide_eq_true_eq]
  exact hlo

/-- **The by-key bounds of a prefix ending in a byte below 255, or of 255s alone, are
exact.** -/
theorem new_contains_iff {ns : NamespaceId} {p : List Byte} {id : RecordsByKeyId}
    (hp : p.getLast? ≠ some 255 ∨ ∀ b ∈ p, b = 255) :
    (new ns (.keyPrefix p)).contains id = true ↔ id.ns = ns ∧ p <+: id.key := by
  refine ⟨fun h => ?_, fun ⟨hns, hk⟩ => contains_of_isPrefix hns hk⟩
  simp only [new, contains, Bound.admitsFrom, Bool.and_eq_true, decide_eq_true_eq] at h
  obtain ⟨hlo, hhi⟩ := h
  unfold prefixEnd at hhi
  split at hhi
  · rename_i e he
    have hlast : p.getLast? ≠ some 255 :=
      hp.resolve_right fun hall => by simp [incrementByOne_eq_none.mpr hall] at he
    obtain ⟨q, c, hc, rfl, rfl⟩ := incrementByOne_of_getLast hlast he
    simp only [Bound.admitsTo, decide_eq_true_eq] at hhi
    have hns : id.ns = ns :=
      le_antisymm (RecordsByKeyId.ns_le_of_le hhi.le) (RecordsByKeyId.ns_le_of_le hlo)
    exact ⟨hns, isPrefix_of_le_of_lt hc (RecordsByKeyId.key_le_of_le hlo hns.symm)
      (RecordsByKeyId.key_lt_of_lt_start hhi hns)⟩
  · rename_i hnone
    have hall := incrementByOne_eq_none.mp hnone
    have hns_le : id.ns ≤ ns := by
      split at hhi
      · rename_i ns' hns'
        simp only [Bound.admitsTo, decide_eq_true_eq] at hhi
        have := Fin.lt_def.mp (RecordsByKeyId.ns_lt_of_lt_start hhi)
        rw [incrementFixed_eq_some.mp hns'] at this
        exact Fin.le_def.mpr (by omega)
      · rename_i hnsl
        have hmax := incrementFixed_eq_none.mp hnsl
        have := id.ns.isLt
        exact Fin.le_def.mpr (by omega)
    have hns : id.ns = ns := le_antisymm hns_le (RecordsByKeyId.ns_le_of_le hlo)
    exact ⟨hns, isPrefix_of_le_of_forall hall (RecordsByKeyId.key_le_of_le hlo hns.symm)⟩

/-- The prefix `[1]`, which does not end in 255. -/
theorem new_contains_iff_one :
    ([1] : List Byte).getLast? ≠ some 255 ∧
      ((new 0 (.keyPrefix [1])).contains ⟨0, [1, 2], 0⟩ = true ↔
        (⟨0, [1, 2], 0⟩ : RecordsByKeyId).ns = 0 ∧ [1] <+: (⟨0, [1, 2], 0⟩ : RecordsByKeyId).key) :=
  ⟨by decide, new_contains_iff (.inl (by decide))⟩


/-- The namespace's bounds hold exactly its rows. -/
theorem namespace_contains (ns : NamespaceId) (id : RecordsByKeyId) :
    («namespace» ns).contains id = true ↔ id.ns = ns := by
  have hlo : (⟨ns, [], 0⟩ : RecordsByKeyId) ≤ id ↔ ns ≤ id.ns := by
    refine ⟨RecordsByKeyId.ns_le_of_le, fun h => RecordsByKeyId.le_iff.mpr ?_⟩
    rcases lt_or_eq_of_le h with hlt | heq
    · exact .inl hlt
    · refine .inr ⟨heq, ?_⟩
      cases id.key with
      | nil => exact .inr ⟨rfl, Fin.zero_le _⟩
      | cons b k => exact .inl List.Lex.nil
  have hhi : («namespace» ns).endBound.admitsTo id = true ↔ id.ns ≤ ns := by
    unfold «namespace»
    dsimp only
    split
    · rename_i nsEnd hend
      have hval := incrementFixed_eq_some.mp hend
      simp only [Bound.admitsTo, decide_eq_true_eq]
      constructor
      · intro h
        have hlt : id.ns < nsEnd := RecordsByKeyId.ns_lt_of_lt_start h
        have := Fin.lt_def.mp hlt
        exact Fin.le_def.mpr (by omega)
      · intro h
        have := Fin.le_def.mp h
        have hlt : id.ns < nsEnd := Fin.lt_def.mpr (by omega)
        exact RecordsByKeyId.lt_iff.mpr (.inl hlt)
    · rename_i hnone
      have hmax := incrementFixed_eq_none.mp hnone
      have := id.ns.isLt
      simp only [Bound.admitsTo, true_iff]
      exact Fin.le_def.mpr (by omega)
  rw [contains, Bool.and_eq_true, hhi]
  show decide ((⟨ns, [], 0⟩ : RecordsByKeyId) ≤ id) = true ∧ _ ↔ _
  rw [decide_eq_true_eq, hlo]
  exact ⟨fun h => le_antisymm h.2 h.1, fun h => ⟨h.ge, h.le⟩⟩

end ByKeyBounds

/-! ### What `prefixed_by` and `remove_prefix_filtered` touch -/

open Ranger

/-- `StoreInstance::prefixed_by`: the entries within the author's prefix bounds. -/
def prefixedBy (t : Records) (id : RecordIdentifier) : List SignedEntry :=
  (t.range (RecordsBounds.authorPrefix id.ns id.author id.key)).map fun r => intoEntry r.1 r.2

/-- With a key that ends in a byte below 255, or in 255s alone, the prefix bounds of an
identifier hold exactly the identifiers it is a prefix of. -/
theorem authorPrefix_contains_eq {id r : RecordIdentifier}
    (hp : id.key.getLast? ≠ some 255 ∨ ∀ b ∈ id.key, b = 255) :
    (RecordsBounds.authorPrefix id.ns id.author id.key).contains r = RangeKey.isPrefixOf id r := by
  rw [Bool.eq_iff_iff, RecordsBounds.authorPrefix, RecordsBounds.authorKey_contains_iff hp,
    RecordIdentifier.isPrefixOf_iff, eq_comm (a := r.ns), eq_comm (a := r.author)]

/-- With a key that ends in a byte below 255, or in 255s alone, `prefixed_by` reads
exactly the entries whose key extends the identifier's, in order. -/
theorem prefixedBy_eq {t : Records} {id : RecordIdentifier}
    (hp : id.key.getLast? ≠ some 255 ∨ ∀ b ∈ id.key, b = 255) :
    prefixedBy t id =
      (t.rows.filter fun r => RangeKey.isPrefixOf id r.1).map fun r => intoEntry r.1 r.2 := by
  simp only [prefixedBy, Records.range, authorPrefix_contains_eq hp]

/-- The rows at `[1, 2]` and `[2]`: the prefix `[1]` reads the first. -/
theorem prefixedBy_eq_two_rows :
    let t : Records := ⟨[(⟨0, 0, [1, 2]⟩, ⟨5, 0, 0, 1, 0⟩), (⟨0, 0, [2]⟩, ⟨5, 0, 0, 1, 0⟩)], by decide⟩
    ([1] : List Byte).getLast? ≠ some 255 ∧ prefixedBy t ⟨0, 0, [1]⟩ = [intoEntry ⟨0, 0, [1, 2]⟩ ⟨5, 0, 0, 1, 0⟩] := by
  intro t
  have hp : ([1] : List Byte).getLast? ≠ some 255 := by decide
  exact ⟨hp, (@prefixedBy_eq t ⟨0, 0, [1]⟩ (.inl hp)).trans rfl⟩

/-- With a key that ends in a byte below 255, or in 255s alone, `remove_prefix_filtered`
removes exactly the rows whose key extends the identifier's and whose record the
predicate accepts, and counts them. -/
theorem removePrefixFiltered_eq {t : Records} {id : RecordIdentifier} {predicate : Record → Bool}
    (hp : id.key.getLast? ≠ some 255 ∨ ∀ b ∈ id.key, b = 255) :
    (removePrefixFiltered t id predicate).1.rows =
        t.rows.filter (fun r => !(RangeKey.isPrefixOf id r.1 && predicate r.2.record)) ∧
      (removePrefixFiltered t id predicate).2 =
        (t.rows.filter fun r => RangeKey.isPrefixOf id r.1 && predicate r.2.record).length := by
  simp only [removePrefixFiltered, authorPrefix_contains_eq hp, and_self]

/-- The rows at `[1, 2]` and `[2]`: removing the prefix `[1]` removes the first, and counts it. -/
theorem removePrefixFiltered_eq_two_rows :
    let t : Records := ⟨[(⟨0, 0, [1, 2]⟩, ⟨5, 0, 0, 1, 0⟩), (⟨0, 0, [2]⟩, ⟨5, 0, 0, 1, 0⟩)], by decide⟩
    ([1] : List Byte).getLast? ≠ some 255 ∧
      (removePrefixFiltered t ⟨0, 0, [1]⟩ fun _ => true).1.rows = [(⟨0, 0, [2]⟩, ⟨5, 0, 0, 1, 0⟩)] ∧
      (removePrefixFiltered t ⟨0, 0, [1]⟩ fun _ => true).2 = 1 := by
  intro t
  have hp : ([1] : List Byte).getLast? ≠ some 255 := by decide
  obtain ⟨hrows, hcount⟩ := @removePrefixFiltered_eq t ⟨0, 0, [1]⟩ (fun _ => true) (.inl hp)
  exact ⟨hp, hrows.trans rfl, hcount.trans rfl⟩

/-- The prefix `[1, 255]` ends in 255 after a smaller byte: its end is `[2, 0]`, and the
key `[2]`, of any namespace and author, lies within both tables' bounds, though the
prefix does not start it. `prefixed_by` reads its row and `remove_prefix_filtered`
removes it. -/
theorem prefix_bounds_admit_other_keys (ns : NamespaceId) (author : AuthorId) (value : RecordsValue) :
    (RecordsBounds.authorKey ns author (.keyPrefix [1, 255])).contains ⟨ns, author, [2]⟩ = true ∧
      (ByKeyBounds.new ns (.keyPrefix [1, 255])).contains ⟨ns, [2], author⟩ = true ∧
      ¬ ([1, 255] : List Byte) <+: [2] ∧
      prefixedBy ⟨[(⟨ns, author, [2]⟩, value)], List.pairwise_singleton _ _⟩ ⟨ns, author, [1, 255]⟩ =
        [intoEntry ⟨ns, author, [2]⟩ value] ∧
      (removePrefixFiltered ⟨[(⟨ns, author, [2]⟩, value)], List.pairwise_singleton _ _⟩
        ⟨ns, author, [1, 255]⟩ fun _ => true).2 = 1 := by
  have hinc : incrementByOne [1, 255] = some [2, 0] := by decide
  have hlo : ([1, 255] : List Byte) < [2] := by decide
  have hhi : ([2] : List Byte) < [2, 0] := by decide
  have hrecords : (RecordsBounds.authorKey ns author (.keyPrefix [1, 255])).contains
      ⟨ns, author, [2]⟩ = true := by
    simp only [RecordsBounds.authorKey_keyPrefix, RecordsBounds.prefixEnd, hinc, RecordsBounds.contains,
      Bound.admitsFrom, Bound.admitsTo, Bool.and_eq_true, decide_eq_true_eq,
      RecordIdentifier.le_iff, RecordIdentifier.lt_iff, lt_irrefl, true_and, false_or]
    exact ⟨hlo.le, hhi⟩
  have hbykey : (ByKeyBounds.new ns (.keyPrefix [1, 255])).contains ⟨ns, [2], author⟩ = true := by
    simp only [ByKeyBounds.new, ByKeyBounds.prefixEnd, hinc, ByKeyBounds.contains, Bound.admitsFrom,
      Bound.admitsTo, Bool.and_eq_true, decide_eq_true_eq, RecordsByKeyId.le_iff,
      RecordsByKeyId.lt_iff, lt_irrefl, true_and, false_or]
    exact ⟨.inl hlo, .inl hhi⟩
  refine ⟨hrecords, hbykey, by decide, ?_, ?_⟩
  · simp [prefixedBy, Records.range, RecordsBounds.authorPrefix, hrecords]
  · simp [removePrefixFiltered, RecordsBounds.authorPrefix, hrecords]

end Iroh.Docs.Store
