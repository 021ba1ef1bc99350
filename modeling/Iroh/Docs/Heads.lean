import Iroh.Docs.Entry
import Iroh.Lib.Postcard

/-! `AuthorHeads` (`heads.rs`): the timestamp of the latest entry of each author, as a
`BTreeMap` kept as its entries in author order.

`insert` keeps the larger of two timestamps of an author, so heads built by inserting
a list of pairs hold, for each author of the list, the greatest of its timestamps
(`isLatest_foldl_insert`).

`encode` writes the heads newest first under their timestamps, and `decode` reads
back the heads of what was written (`decode_encode`): all of them when no two
authors share a timestamp (`decode_encode_none`), and with a size limit of at least
one byte the longest run of newest items that fits (`encode_some`). Two authors
with one timestamp collapse into the greater, and a limit of zero is exceeded by
the byte of the empty list (`encode_collapses_equal_timestamps`). -/

namespace Iroh.Docs

open Ranger

/-- `AuthorHeads`. -/
structure AuthorHeads where
  heads : List (AuthorId × UInt64)
  sorted : heads.Pairwise fun a b => a.1 < b.1

namespace AuthorHeads

/-- `AuthorHeads::default`. -/
def empty : AuthorHeads := ⟨[], List.Pairwise.nil⟩

/-- `AuthorHeads::get`. -/
def get (h : AuthorHeads) (author : AuthorId) : Option UInt64 :=
  (h.heads.find? fun e => e.1 = author).map Prod.snd

/-- `AuthorHeads::insert`: an author already present keeps the larger timestamp. -/
def insert (h : AuthorHeads) (author : AuthorId) (timestamp : UInt64) : AuthorHeads :=
  let timestamp := match h.get author with
    | some t => max t timestamp
    | none => timestamp
  ⟨SimpleStore.insertKey author timestamp h.heads, SimpleStore.insertKey_sorted _ _ h.sorted⟩

/-- `AuthorHeads::has_news_for`: how many of our authors the other has not, or has
older; `none` for none (`NonZeroU64::new`). -/
def hasNewsFor (h other : AuthorHeads) : Option Nat :=
  let updates := (h.heads.filter fun e =>
    ((other.get e.1).map fun theirs => decide (theirs < e.2)).getD true).length
  if updates = 0 then none else some updates

theorem get_eq_some {h : AuthorHeads} {author : AuthorId} {t : UInt64} :
    h.get author = some t ↔ (author, t) ∈ h.heads :=
  SimpleStore.lookup_eq_some h.sorted

theorem get_eq_none {h : AuthorHeads} {author : AuthorId} :
    h.get author = none ↔ ∀ t, (author, t) ∉ h.heads :=
  SimpleStore.lookup_eq_none

/-- Heads are equal when every author has the same timestamp in both. -/
theorem ext {h₁ h₂ : AuthorHeads} (H : ∀ author, h₁.get author = h₂.get author) : h₁ = h₂ := by
  have hmem : ∀ e, e ∈ h₁.heads ↔ e ∈ h₂.heads := fun e => by
    rw [← get_eq_some, ← get_eq_some, H]
  have : Std.Irrefl fun a b : AuthorId × UInt64 => a.1 < b.1 := ⟨fun _ => lt_irrefl _⟩
  have : Std.Antisymm fun a b : AuthorId × UInt64 => a.1 < b.1 :=
    ⟨fun _ _ hab hba => absurd (hab.trans hba) (lt_irrefl _)⟩
  obtain ⟨l₁, s₁⟩ := h₁
  obtain ⟨l₂, s₂⟩ := h₂
  simp only [mk.injEq]
  exact List.Pairwise.eq_of_mem_iff s₁ s₂ hmem

@[simp] theorem get_empty (author : AuthorId) : empty.get author = none := rfl

theorem get_insert_self (h : AuthorHeads) (author : AuthorId) (timestamp : UInt64) :
    (h.insert author timestamp).get author = some ((h.get author).elim timestamp (max · timestamp)) := by
  show SimpleStore.lookup (SimpleStore.insertKey author _ h.heads) author = _
  rw [SimpleStore.lookup_insertKey_self h.sorted]
  cases h.get author <;> rfl

theorem get_insert_of_ne (h : AuthorHeads) {author other : AuthorId} (timestamp : UInt64)
    (hne : other ≠ author) : (h.insert author timestamp).get other = h.get other :=
  SimpleStore.lookup_insertKey_of_ne h.sorted _ hne

/-- What an author's head must be for a list of its timestamps: none for none, and
otherwise the greatest of them. -/
def IsLatest (timestamps : List UInt64) : Option UInt64 → Prop
  | none => timestamps = []
  | some t => t ∈ timestamps ∧ ∀ t' ∈ timestamps, t' ≤ t

theorem IsLatest.unique {timestamps : List UInt64} {o o' : Option UInt64}
    (h : IsLatest timestamps o) (h' : IsLatest timestamps o') : o = o' := by
  cases o with
  | none =>
    cases o' with
    | none => rfl
    | some t' => exact absurd h'.1 (by simp [show timestamps = [] from h])
  | some t =>
    cases o' with
    | none => exact absurd h.1 (by simp [show timestamps = [] from h'])
    | some t' => exact congrArg some (UInt64.le_antisymm (h'.2 t h.1) (h.2 t' h'.1))

theorem max_eq_or (t u : UInt64) : max t u = t ∨ max t u = u := by
  have h := UInt64.toNat_max t u
  rcases Nat.le_total t.toNat u.toNat with hle | hle
  · exact .inr (UInt64.toNat_inj.mp (by omega))
  · exact .inl (UInt64.toNat_inj.mp (by omega))

theorem le_max_left' (t u : UInt64) : t ≤ max t u := by
  rw [UInt64.le_iff_toNat_le, UInt64.toNat_max]
  omega

theorem le_max_right' (t u : UInt64) : u ≤ max t u := by
  rw [UInt64.le_iff_toNat_le, UInt64.toNat_max]
  omega

/-- Inserting one more timestamp of the author keeps its head the greatest. -/
theorem IsLatest.insert {timestamps : List UInt64} {h : AuthorHeads} {author : AuthorId}
    (hl : IsLatest timestamps (h.get author)) (t : UInt64) :
    IsLatest (timestamps ++ [t]) ((h.insert author t).get author) := by
  rw [get_insert_self]
  cases hg : h.get author with
  | none =>
    rw [hg] at hl
    simp only [IsLatest] at hl
    subst hl
    exact ⟨by simp, fun t' ht' => by simp at ht'; exact ht' ▸ UInt64.le_refl _⟩
  | some t₀ =>
    rw [hg] at hl
    obtain ⟨hmem, hle⟩ := hl
    refine ⟨?_, fun t' ht' => ?_⟩
    · rcases max_eq_or t₀ t with heq | heq <;> simp [Option.elim, heq, hmem]
    · rcases List.mem_append.mp ht' with ht' | ht'
      · exact UInt64.le_trans (hle t' ht') (le_max_left' t₀ t)
      · rw [List.mem_singleton.mp ht']
        exact le_max_right' t₀ t

/-- **Heads built by inserting a list of authors' timestamps hold each author's
greatest**, and nothing for an author the list does not name. -/
theorem isLatest_foldl_insert {α : Type} (f : α → AuthorId) (g : α → UInt64) (l : List α)
    (author : AuthorId) :
    IsLatest ((l.filter fun x => f x = author).map g)
      ((l.foldl (fun h x => h.insert (f x) (g x)) empty).get author) := by
  -- generalized over the heads the fold starts from and the timestamps they already hold
  suffices H : ∀ (h : AuthorHeads) (pre : List UInt64), IsLatest pre (h.get author) →
      IsLatest (pre ++ (l.filter fun x => f x = author).map g)
        ((l.foldl (fun h x => h.insert (f x) (g x)) h).get author) by
    simpa using H empty [] rfl
  induction l with
  | nil => intro h pre hl; simpa using hl
  | cons x l ih =>
    intro h pre hl
    rw [List.foldl_cons]
    by_cases hx : f x = author
    · subst hx
      have hnext := ih _ _ (hl.insert (g x))
      simpa [List.filter_cons] using hnext
    · have hnext := ih (h.insert (f x) (g x)) pre (by rwa [get_insert_of_ne _ _ (Ne.symm hx)])
      simpa [List.filter_cons, hx] using hnext

/-! ### Encoding

`encode` re-keys the heads by timestamp into a `BTreeMap<Timestamp, AuthorId>` and
writes its items newest first as a postcard `Vec<(Timestamp, AuthorId)>`, stopping
before the first item that takes the encoding past the size limit; `decode` reads
the items back and inserts each. -/

/-- An item, `(Timestamp, AuthorId)` as postcard writes it: the timestamp's varint,
then the author's 32 bytes. -/
def encodeItem (item : UInt64 × AuthorId) : List UInt8 :=
  Postcard.varint item.1.toNat ++ Slice.beBytes 32 item.2.val

/-- An item read back. -/
def takeItem (bytes : List UInt8) : Option ((UInt64 × AuthorId) × List UInt8) := do
  let (timestamp, bytes) ← Postcard.takeVarint bytes
  let (author, bytes) ← Postcard.takeArray 32 bytes
  pure ((UInt64.ofNat timestamp, ⟨Slice.beValue author % 2 ^ 256, Nat.mod_lt _ (Nat.two_pow_pos 256)⟩), bytes)

/-- `by_timestamp`: the heads in author order, each inserted under its timestamp, so
that of two authors with one timestamp the later, greater one stays. -/
def byTimestamp (h : AuthorHeads) : List (Nat × AuthorId) :=
  h.heads.foldl (fun m e => SimpleStore.insertKey e.2.toNat e.1 m) []

/-- `by_timestamp.into_iter().rev()`: its items, newest first. -/
def newestFirst (h : AuthorHeads) : List (UInt64 × AuthorId) :=
  (byTimestamp h).reverse.map fun e => (UInt64.ofNat e.1, e.2)

/-- The loop of `encode`: each item is pushed, and the first that takes the encoding
past the size limit is popped and ends the loop. -/
def pushItems (sizeLimit : Option Nat) (items : List (UInt64 × AuthorId)) :
    List (UInt64 × AuthorId) → List (UInt64 × AuthorId)
  | [] => items
  | item :: rest =>
    match sizeLimit with
    | some limit =>
      if limit < (Postcard.seq encodeItem (items ++ [item])).length then items
      else pushItems sizeLimit (items ++ [item]) rest
    | none => pushItems sizeLimit (items ++ [item]) rest

/-- `AuthorHeads::encode`. -/
def encode (h : AuthorHeads) (sizeLimit : Option Nat) : List UInt8 :=
  Postcard.seq encodeItem (pushItems sizeLimit [] (newestFirst h))

/-- The loop of `decode`: each item inserted. -/
def insertAll (items : List (UInt64 × AuthorId)) : AuthorHeads :=
  items.foldl (fun h item => h.insert item.2 item.1) empty

/-- `AuthorHeads::decode`. -/
def decode (bytes : List UInt8) : Option AuthorHeads :=
  (Postcard.takeSeq takeItem bytes).map fun r => insertAll r.1

theorem pushItems_none (items rest : List (UInt64 × AuthorId)) : pushItems none items rest = items ++ rest := by
  induction rest generalizing items with
  | nil => simp [pushItems]
  | cons item rest ih => rw [pushItems, ih, List.append_assoc, List.singleton_append]

theorem length_pushItems_le (sizeLimit : Option Nat) (items rest : List (UInt64 × AuthorId)) :
    (pushItems sizeLimit items rest).length ≤ items.length + rest.length := by
  induction rest generalizing items with
  | nil => simp [pushItems]
  | cons item rest ih =>
    have hrest := ih (items ++ [item])
    rw [List.length_append, List.length_singleton] at hrest
    cases sizeLimit with
    | none =>
      simp only [pushItems, List.length_cons]
      omega
    | some limit =>
      simp only [pushItems, List.length_cons]
      split_ifs
      · omega
      · omega

/-- With a size limit the loop pushes a prefix of the items, each push of which fit,
and stops early only at an item that does not. -/
theorem pushItems_some (limit : Nat) (items rest : List (UInt64 × AuthorId)) :
    ∃ j ≤ rest.length, pushItems (some limit) items rest = items ++ rest.take j ∧
      (∀ i, 0 < i → i ≤ j → (Postcard.seq encodeItem (items ++ rest.take i)).length ≤ limit) ∧
      (j < rest.length → limit < (Postcard.seq encodeItem (items ++ rest.take (j + 1))).length) := by
  induction rest generalizing items with
  | nil => exact ⟨0, Nat.le_refl _, by simp [pushItems], fun i hi hij => absurd hij (by omega),
      fun h => absurd h (by simp)⟩
  | cons item rest ih =>
    by_cases hover : limit < (Postcard.seq encodeItem (items ++ [item])).length
    · refine ⟨0, Nat.zero_le _, ?_, fun i hi hij => absurd hij (by omega), fun _ => by simpa using hover⟩
      simp [pushItems, hover]
    · obtain ⟨j, hj, heq, hfit, hnext⟩ := ih (items ++ [item])
      have hcons : ∀ i, items ++ (item :: rest).take (i + 1) = items ++ [item] ++ rest.take i := by
        intro i
        rw [List.take_succ_cons, List.append_assoc, List.singleton_append]
      refine ⟨j + 1, by simpa using hj, ?_, ?_, ?_⟩
      · simp only [pushItems, hover, if_false, heq, hcons]
      · intro i hi hij
        obtain ⟨i, rfl⟩ : ∃ i', i = i' + 1 := ⟨i - 1, by omega⟩
        rw [hcons]
        by_cases hi0 : i = 0
        · subst hi0
          simpa using Nat.le_of_not_lt hover
        · exact hfit i (by omega) (by omega)
      · intro hlt
        rw [hcons]
        exact hnext (by simpa using hlt)

theorem takeItem_encodeItem (item : UInt64 × AuthorId) (rest : List UInt8) :
    takeItem (encodeItem item ++ rest) = some (item, rest) := by
  have hauthor : Slice.beValue (Slice.beBytes 32 item.2.val) % 2 ^ 256 = item.2.val := by
    rw [Slice.beValue_beBytes, Nat.mod_mod_of_dvd _ (by decide), Nat.mod_eq_of_lt (by simp)]
  rw [takeItem, encodeItem, List.append_assoc, Postcard.takeVarint_varint item.1.toNat_lt]
  simp only [Option.bind_eq_bind, Option.bind_some, Postcard.takeArray_append (Slice.length_beBytes 32 _),
    hauthor, UInt64.ofNat_toNat, Option.pure_def]

/-- What `decode` makes of what `encode` wrote: the heads of the items it pushed. -/
theorem decode_encode (h : AuthorHeads) (sizeLimit : Option Nat) (hlen : h.heads.length < 2 ^ 64) :
    decode (encode h sizeLimit) = some (insertAll (pushItems sizeLimit [] (newestFirst h))) := by
  have hpushed : (pushItems sizeLimit [] (newestFirst h)).length < 2 ^ 64 := by
    have hpush := length_pushItems_le sizeLimit [] (newestFirst h)
    have hby := SimpleStore.length_foldl_insertKey_le (fun e : AuthorId × UInt64 => e.2.toNat)
      (fun e => e.1) h.heads []
    simp only [newestFirst, List.length_map, List.length_reverse, byTimestamp] at hpush ⊢
    simp only [List.length_nil] at hpush hby
    omega
  have hround := Postcard.takeSeq_seq takeItem_encodeItem hpushed []
  rw [List.append_nil] at hround
  rw [decode, encode, hround]
  rfl

theorem byTimestamp_sorted (h : AuthorHeads) : (byTimestamp h).Pairwise fun a b => a.1 < b.1 :=
  SimpleStore.foldl_insertKey_sorted _ _ List.Pairwise.nil _

/-- Every item is a head of the author. -/
theorem head_of_mem_newestFirst {h : AuthorHeads} {t : UInt64} {a : AuthorId}
    (hm : (t, a) ∈ newestFirst h) : (a, t) ∈ h.heads := by
  obtain ⟨⟨n, a'⟩, hn, heq⟩ := List.mem_map.mp hm
  rcases SimpleStore.mem_foldl_insertKey _ _ (List.mem_reverse.mp hn) with hn | ⟨e, he, he'⟩
  · exact absurd hn List.not_mem_nil
  · simp only [Prod.mk.injEq] at heq he'
    obtain ⟨rfl, rfl⟩ := he'
    obtain ⟨rfl, rfl⟩ := heq
    simpa using he

/-- A head is an item when no other author has its timestamp. -/
theorem mem_newestFirst_of_unique {h : AuthorHeads} {a : AuthorId} {t : UInt64} (hm : (a, t) ∈ h.heads)
    (huniq : ∀ a', (a', t) ∈ h.heads → a' = a) : (t, a) ∈ newestFirst h := by
  have hby : (t.toNat, a) ∈ byTimestamp h := by
    refine SimpleStore.mem_foldl_insertKey_of_agree _ _ List.Pairwise.nil (.inr ⟨(a, t), hm, rfl, rfl⟩) ?_
    intro e he het
    have ht : e.2 = t := UInt64.toNat_inj.mp het
    exact huniq e.1 (by rw [← ht]; exact he)
  exact List.mem_map.mpr ⟨(t.toNat, a), List.mem_reverse.mpr hby, by simp⟩

/-- Heads whose timestamps differ are the heads of their items. -/
theorem insertAll_newestFirst (h : AuthorHeads) (hd : (h.heads.map Prod.snd).Nodup) :
    insertAll (newestFirst h) = h := by
  apply ext
  intro author
  refine (isLatest_foldl_insert (fun x : UInt64 × AuthorId => x.2) (fun x => x.1) (newestFirst h) author).unique ?_
  cases hg : h.get author with
  | none =>
    show ((newestFirst h).filter fun x => x.2 = author).map _ = []
    rw [List.map_eq_nil_iff, List.filter_eq_nil_iff]
    intro x hx hxa
    have hhead := head_of_mem_newestFirst (show (x.1, x.2) ∈ newestFirst h from hx)
    rw [of_decide_eq_true hxa] at hhead
    exact get_eq_none.mp hg x.1 hhead
  | some t =>
    have hm := get_eq_some.mp hg
    refine ⟨?_, fun t' ht' => ?_⟩
    · refine List.mem_map.mpr ⟨(t, author), List.mem_filter.mpr ⟨mem_newestFirst_of_unique hm ?_, by simp⟩, rfl⟩
      intro a' ha'
      exact (Prod.ext_iff.mp (List.inj_on_of_nodup_map hd ha' hm rfl)).1
    · obtain ⟨x, hx, rfl⟩ := List.mem_map.mp ht'
      obtain ⟨hx, hxa⟩ := List.mem_filter.mp hx
      have hhead := head_of_mem_newestFirst (show (x.1, x.2) ∈ newestFirst h from hx)
      rw [of_decide_eq_true hxa] at hhead
      have heq := SimpleStore.eq_of_key_eq h.sorted hhead hm rfl
      rw [Prod.mk.injEq] at heq
      rw [heq.2]
      exact UInt64.le_refl t

/-- **Without a size limit, heads whose timestamps differ read back.** -/
theorem decode_encode_none (h : AuthorHeads) (hlen : h.heads.length < 2 ^ 64)
    (hd : (h.heads.map Prod.snd).Nodup) : decode (encode h none) = some h := by
  rw [decode_encode h none hlen, pushItems_none, List.nil_append, insertAll_newestFirst h hd]

/-- Two authors with different timestamps. -/
theorem decode_encode_none_two :
    let h : AuthorHeads := (empty.insert 0 5).insert 1 6
    h.heads.length < 2 ^ 64 ∧ (h.heads.map Prod.snd).Nodup ∧ decode (encode h none) = some h := by
  intro h
  have hlen : h.heads.length < 2 ^ 64 := by decide
  have hd : (h.heads.map Prod.snd).Nodup := by decide
  exact ⟨hlen, hd, decode_encode_none h hlen hd⟩

/-- The items are newest first: their timestamps strictly decrease. -/
theorem newestFirst_sorted (h : AuthorHeads) : (newestFirst h).Pairwise fun a b => b.1 < a.1 := by
  have hs : (byTimestamp h).reverse.Pairwise fun a b => b.1 < a.1 :=
    List.pairwise_reverse.mpr (byTimestamp_sorted h)
  have hbound : ∀ e ∈ byTimestamp h, e.1 < 2 ^ 64 := by
    intro e he
    rcases SimpleStore.mem_foldl_insertKey _ _ he with he | ⟨e', -, rfl⟩
    · exact absurd he List.not_mem_nil
    · exact e'.2.toNat_lt
  rw [newestFirst, List.pairwise_map]
  refine hs.imp_of_mem fun {x y} hx hy hlt => ?_
  rw [UInt64.lt_iff_toNat_lt, UInt64.toNat_ofNat_of_lt' (hbound y (List.mem_reverse.mp hy)),
    UInt64.toNat_ofNat_of_lt' (hbound x (List.mem_reverse.mp hx))]
  exact hlt

/-- **With a size limit of at least one byte, the encoding fits**, and holds the
longest run of newest items whose encoding fits; it reads back as their heads. -/
theorem encode_some (h : AuthorHeads) (limit : Nat) (hlimit : 0 < limit) (hlen : h.heads.length < 2 ^ 64) :
    ∃ j ≤ (newestFirst h).length,
      encode h (some limit) = Postcard.seq encodeItem ((newestFirst h).take j) ∧
      (encode h (some limit)).length ≤ limit ∧
      (∀ i, j < i → i ≤ (newestFirst h).length →
        limit < (Postcard.seq encodeItem ((newestFirst h).take i)).length) ∧
      decode (encode h (some limit)) = some (insertAll ((newestFirst h).take j)) := by
  obtain ⟨j, hj, hpush, hfit, hnext⟩ := pushItems_some limit [] (newestFirst h)
  simp only [List.nil_append] at hpush hfit hnext
  have henc : encode h (some limit) = Postcard.seq encodeItem ((newestFirst h).take j) := by
    rw [encode, hpush]
  refine ⟨j, hj, henc, ?_, ?_, ?_⟩
  · rw [henc]
    by_cases hj0 : j = 0
    · subst hj0
      simp only [List.take_zero, Postcard.seq, List.length_nil, Postcard.varint_zero, List.flatMap_nil,
        List.append_nil, List.length_singleton]
      omega
    · exact hfit j (by omega) (Nat.le_refl j)
  · intro i hji hi
    calc limit < (Postcard.seq encodeItem ((newestFirst h).take (j + 1))).length := hnext (by omega)
      _ ≤ (Postcard.seq encodeItem ((newestFirst h).take i)).length :=
        Postcard.length_seq_take_mono _ _ hji
  · rw [decode_encode h _ hlen, hpush]

/-- Two heads under a limit of 40 bytes: the encoding fits, and reads back as the newest heads. -/
theorem encode_some_two_heads :
    let h := (empty.insert 0 3).insert 1 5
    0 < 40 ∧ h.heads.length < 2 ^ 64 ∧ ∃ j ≤ 2, (encode h (some 40)).length ≤ 40 ∧
      decode (encode h (some 40)) = some (insertAll ((newestFirst h).take j)) := by
  intro h
  have hlen : h.heads.length < 2 ^ 64 := by decide
  obtain ⟨j, hj, -, hfit, -, hdec⟩ := encode_some h 40 (by decide) hlen
  exact ⟨by decide, hlen, j, hj, hfit, hdec⟩

/-- **Two authors with one timestamp do not survive the round trip**, and a size limit
of zero is exceeded: `by_timestamp` keeps only the greater author of timestamp 5, and
the empty list of items still takes a byte. -/
theorem encode_collapses_equal_timestamps :
    let h : AuthorHeads := (empty.insert 0 5).insert 1 5
    h.heads = [(0, 5), (1, 5)] ∧ (decode (encode h none)).map heads = some [(1, 5)] ∧
      encode h (some 0) = [0] := by
  intro h
  exact ⟨by decide, by decide, by decide⟩

end AuthorHeads

end Iroh.Docs
