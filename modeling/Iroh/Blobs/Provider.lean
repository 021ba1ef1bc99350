import Iroh.Blobs.RangeSpecSeq
import Iroh.Blobs.HashSeq

/-! What the provider sends for a request on a hash sequence (`provider.rs`,
`transfer_hash_seq`).

The provider walks the non-empty specs of the request in order of offset: offset 0
is the root, offset `o` the child at index `o - 1`. It keeps the stream of children at
the one after the last child it sent (`prev`), skips `offset - prev - 1` children to
reach the next, sends it, and stops when the stream is exhausted. Writes, events and
statistics are left out; the store is a predicate on hashes (`send_blob` reports
`NotFound` for a hash it lacks).

While the skips stay below `2 ^ 59` children, the stream is where it should be and
the provider sends what the request selects (`transfer_eq_expected`): the root
ranges if offset 0 is selected, then each selected child, up to the first past the
end. `HashSeq::drop_front` computes `n * 32` as a `usize`, which wraps in a release
build: a request for the child at offset `2 ^ 59 + 1` of a sequence of one child gets
the first child instead of nothing (`huge_offset_sends_first_child`). -/

namespace Iroh.Blobs.Provider

/-- `SentStatus`. -/
inductive SentStatus where
  | sent
  | notFound
deriving DecidableEq, Repr

/-- What the provider sends for one selected offset. -/
inductive Sent where
  | root (ranges : RangeSpec)
  | blob (hash : Hash) (ranges : RangeSpec)
deriving DecidableEq

/-- The loop of `transfer_hash_seq` over the non-empty specs: what it sends, and how it
ends. `stream` is `None` for a request of the root alone. -/
def transferLoop (has : Hash → Bool) : Option HashSeq → Nat → List (Nat × RangeSpec) →
    List Sent × Except String SentStatus
  | _, _, [] => ([], .ok .sent)
  | stream, prev, (offset, ranges) :: rest =>
    if offset = 0 then
      let r := transferLoop has stream prev rest
      (.root ranges :: r.1, r.2)
    else
      match stream with
      | none => ([], .error "collection parser not available")
      | some c =>
        let skipped := if prev < offset - 1 then c.skip (offset - prev - 1) else .ok c
        match skipped with
        | .error e => ([], .error e)
        | .ok c =>
          match c.popFront with
          | some (hash, c) =>
            if has hash then
              let r := transferLoop has (some c) offset rest
              (.blob hash ranges :: r.1, r.2)
            else ([], .ok .notFound)
          | none => ([], .ok .sent)

/-- `transfer_hash_seq` for a request with `ranges` on the root blob `root`. The `for`
loop over `iter_non_empty` runs until the iterator ends, which it does within
`2 ^ 64` items (`length_yields_iterNonEmpty_le`). -/
def transferHashSeq (has : Hash → Bool) (ranges : RangeSpecSeq) (root : List UInt8) :
    List Sent × Except String SentStatus :=
  let justRoot := match ranges.asSingle with
    | some (0, _) => true
    | _ => false
  let items := ranges.iterNonEmpty.yields (2 ^ 64)
  if justRoot then transferLoop has none 0 items
  else
    match HashSeq.tryFrom root with
    | .ok stream => transferLoop has (some stream) 0 items
    | .error e => ([], .error e)

/-! ### What the request selects -/

/-- What a request selects of a sequence of children, as the protocol's documentation (`protocol.rs`)
reads: the root ranges at offset 0, the child at index `o - 1` at offset `o`, up to the
first offset past the end or the first child the store lacks. -/
def expected (has : Hash → Bool) (hashes : List Hash) : List (Nat × RangeSpec) → List Sent
  | [] => []
  | (offset, ranges) :: rest =>
    if offset = 0 then .root ranges :: expected has hashes rest
    else
      match hashes[offset - 1]? with
      | some hash => if has hash then .blob hash ranges :: expected has hashes rest else []
      | none => []

/-- The stream after the child `prev`, moved on to the child `offset`: there unless the
sequence is shorter, while the skip stays below `2 ^ 59` children. -/
theorem skip_ofHashes_drop {hashes : List Hash} {prev offset : Nat} (hprev : prev ≤ hashes.length)
    (hlt : prev < offset) (hgap : offset - prev - 1 < 2 ^ 59) :
    (if prev < offset - 1 then (HashSeq.ofHashes (hashes.drop prev)).skip (offset - prev - 1)
      else .ok (HashSeq.ofHashes (hashes.drop prev))) =
      if hashes.length < offset - 1 then .error "end of sequence" else .ok (HashSeq.ofHashes (hashes.drop (offset - 1))) := by
  by_cases hgapPos : prev < offset - 1
  · rw [if_pos hgapPos, HashSeq.skip, HashSeq.dropFront_ofHashes hgap, List.length_drop, List.drop_drop]
    by_cases hshort : hashes.length < offset - 1
    · rw [if_pos (by omega), if_pos hshort]
    · rw [if_neg (by omega), if_neg hshort, show prev + (offset - prev - 1) = offset - 1 by omega]
  · rw [if_neg hgapPos, if_neg (by omega), show offset - 1 = prev by omega]

/-- **While the skips stay below `2 ^ 59` children, the provider sends what the
request selects**, from a stream at the child `prev`. -/
theorem transferLoop_eq_expected (has : Hash → Bool) (hashes : List Hash) {prev : Nat}
    {items : List (Nat × RangeSpec)} (hprev : prev ≤ hashes.length)
    (hsorted : (items.map Prod.fst).Pairwise (· < ·))
    (hbound : ∀ x ∈ items, 0 < x.1 → prev < x.1 ∧ x.1 ≤ 2 ^ 59) :
    (transferLoop has (some (HashSeq.ofHashes (hashes.drop prev))) prev items).1 = expected has hashes items := by
  induction items generalizing prev with
  | nil => rfl
  | cons item rest ih =>
    obtain ⟨offset, ranges⟩ := item
    rw [List.map_cons, List.pairwise_cons] at hsorted
    have hafter : ∀ y ∈ rest, offset < y.1 := fun y hy => hsorted.1 y.1 (List.mem_map_of_mem hy)
    by_cases h0 : offset = 0
    · rw [transferLoop, if_pos h0, expected, if_pos h0]
      exact congrArg (List.cons _) (ih hprev hsorted.2 fun y hy hpos => hbound y (List.mem_cons_of_mem _ hy) hpos)
    · obtain ⟨hlt, hle⟩ := hbound (offset, ranges) (List.mem_cons_self ..) (Nat.pos_of_ne_zero h0)
      rw [transferLoop, if_neg h0, expected, if_neg h0]
      simp only
      rw [skip_ofHashes_drop hprev hlt (by omega)]
      by_cases hshort : hashes.length < offset - 1
      · -- past the end of the sequence: the skip fails and nothing is sent
        rw [if_pos hshort, List.getElem?_eq_none (by omega)]
      · rw [if_neg hshort]
        simp only
        cases hdrop : hashes.drop (offset - 1) with
        | nil =>
          have hlen : hashes.length ≤ offset - 1 := List.drop_eq_nil_iff.mp hdrop
          rw [List.getElem?_eq_none hlen]
          rfl
        | cons hash tail =>
          have hget : hashes[offset - 1]? = some hash := by
            rw [← List.head?_drop, hdrop]
            rfl
          have htail : hashes.drop offset = tail := by
            rw [show offset = (offset - 1) + 1 by omega, ← List.drop_drop, hdrop]
            rfl
          rw [HashSeq.popFront_ofHashes, hget]
          simp only
          by_cases hhas : has hash = true
          · rw [if_pos hhas, if_pos hhas, ← htail]
            have hlen : offset ≤ hashes.length := by
              have := congrArg List.length hdrop
              rw [List.length_drop, List.length_cons] at this
              omega
            exact congrArg (List.cons _) (ih hlen hsorted.2 fun y hy _ =>
              ⟨hafter y hy, (hbound y (List.mem_cons_of_mem _ hy) (by have := hafter y hy; omega)).2⟩)
          · rw [if_neg hhas, if_neg hhas]

/-- A request of the root alone sends the root ranges, with no stream of children. -/
theorem transferLoop_root_only (has : Hash → Bool) (hashes : List Hash) (stream : Option HashSeq) (prev : Nat)
    {items : List (Nat × RangeSpec)} (hroot : ∀ x ∈ items, x.1 = 0) :
    (transferLoop has stream prev items).1 = expected has hashes items := by
  induction items with
  | nil => rfl
  | cons item rest ih =>
    obtain ⟨offset, ranges⟩ := item
    have h0 : offset = 0 := hroot _ (List.mem_cons_self ..)
    have hrest := ih fun x hx => hroot x (List.mem_cons_of_mem _ hx)
    rw [expected, if_pos h0]
    cases stream with
    | none =>
      rw [transferLoop, if_pos h0]
      exact congrArg (List.cons _) hrest
    | some c =>
      rw [transferLoop, if_pos h0]
      exact congrArg (List.cons _) hrest

/-- Unless the request is for the root alone, the provider parses the root as the
sequence of children and walks the non-empty specs. -/
theorem transferHashSeq_eq_of_not_root (has : Hash → Bool) (hashes : List Hash) {ranges : RangeSpecSeq}
    (h : ∀ spec, ranges.asSingle ≠ some (0, spec)) :
    transferHashSeq has ranges (HashSeq.ofHashes hashes).bytes =
      transferLoop has (some (HashSeq.ofHashes hashes)) 0 (ranges.iterNonEmpty.yields (2 ^ 64)) := by
  unfold transferHashSeq
  split
  · rename_i spec hsingle
    exact absurd hsingle (h spec)
  · rw [if_neg Bool.false_ne_true, HashSeq.tryFrom_bytes]

/-- **`transfer_hash_seq` sends what the request selects**, for a request whose
selected offsets are at most `2 ^ 59`, so that no skip wraps. -/
theorem transfer_eq_expected (has : Hash → Bool) (hashes : List Hash) (ranges : RangeSpecSeq)
    (hbound : ∀ x ∈ ranges.iterNonEmpty.yields (2 ^ 64), x.1 ≤ 2 ^ 59) :
    (transferHashSeq has ranges (HashSeq.ofHashes hashes).bytes).1 =
      expected has hashes (ranges.iterNonEmpty.yields (2 ^ 64)) := by
  by_cases hroot : ∃ spec, ranges.asSingle = some (0, spec)
  · obtain ⟨spec, hsingle⟩ := hroot
    unfold transferHashSeq
    rw [hsingle]
    exact transferLoop_root_only has hashes none 0 (RangeSpecSeq.yields_of_asSingle hsingle _)
  · rw [transferHashSeq_eq_of_not_root has hashes fun spec h => hroot ⟨spec, h⟩]
    have h := @transferLoop_eq_expected has hashes 0 _ (Nat.zero_le _) (RangeSpecSeq.yields_sorted ranges _)
      fun x hx hpos => ⟨hpos, hbound x hx⟩
    rwa [List.drop_zero] at h

/-- The first child of a sequence of one, requested whole. -/
theorem transfer_eq_expected_first_child :
    let request : RangeSpecSeq := ⟨[(1, RangeSpec.all), (1, RangeSpec.EMPTY)]⟩
    let h₀ : Hash := ⟨List.replicate 32 0, rfl⟩
    (∀ x ∈ request.iterNonEmpty.yields (2 ^ 64), x.1 ≤ 2 ^ 59) ∧
      (transferHashSeq (fun _ => true) request (HashSeq.ofHashes [h₀]).bytes).1 =
        expected (fun _ => true) [h₀] (request.iterNonEmpty.yields (2 ^ 64)) := by
  intro request h₀
  have hyields : request.iterNonEmpty.yields (2 ^ 64) = [(1, RangeSpec.all)] := by
    rw [show 2 ^ 64 = (2 ^ 64 - 1) + 1 by norm_num]
    exact RangeSpecSeq.yields_single (by norm_num) rfl rfl
  have hbound : ∀ x ∈ request.iterNonEmpty.yields (2 ^ 64), x.1 ≤ 2 ^ 59 := by
    rw [hyields]
    simp
  exact ⟨hbound, transfer_eq_expected _ _ _ hbound⟩

/-- The child at offset `2 ^ 59 + 1` of a sequence of one child: past the end, so
nothing should be sent, but the skip of `2 ^ 59` children computes `2 ^ 59 * 32`,
which wraps to 0, and the first child is sent. -/
theorem huge_offset_sends_first_child (h₀ : Hash) :
    let request : RangeSpecSeq := ⟨[(2 ^ 59 + 1, RangeSpec.all), (1, RangeSpec.EMPTY)]⟩
    request.iterNonEmpty.yields (2 ^ 64) = [(2 ^ 59 + 1, RangeSpec.all)] ∧
      expected (fun _ => true) [h₀] (request.iterNonEmpty.yields (2 ^ 64)) = [] ∧
      transferHashSeq (fun _ => true) request (HashSeq.ofHashes [h₀]).bytes = ([.blob h₀ RangeSpec.all], .ok .sent) := by
  have hyields : (⟨[(2 ^ 59 + 1, RangeSpec.all), (1, RangeSpec.EMPTY)]⟩ : RangeSpecSeq).iterNonEmpty.yields (2 ^ 64) =
      [(2 ^ 59 + 1, RangeSpec.all)] := by
    rw [show 2 ^ 64 = (2 ^ 64 - 1) + 1 by norm_num]
    exact RangeSpecSeq.yields_single (by norm_num) rfl rfl
  have hskip : (HashSeq.ofHashes [h₀]).skip (2 ^ 59 + 1 - 0 - 1) = .ok (HashSeq.ofHashes [h₀]) := by
    rw [HashSeq.skip, show 2 ^ 59 + 1 - 0 - 1 = 0 + 2 ^ 59 by norm_num, HashSeq.dropFront_add_wrap,
      HashSeq.dropFront_ofHashes (by norm_num)]
    rfl
  refine ⟨hyields, by rw [hyields]; rfl, ?_⟩
  have hsingle : (⟨[(2 ^ 59 + 1, RangeSpec.all), (1, RangeSpec.EMPTY)]⟩ : RangeSpecSeq).asSingle =
      some (2 ^ 59 + 1, RangeSpec.all) := rfl
  have hnot : ∀ spec, (⟨[(2 ^ 59 + 1, RangeSpec.all), (1, RangeSpec.EMPTY)]⟩ : RangeSpecSeq).asSingle ≠
      some (0, spec) := fun spec h => by
    rw [hsingle] at h
    cases h
  rw [transferHashSeq_eq_of_not_root _ _ hnot, hyields, transferLoop, if_neg (by norm_num)]
  simp only
  rw [if_pos (by norm_num), hskip]
  simp only
  rw [HashSeq.popFront_ofHashes]
  rfl

end Iroh.Blobs.Provider
