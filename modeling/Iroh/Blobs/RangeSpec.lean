import Iroh.Lib.RangeSet
import Iroh.Lib.Postcard

/-! Range specifications of the blobs protocol (`protocol/range_spec.rs`).

A `RangeSpec` is a list of widths: spans from chunk 0, alternately not selected and
selected, the last selected one without end when the list has odd length.
`to_chunk_ranges` adds the widths up as it goes, so the boundaries of what it
selects are the running sums of the widths (`toChunkRanges_spec`), for every list
whose sum fits a `u64`; past that, `current + width` overflows, a panic in a debug
build (`toChunkRanges_eq_none_iff`). A peer's request can carry any widths: two of
them, `u64::MAX` and `1`, already overflow (`peer_range_spec_overflows`).

`RangeSpec::new` writes the distances between the boundaries of a `ChunkRanges`,
whose running sums are the boundaries again (`prefixSums_new`), so
`to_chunk_ranges` gives back the set (`rangeSpec_round_trip`).

`ChunkRanges` is a `RangeSet` of chunk numbers with `u64` boundaries; its union is
the library's. -/

namespace Iroh.Blobs

/-- `ChunkNum`. -/
abbrev ChunkNum := UInt64

/-- `ChunkRanges`: a range set of chunk numbers, each boundary a `u64`. -/
structure ChunkRanges where
  set : RangeSet
  bounded : ∀ b ∈ set.boundaries, b < 2 ^ 64

namespace ChunkRanges

/-- Whether the chunk is selected. -/
def mem (r : ChunkRanges) (x : Nat) : Bool := r.set.mem x

/-- `ChunkRanges::empty`. -/
def empty : ChunkRanges := ⟨RangeSet.empty, fun _ h => absurd h List.not_mem_nil⟩

/-- `ChunkRanges::from(a..b)`. -/
def ofRange (a b : ChunkNum) : ChunkRanges :=
  ⟨RangeSet.ofRange a.toNat b.toNat, fun _ h => by
    rcases RangeSet.boundaries_ofRange h with rfl | rfl
    · exact a.toNat_lt
    · exact b.toNat_lt⟩

/-- `ChunkRanges::from(a..)`. -/
def ofRangeFrom (a : ChunkNum) : ChunkRanges :=
  ⟨RangeSet.ofRangeFrom a.toNat, fun _ h => RangeSet.boundaries_ofRangeFrom h ▸ a.toNat_lt⟩

/-- `|=`. -/
def union (r s : ChunkRanges) : ChunkRanges :=
  ⟨r.set.union s.set, fun _ h => (RangeSet.boundaries_union h).elim (r.bounded _) (s.bounded _)⟩

@[simp] theorem mem_empty (x : Nat) : empty.mem x = false := rfl

@[simp] theorem mem_ofRange (a b : ChunkNum) (x : Nat) :
    (ofRange a b).mem x = decide (a.toNat ≤ x ∧ x < b.toNat) :=
  RangeSet.mem_ofRange _ _ _

@[simp] theorem mem_ofRangeFrom (a : ChunkNum) (x : Nat) : (ofRangeFrom a).mem x = decide (a.toNat ≤ x) :=
  RangeSet.mem_ofRangeFrom _ _

@[simp] theorem mem_union (r s : ChunkRanges) (x : Nat) : (r.union s).mem x = (r.mem x || s.mem x) :=
  RangeSet.mem_union _ _ _

/-- Chunk ranges with the same chunks are equal. -/
theorem ext {r s : ChunkRanges} (h : ∀ x, r.mem x = s.mem x) : r = s := by
  obtain ⟨r, hr⟩ := r
  obtain ⟨s, hs⟩ := s
  have : r = s := RangeSet.ext h
  subst this
  rfl

end ChunkRanges

/-- `RangeSpec`: the widths of the spans. -/
structure RangeSpec where
  widths : List UInt64
deriving DecidableEq, Repr

/-- The loop of `RangeSpec::new` over the boundaries after the first: each one's
distance from the one before. -/
def newLoop (prev : Nat) : List Nat → List UInt64
  | [] => []
  | v :: rest => UInt64.ofNat (v - prev) :: newLoop v rest

/-- `RangeSpec::new`. -/
def RangeSpec.new (ranges : ChunkRanges) : RangeSpec :=
  match ranges.set.boundaries with
  | [] => ⟨[]⟩
  | start :: rest => ⟨UInt64.ofNat start :: newLoop start rest⟩

/-- The loop of `to_chunk_ranges`: each width moves the current chunk on, past a span
that is added when selected; `none` where `current + width` overflows. -/
def toChunkRangesLoop (ranges : ChunkRanges) (current : ChunkNum) (on : Bool) :
    List UInt64 → Option (ChunkRanges × ChunkNum × Bool)
  | [] => some (ranges, current, on)
  | width :: rest =>
    if current.toNat + width.toNat < 2 ^ 64 then
      let next := current + width
      let ranges := if on then ranges.union (ChunkRanges.ofRange current next) else ranges
      toChunkRangesLoop ranges next (!on) rest
    else none

/-- `RangeSpec::to_chunk_ranges`: the loop, and the last span if it is selected. -/
def RangeSpec.toChunkRanges (spec : RangeSpec) : Option ChunkRanges :=
  (toChunkRangesLoop ChunkRanges.empty 0 false spec.widths).map fun (ranges, current, on) =>
    if on then ranges.union (ChunkRanges.ofRangeFrom current) else ranges

/-- A `RangeSpec` as postcard reads it: a sequence of `u64` varints. -/
def RangeSpec.take (bytes : List UInt8) : Option (RangeSpec × List UInt8) :=
  (Postcard.takeSeq Postcard.takeVarint bytes).map fun (widths, rest) => (⟨widths.map UInt64.ofNat⟩, rest)

/-! ### What `to_chunk_ranges` selects -/

/-- The ends of the spans: the running sums of the widths from `start`. -/
def prefixSums (start : Nat) : List Nat → List Nat
  | [] => []
  | w :: rest => (start + w) :: prefixSums (start + w) rest

/-- What the loop has built: the chunks below the current one after an odd number of
span ends, with the ends so far at most the current chunk and the flag telling their
parity. -/
structure LoopInv (ends : List Nat) (ranges : ChunkRanges) (current : ChunkNum) (on : Bool) : Prop where
  le : ∀ d ∈ ends, d ≤ current.toNat
  on : on = decide (ends.length % 2 = 1)
  mem : ∀ x, ranges.mem x = ((ends.countP (· ≤ x) % 2 == 1) && decide (x < current.toNat))

theorem LoopInv.nil : LoopInv [] ChunkRanges.empty 0 false :=
  ⟨fun _ h => absurd h List.not_mem_nil, rfl, fun x => by simp⟩

/-- Past the current chunk every end is counted. -/
theorem LoopInv.countP_of_le {ends : List Nat} {ranges : ChunkRanges} {current : ChunkNum} {on : Bool}
    (h : LoopInv ends ranges current on) {x : Nat} (hx : current.toNat ≤ x) :
    ends.countP (· ≤ x) = ends.length :=
  List.countP_eq_length.mpr fun d hd => decide_eq_true (Nat.le_trans (h.le d hd) hx)

/-- A sum of chunk numbers that fits a `u64` does not wrap. -/
theorem toNat_add_of_lt {a b : ChunkNum} (h : a.toNat + b.toNat < 2 ^ 64) : (a + b).toNat = a.toNat + b.toNat := by
  rw [UInt64.toNat_add, Nat.mod_eq_of_lt h]

/-- One width: the span up to the next chunk, added when selected, and one more end. -/
theorem LoopInv.step {ends : List Nat} {ranges : ChunkRanges} {current : ChunkNum} {on : Bool}
    (h : LoopInv ends ranges current on) (width : UInt64) (hw : current.toNat + width.toNat < 2 ^ 64) :
    LoopInv (ends ++ [(current + width).toNat])
      (if on then ranges.union (ChunkRanges.ofRange current (current + width)) else ranges)
      (current + width) (!on) := by
  have hnext := toNat_add_of_lt hw
  refine ⟨fun d hd => ?_, ?_, fun x => ?_⟩
  · rcases List.mem_append.mp hd with hd | hd
    · exact (h.le d hd).trans (by omega)
    · rw [List.mem_singleton.mp hd]
  · rw [h.on, List.length_append, List.length_singleton]
    by_cases hodd : ends.length % 2 = 1
    · simp [hodd, show ¬ (ends.length + 1) % 2 = 1 by omega]
    · simp [hodd, show (ends.length + 1) % 2 = 1 by omega]
  · rw [List.countP_append, hnext]
    -- below the current chunk nothing changes; from it to the next, the span
    by_cases hx : x < current.toNat
    · have hlt : ¬ current.toNat + width.toNat ≤ x := by omega
      cases on <;> simp [h.mem x, hx, hlt, show x < current.toNat + width.toNat by omega]
    · -- from the current chunk on, the old ends are all counted and the flag is their parity
      have hall := h.countP_of_le (Nat.le_of_not_lt hx)
      have hold : ranges.mem x = false := by simp [h.mem x, hx]
      have hspan : (ChunkRanges.ofRange current (current + width)).mem x =
          decide (x < current.toNat + width.toNat) := by
        simp [hnext, Nat.le_of_not_lt hx]
      have hon := h.on
      subst hon
      rw [hall]
      by_cases hodd : ends.length % 2 = 1
      · by_cases hy : x < current.toNat + width.toNat
        · have hlt : ¬ current.toNat + width.toNat ≤ x := by omega
          simp [hold, hspan, hodd, hy, hlt]
        · simp [hold, hspan, hodd, hy, Nat.le_of_not_lt hy]
      · have hpar : (ends.length + 1) % 2 = 1 := by omega
        have heven : ends.length % 2 = 0 := by omega
        by_cases hy : x < current.toNat + width.toNat
        · have hlt : ¬ current.toNat + width.toNat ≤ x := by omega
          simp [hold, heven, hlt]
        · simp [hold, hodd, hy, hpar, Nat.le_of_not_lt hy]

theorem prefixSums_cons (start w : Nat) (rest : List Nat) :
    prefixSums start (w :: rest) = (start + w) :: prefixSums (start + w) rest := rfl

/-- **The loop runs to the end while the sum fits**, adding the spans' ends. -/
theorem toChunkRangesLoop_spec (widths : List UInt64) {ends : List Nat} {ranges : ChunkRanges}
    {current : ChunkNum} {on : Bool} (h : LoopInv ends ranges current on)
    (hsum : current.toNat + (widths.map UInt64.toNat).sum < 2 ^ 64) :
    ∃ ranges' current' on', toChunkRangesLoop ranges current on widths = some (ranges', current', on') ∧
      LoopInv (ends ++ prefixSums current.toNat (widths.map UInt64.toNat)) ranges' current' on' := by
  induction widths generalizing ends ranges current on with
  | nil => exact ⟨ranges, current, on, rfl, by simpa [prefixSums] using h⟩
  | cons width widths ih =>
    rw [List.map_cons, List.sum_cons] at hsum
    have hw : current.toNat + width.toNat < 2 ^ 64 := by omega
    have hnext := toNat_add_of_lt hw
    obtain ⟨ranges', current', on', hloop, hinv⟩ := ih (h.step width hw) (by omega)
    refine ⟨ranges', current', on', ?_, ?_⟩
    · rw [toChunkRangesLoop, if_pos hw]
      exact hloop
    · rw [List.map_cons, prefixSums_cons, ← hnext, ← List.singleton_append, ← List.append_assoc]
      exact hinv

/-- The loop stops at the width whose sum overflows. -/
theorem toChunkRangesLoop_eq_none (widths : List UInt64) (ranges : ChunkRanges) (current : ChunkNum)
    (on : Bool) (hsum : 2 ^ 64 ≤ current.toNat + (widths.map UInt64.toNat).sum) :
    toChunkRangesLoop ranges current on widths = none := by
  induction widths generalizing ranges current on with
  | nil =>
    have := current.toNat_lt
    simp only [List.map_nil, List.sum_nil, Nat.add_zero] at hsum
    omega
  | cons width widths ih =>
    rw [List.map_cons, List.sum_cons] at hsum
    rw [toChunkRangesLoop]
    by_cases hw : current.toNat + width.toNat < 2 ^ 64
    · have hnext := toNat_add_of_lt hw
      rw [if_pos hw]
      exact ih _ _ _ (by omega)
    · rw [if_neg hw]

/-- The ends of a spec's spans. -/
def RangeSpec.ends (spec : RangeSpec) : List Nat := prefixSums 0 (spec.widths.map UInt64.toNat)

/-- **`to_chunk_ranges` selects the chunks after an odd number of span ends**, for
every spec whose widths sum to a `u64`. -/
theorem toChunkRanges_spec (spec : RangeSpec) (hsum : (spec.widths.map UInt64.toNat).sum < 2 ^ 64) :
    ∃ r, spec.toChunkRanges = some r ∧ ∀ x, r.mem x = (spec.ends.countP (· ≤ x) % 2 == 1) := by
  obtain ⟨ranges, current, on, hloop, hinv⟩ :=
    toChunkRangesLoop_spec spec.widths LoopInv.nil (by simpa using hsum)
  refine ⟨_, by rw [RangeSpec.toChunkRanges, hloop]; rfl, fun x => ?_⟩
  simp only [List.nil_append, UInt64.toNat_zero] at hinv
  show (if on then ranges.union (ChunkRanges.ofRangeFrom current) else ranges).mem x = _
  -- from the last end on, every end is counted, and their parity is the flag
  by_cases hx : x < current.toNat
  · cases on <;> simp [hinv.mem x, hx, RangeSpec.ends]
  · have hall := hinv.countP_of_le (Nat.le_of_not_lt hx)
    have hold : ranges.mem x = false := by simp [hinv.mem x, hx]
    have hon := hinv.on
    subst hon
    rw [RangeSpec.ends, hall]
    by_cases hodd : (prefixSums 0 (spec.widths.map UInt64.toNat)).length % 2 = 1
    · simp [hold, hodd, Nat.le_of_not_lt hx]
    · simp [hold, hodd]

/-- **`to_chunk_ranges` fails exactly when the widths sum past `u64::MAX`.** -/
theorem toChunkRanges_eq_none_iff (spec : RangeSpec) :
    spec.toChunkRanges = none ↔ 2 ^ 64 ≤ (spec.widths.map UInt64.toNat).sum := by
  constructor
  · intro h
    by_contra hlt
    obtain ⟨r, hr, -⟩ := toChunkRanges_spec spec (Nat.lt_of_not_le hlt)
    rw [h] at hr
    cases hr
  · intro h
    rw [RangeSpec.toChunkRanges, toChunkRangesLoop_eq_none _ _ _ _ (by simpa using h)]
    rfl

/-- Widths `u64::MAX` and `1`, as a peer's request may carry them: the second width
overflows the current chunk. -/
theorem peer_range_spec_overflows :
    RangeSpec.take [2, 255, 255, 255, 255, 255, 255, 255, 255, 255, 1, 1] =
        some (⟨[18446744073709551615, 1]⟩, []) ∧
      (⟨[18446744073709551615, 1]⟩ : RangeSpec).toChunkRanges = none := by
  refine ⟨by decide, (toChunkRanges_eq_none_iff _).mpr ?_⟩
  decide

/-! ### The round trip -/

/-- The running sums of the distances `new` writes are the boundaries again. -/
theorem prefixSums_newLoop {prev : Nat} {l : List Nat} (hs : l.Pairwise (· < ·)) (hprev : ∀ v ∈ l, prev ≤ v)
    (hb : ∀ v ∈ l, v < 2 ^ 64) : prefixSums prev ((newLoop prev l).map UInt64.toNat) = l := by
  induction l generalizing prev with
  | nil => rfl
  | cons v rest ih =>
    obtain ⟨hv, hrest⟩ := List.pairwise_cons.mp hs
    have hvb := hb v (List.mem_cons_self ..)
    have hdist : (UInt64.ofNat (v - prev)).toNat = v - prev := by
      exact UInt64.toNat_ofNat_of_lt' (Nat.lt_of_le_of_lt (Nat.sub_le v prev) hvb)
    have hpv := hprev v (List.mem_cons_self ..)
    rw [newLoop, List.map_cons, hdist, prefixSums_cons, show prev + (v - prev) = v by omega,
      ih hrest (fun w hw => Nat.le_of_lt (hv w hw)) fun w hw => hb w (List.mem_cons_of_mem _ hw)]

theorem prefixSums_new (r : ChunkRanges) : (RangeSpec.new r).ends = r.set.boundaries := by
  obtain ⟨⟨bs, hs⟩, hb⟩ := r
  cases bs with
  | nil => rfl
  | cons start rest =>
    have hstart : (UInt64.ofNat start).toNat = start := UInt64.toNat_ofNat_of_lt' (hb start (List.mem_cons_self ..))
    obtain ⟨hv, hrest⟩ := List.pairwise_cons.mp hs
    show prefixSums 0 ((UInt64.ofNat start :: newLoop start rest).map UInt64.toNat) = start :: rest
    rw [List.map_cons, hstart, prefixSums_cons, Nat.zero_add,
      prefixSums_newLoop hrest (fun w hw => Nat.le_of_lt (hv w hw)) fun w hw => hb w (List.mem_cons_of_mem _ hw)]

/-- The last running sum is the whole sum. -/
theorem sum_mem_prefixSums (start : Nat) {l : List Nat} (hl : l ≠ []) : start + l.sum ∈ prefixSums start l := by
  induction l generalizing start with
  | nil => exact absurd rfl hl
  | cons w rest ih =>
    rw [prefixSums_cons, List.sum_cons]
    by_cases hrest : rest = []
    · subst hrest
      simp
    · have := ih (start + w) hrest
      rw [← Nat.add_assoc]
      exact List.mem_cons_of_mem _ this

/-- The widths `new` writes sum to a `u64`: to the last boundary. -/
theorem sum_new_lt (r : ChunkRanges) : ((RangeSpec.new r).widths.map UInt64.toNat).sum < 2 ^ 64 := by
  by_cases hw : (RangeSpec.new r).widths.map UInt64.toNat = []
  · rw [hw]
    decide
  · have hmem := sum_mem_prefixSums 0 hw
    rw [Nat.zero_add] at hmem
    exact r.bounded _ (prefixSums_new r ▸ hmem)

/-- `to_chunk_ranges` gives back the set `new` was made from. -/
theorem toChunkRanges_new (r : ChunkRanges) : (RangeSpec.new r).toChunkRanges = some r := by
  obtain ⟨r', hr', hmem⟩ := toChunkRanges_spec (RangeSpec.new r) (sum_new_lt r)
  rw [hr', ChunkRanges.ext fun x => (hmem x).trans (by rw [prefixSums_new]; rfl)]

/-- **`RangeSpec` round-trips**: `to_chunk_ranges` undoes `new`, so `new` is injective
and `new` undoes `to_chunk_ranges` on every spec `new` makes. -/
theorem rangeSpec_round_trip :
    (∀ r : ChunkRanges, (RangeSpec.new r).toChunkRanges = some r) ∧ Function.Injective RangeSpec.new ∧
      ∀ r : ChunkRanges, ((RangeSpec.new r).toChunkRanges).map RangeSpec.new = some (RangeSpec.new r) := by
  refine ⟨toChunkRanges_new, fun r₁ r₂ h => ?_, fun r => by rw [toChunkRanges_new]; rfl⟩
  have h₁ := toChunkRanges_new r₁
  rw [h, toChunkRanges_new r₂] at h₁
  exact (Option.some.inj h₁).symm

end Iroh.Blobs
