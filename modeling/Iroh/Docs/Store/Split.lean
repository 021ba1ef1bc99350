import Iroh.Docs.Store.Fs
import Iroh.Docs.Ranger.Exchange

/-! The on-disk store under the range splitting of reconciliation (case 3 of
`Store::process_message`, `ranger.rs`).

`get_range` of the store reads every range in key order and inside it
(`storeInstance_orderedRanges`): the segment of a wrapping range below `y` comes
before the one from `x`. So with the default configuration a fingerprint part that
is split is cut into two pieces that partition its range (`split_partitions_range`).

The pivot offsets `n * (i + 1) / k` are at least one while the split factor `k` is at
most the number `n` of local entries, which the default factor 2 and the case's
two local entries keep: no piece then runs from the range's start to itself, which
would be the whole set. -/
namespace Iroh.Docs.Store

open Ranger

/-- `get_range` reads in key order, a wrapping range's segment below `y` first. -/
theorem getRange_sorted (ns : NamespaceId) (t : Records) (range : Range RecordIdentifier) :
    ((getRange ns t range).map fun e => e.entry.id).Pairwise (· < ·) := by
  rcases lt_trichotomy range.x range.y with hlt | heq | hgt
  · simp only [getRange, compare_lt_iff_lt.mpr hlt, Records.range]
    exact ids_sorted_filter t _
  · simp only [getRange, compare_eq_iff_eq.mpr heq, Records.range]
    exact ids_sorted_filter t _
  · simp only [getRange, compare_gt_iff_gt.mpr hgt, Records.range, List.map_append]
    refine List.pairwise_append.mpr ⟨ids_sorted_filter t _, ids_sorted_filter t _, ?_⟩
    intro a ha b hb
    simp only [List.map_map, Function.comp_def, intoEntry_id, List.mem_map, List.mem_filter] at ha hb
    obtain ⟨r, ⟨-, hr⟩, rfl⟩ := ha
    obtain ⟨r', ⟨-, hr'⟩, rfl⟩ := hb
    have hy : r.1 < range.y := by
      simpa [Bound.admitsTo] using (RecordsBounds.fromStart_contains.mp hr).2
    have hx : range.x ≤ r'.1 := by
      simpa [Bound.admitsFrom] using (RecordsBounds.toEnd_contains.mp hr').1
    exact hy.trans (hgt.trans_le hx)

/-- `get_range` reads only inside the range. -/
theorem getRange_contains (ns : NamespaceId) (t : Records) (range : Range RecordIdentifier) :
    ∀ e ∈ getRange ns t range, range.contains e.entry.id = true := by
  intro e he
  obtain ⟨r, hr, rfl⟩ := List.mem_map.mp he
  rw [intoEntry_id]
  rcases lt_trichotomy range.x range.y with hlt | heq | hgt
  · simp only [compare_lt_iff_lt.mpr hlt, Records.mem_range, RecordsBounds.contains,
      Bound.admitsFrom, Bound.admitsTo, Bool.and_eq_true, decide_eq_true_eq] at hr
    exact (Range.contains_of_lt hlt _).mpr hr.2
  · exact Range.contains_of_eq heq _
  · simp only [compare_gt_iff_gt.mpr hgt, List.mem_append, Records.mem_range] at hr
    rw [Range.contains_of_gt hgt]
    rcases hr with ⟨-, hr⟩ | ⟨-, hr⟩
    · exact .inr (by simpa [Bound.admitsTo] using (RecordsBounds.fromStart_contains.mp hr).2)
    · exact .inl (by simpa [Bound.admitsFrom] using (RecordsBounds.toEnd_contains.mp hr).1)

theorem storeInstance_orderedRanges (ns : NamespaceId) (empty : Fingerprint)
    (asFingerprint : SignedEntry → Fingerprint) :
    (storeInstance ns empty asFingerprint).OrderedRanges (signedEntry asFingerprint) where
  sorted t r := getRange_sorted ns t r
  contains t r := getRange_contains ns t r

/-- **A split fingerprint part of the on-disk store is cut into a partition**: with
the default configuration, when the fingerprints differ, at least two local entries
lie in the range and the peer's fingerprint is not the empty one, the reply's pieces
are two, disjoint, together hold the range, each holds a local entry, and neither is
the whole set. -/
theorem split_partitions_range (ns : NamespaceId) (empty : Fingerprint)
    (asFingerprint : SignedEntry → Fingerprint) (cb : Callbacks Records SignedEntry) (t : Records)
    (fp : RangeFingerprint RecordIdentifier)
    (hne : getFingerprint ns empty asFingerprint t fp.range ≠ fp.fingerprint)
    (hn : 2 ≤ (getRange ns t fp.range).length) (hfp : fp.fingerprint ≠ empty) :
    let parts := processFingerprint (storeInstance ns empty asFingerprint) (signedEntry asFingerprint)
      cb SyncConfig.default empty t fp
    Partition fp.range ((getRange ns t fp.range).map fun e => e.entry.id)
        (parts.map MessagePart.range) ∧
      ∃ q₁ q₂, parts.map MessagePart.range = [q₁, q₂] ∧ q₁.x ≠ q₁.y ∧ q₂.x ≠ q₂.y :=
  processFingerprint_split (storeInstance_orderedRanges ns empty asFingerprint) cb empty t fp hne hn hfp

/-- The whole set of a namespace with two records, split. -/
theorem split_partitions_range_whole :
    let v : RecordsValue := ⟨1, 0, 0, 1, 1⟩
    let t : Records := ⟨[(⟨0, 0, [1]⟩, v), (⟨0, 0, [2]⟩, v)], by decide⟩
    let asFingerprint : SignedEntry → Fingerprint :=
      fun e => BitVec.ofNat 256 (e.entry.id.key.map Fin.val).sum
    let cb : Callbacks Records SignedEntry := ⟨fun _ _ _ => true, fun _ _ => .complete⟩
    let fp : RangeFingerprint RecordIdentifier := ⟨⟨⟨0, 0, []⟩, ⟨0, 0, []⟩⟩, 7⟩
    let parts := processFingerprint (storeInstance 0 0 asFingerprint) (signedEntry asFingerprint)
      cb SyncConfig.default 0 t fp
    getFingerprint 0 0 asFingerprint t fp.range ≠ fp.fingerprint ∧
      2 ≤ (getRange 0 t fp.range).length ∧ fp.fingerprint ≠ 0 ∧
      Partition fp.range ((getRange 0 t fp.range).map fun e => e.entry.id)
        (parts.map MessagePart.range) ∧
      ∃ q₁ q₂, parts.map MessagePart.range = [q₁, q₂] ∧ q₁.x ≠ q₁.y ∧ q₂.x ≠ q₂.y := by
  intro v t asFingerprint cb fp parts
  have hne : getFingerprint 0 0 asFingerprint t fp.range ≠ fp.fingerprint := by decide
  have hn : 2 ≤ (getRange 0 t fp.range).length := by decide
  have hfp : fp.fingerprint ≠ 0 := by decide
  exact ⟨hne, hn, hfp, split_partitions_range 0 0 asFingerprint cb t fp hne hn hfp⟩

end Iroh.Docs.Store
