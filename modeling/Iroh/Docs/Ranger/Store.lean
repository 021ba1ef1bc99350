import Iroh.Docs.Ranger.Range

/-! The `Store` trait of `ranger.rs` and the two algorithms written against it:
`Store::put`, the insert with prefix deletion, and `Store::process_message`,
one round of the reconciliation.

A store is a state `σ` and the trait's required methods as functions on it.
Storage errors (`Self::Error`) are not modelled: the in-memory test store
cannot fail, and the on-disk store's errors come from the database. The three
callbacks of `process_message` are parameters; `on_insert_cb` is recorded as the
list of entries it was called with. -/
namespace Iroh.Docs.Ranger

/-- The required methods of `trait Store<E>` over a state `σ`. -/
structure Store (σ E K V : Type) where
  getFirst : σ → K
  getFingerprint : σ → Range K → Fingerprint
  entryPut : σ → E → σ
  getRange : σ → Range K → List E
  prefixesOf : σ → K → List E
  /-- The new state and the number of entries removed. -/
  removePrefixFiltered : σ → K → (V → Bool) → σ × Nat

/-- `InsertOutcome`. -/
inductive InsertOutcome where
  | notInserted
  | inserted (removed : Nat)
deriving DecidableEq, Repr

section Algorithms
variable {σ E K V : Type} [LinearOrder K] [LE V] [DecidableRel (α := V) (· ≤ ·)]
variable (S : Store σ E K V) (R : RangeEntry E K V)

/-- `Store::get_range_len`, the trait's default: count the range. -/
def Store.getRangeLen (s : σ) (r : Range K) : Nat := (S.getRange s r).length

/-- `Store::put`: refused when a stored entry whose key is a prefix of the new key
has a value at least as large; otherwise the entries below the new key that are
not newer are removed and the entry is written. -/
def put (s : σ) (e : E) : σ × InsertOutcome :=
  if (S.prefixesOf s (R.key e)).any (fun p => decide (R.value e ≤ R.value p)) then
    (s, .notInserted)
  else
    let (s', removed) := S.removePrefixFiltered s (R.key e) (fun v => decide (v ≤ R.value e))
    (S.entryPut s' e, .inserted removed)

omit [LinearOrder K] in
/-- What `put` can do: refuse and leave the store as it is, or remove the entries under
the key that the new one dominates and write it. -/
theorem put_cases (s : σ) (e : E) :
    put S R s e = (s, .notInserted) ∨
      put S R s e = (S.entryPut (S.removePrefixFiltered s (R.key e) fun v => decide (v ≤ R.value e)).1 e,
        .inserted (S.removePrefixFiltered s (R.key e) fun v => decide (v ≤ R.value e)).2) := by
  by_cases hc : (S.prefixesOf s (R.key e)).any (fun p => decide (R.value e ≤ R.value p))
  · exact .inl (if_pos hc)
  · exact .inr (if_neg hc)

/-- `Message::init` (`Store::initial_message`): the fingerprint of the whole set,
as the range from the first key to itself. -/
def initialMessage (s : σ) : Message E K :=
  let x := S.getFirst s
  let range : Range K := ⟨x, x⟩
  ⟨[.rangeFingerprint ⟨range, S.getFingerprint s range⟩]⟩

/-- The callbacks of `process_message`. -/
structure Callbacks (σ E : Type) where
  validate : σ → E → ContentStatus → Bool
  contentStatus : σ → E → ContentStatus

variable (cb : Callbacks σ E)

/-- Store the values of an incoming item: each one the validate callback accepts
is put, and the ones actually inserted are recorded (`on_insert_cb`). -/
def storeValues : σ → List (E × ContentStatus) → σ × List (E × ContentStatus)
  | s, [] => (s, [])
  | s, (e, status) :: rest =>
    if cb.validate s e status then
      match put S R s e with
      | (s', .inserted _) =>
        let (s'', ins) := storeValues s' rest
        (s'', (e, status) :: ins)
      | (s', .notInserted) => storeValues s' rest
    else storeValues s rest

/-- Our entries of an item's range that the peer does not hold at the same key
with a value at least as large: what we answer to `haveLocal = false`. -/
def itemDiff (s : σ) (item : RangeItem E K) : List (E × ContentStatus) :=
  ((S.getRange s item.range).filter fun ours =>
      !item.values.any fun (theirs, _) =>
        decide (R.key ours = R.key theirs) && decide (R.value ours ≤ R.value theirs)).map
    fun e => (e, cb.contentStatus s e)

/-- The answer to one incoming item: our diff, unless the item is itself an answer
(`haveLocal`) or the diff is empty. -/
def itemReply (s : σ) (item : RangeItem E K) : List (MessagePart E K) :=
  let diff := itemDiff S R cb s item
  if item.haveLocal || diff.isEmpty then [] else [.rangeItem ⟨item.range, diff, true⟩]

/-- One incoming item: the diff is taken before its values are stored. -/
def processItem (acc : σ × List (E × ContentStatus) × List (MessagePart E K))
    (item : RangeItem E K) : σ × List (E × ContentStatus) × List (MessagePart E K) :=
  let (s, ins, out) := acc
  let reply := itemReply S R cb s item
  let (s', ins') := storeValues S R cb s item.values
  (s', ins ++ ins', out ++ reply)

/-- The local entries of a range, each with its content status. -/
def withStatus (s : σ) (es : List E) : List (E × ContentStatus) :=
  es.map fun e => (e, cb.contentStatus s e)

/-- The pivot of index `i` in a recursive split: with `n` local entries in the range,
listed in key order, and `start` of them before the range's `x`, the entry at
offset `start + n (i mod k + 1) / k` counted from `start` with wrap-around. The
source reads it with `nth(..).expect(..)`; the offset is below `n`, so the
fallback to `x` is never taken (`pivot_mem`). -/
def pivot (k : Nat) (local_ : List E) (start : Nat) (x : K) (i : Nat) : K :=
  let n := local_.length
  let i := i % k
  let offset := (n * (i + 1)) / k
  let offset := (start + offset) % n
  ((local_.map R.key)[offset]?).getD x

/-- Case 3 of a fingerprint part: the sub-ranges of `range` at the pivots. The
whole set is cut at all `k` pivots (empty pieces dropped); any other range from
`x` to the first pivot, between successive pivots, and from the last to `y`. -/
def splitRanges (k : Nat) (local_ : List E) (range : Range K) : List (Range K) :=
  let start := (local_.takeWhile fun e => decide (R.key e < range.x)).length
  let p := pivot R k local_ start range.x
  let between (i : Nat) : Option (Range K) :=
    if p i ≠ p (i + 1) then some ⟨p i, p (i + 1)⟩ else none
  if range.isAll then (List.range k).filterMap between
  else ⟨range.x, p 0⟩ :: (List.range (k - 2)).filterMap between ++ [⟨p (k - 2), range.y⟩]

/-- What a sub-range of a split is sent as: its fingerprint when it holds more
than `max_set_size` local entries, else its entries with `haveLocal = false`. -/
def splitPart (config : SyncConfig) (s : σ) (r : Range K) : MessagePart E K :=
  let chunk := S.getRange s r
  if config.maxSetSize < chunk.length then .rangeFingerprint ⟨r, S.getFingerprint s r⟩
  else .rangeItem ⟨r, withStatus cb s chunk, false⟩

/-- One incoming fingerprint: nothing on a match (case 1); our entries when we
hold at most one or the peer holds none (case 2, the recursion anchor); the
split otherwise (case 3). -/
def processFingerprint (config : SyncConfig) (empty : Fingerprint) (s : σ)
    (fp : RangeFingerprint K) : List (MessagePart E K) :=
  if S.getFingerprint s fp.range = fp.fingerprint then []
  else
    let n := S.getRangeLen s fp.range
    if n ≤ 1 || fp.fingerprint == empty then
      [.rangeItem ⟨fp.range, withStatus cb s (S.getRange s fp.range), false⟩]
    else
      (splitRanges R config.splitFactor (S.getRange s fp.range) fp.range).map
        (splitPart S cb config s)

/-- `Store::process_message`: all item parts first, in order, then all fingerprint
parts against the store the items left; `none` when there is nothing to say.
`empty` is `Fingerprint::empty()`. -/
def processMessage (config : SyncConfig) (empty : Fingerprint) (s : σ) (msg : Message E K) :
    σ × List (E × ContentStatus) × Option (Message E K) :=
  let (s', ins, out) := msg.items.foldl (processItem S R cb) (s, [], [])
  let out := out ++ msg.fingerprints.flatMap (processFingerprint S R cb config empty s')
  (s', ins, if out.isEmpty then none else some ⟨out⟩)

end Algorithms

end Iroh.Docs.Ranger
