import Mathlib

/-! Ranges, fingerprints and messages of range-based set reconciliation
(`iroh-docs/src/ranger.rs`).

A `Range` is a pair of keys read with wrap-around: `x = y` is the whole set,
`x < y` the half-open interval `[x, y)`, and `x > y` everything outside
`[y, x)`. A fingerprint is 32 bytes combined by XOR; the hash of a single
entry (`as_fingerprint`, blake3 in the source) and the fingerprint of the
empty set (`Fingerprint::empty`, the blake3 hash of no bytes) are not in the
repository and enter the model as parameters. -/
namespace Iroh.Docs.Ranger

/-- `Range<K>`: `x = y` is everything, otherwise `[x, y)` read with wrap-around. -/
structure Range (K : Type) where
  x : K
  y : K
deriving DecidableEq, Repr

namespace Range
variable {K : Type}

def isAll [DecidableEq K] (r : Range K) : Bool := r.x == r.y

/-- `Range::contains`. -/
def contains [LinearOrder K] (r : Range K) (t : K) : Bool :=
  match compare r.x r.y with
  | .eq => true
  | .lt => decide (r.x ≤ t) && decide (t < r.y)
  | .gt => decide (r.x ≤ t) || decide (t < r.y)

variable [LinearOrder K]

theorem contains_of_eq {r : Range K} (h : r.x = r.y) (t : K) : r.contains t = true := by
  simp [contains, h]

theorem contains_of_lt {r : Range K} (h : r.x < r.y) (t : K) :
    r.contains t = true ↔ r.x ≤ t ∧ t < r.y := by
  simp [contains, compare_lt_iff_lt.mpr h]

theorem contains_of_gt {r : Range K} (h : r.y < r.x) (t : K) :
    r.contains t = true ↔ r.x ≤ t ∨ t < r.y := by
  simp [contains, compare_gt_iff_gt.mpr h]

/-- The start point `x` is in every range. -/
theorem contains_x (r : Range K) : r.contains r.x = true := by
  rcases lt_trichotomy r.x r.y with hlt | heq | hgt
  · exact (contains_of_lt hlt r.x).mpr ⟨le_rfl, hlt⟩
  · exact contains_of_eq heq r.x
  · exact (contains_of_gt hgt r.x).mpr (Or.inl le_rfl)

end Range

/-- `Fingerprint([u8; 32])`, combined byte-wise by XOR (`BitXorAssign`). -/
abbrev Fingerprint := BitVec 256

/-- XOR-ing the fingerprints of a list of items in does not depend on their order. -/
theorem foldl_xor_perm {α : Type} (f : α → Fingerprint) (init : Fingerprint) {l₁ l₂ : List α}
    (hp : l₁.Perm l₂) : l₁.foldl (fun fp e => fp ^^^ f e) init = l₂.foldl (fun fp e => fp ^^^ f e) init := by
  have : RightCommutative fun (fp : Fingerprint) (e : α) => fp ^^^ f e :=
    ⟨fun fp a b => by rw [BitVec.xor_assoc, BitVec.xor_comm (f a), ← BitVec.xor_assoc]⟩
  exact hp.foldl_eq init

/-- `ContentStatus`, sent along with each entry. -/
inductive ContentStatus where
  | complete
  | incomplete
  | missing
deriving DecidableEq, Repr

/-- What the generic reconciliation needs of an entry (`RangeEntry`): its key,
its value, and its fingerprint, which the model takes as given. -/
structure RangeEntry (E K V : Type) where
  key : E → K
  value : E → V
  asFingerprint : E → Fingerprint

/-- `RangeFingerprint<K>`: a range and the fingerprint of the sender's entries in it. -/
structure RangeFingerprint (K : Type) where
  range : Range K
  fingerprint : Fingerprint
deriving DecidableEq, Repr

/-- `RangeItem<E>`: entries of a range. `haveLocal = false` asks the receiver to
answer with its own entries of the range. -/
structure RangeItem (E K : Type) where
  range : Range K
  values : List (E × ContentStatus)
  haveLocal : Bool
deriving DecidableEq, Repr

inductive MessagePart (E K : Type) where
  | rangeFingerprint (fp : RangeFingerprint K)
  | rangeItem (item : RangeItem E K)
deriving DecidableEq, Repr

namespace MessagePart
variable {E K : Type}

def range : MessagePart E K → Range K
  | rangeFingerprint fp => fp.range
  | rangeItem item => item.range

/-- `MessagePart::values`: the entries an item part carries. -/
def values : MessagePart E K → Option (List (E × ContentStatus))
  | rangeFingerprint _ => none
  | rangeItem item => some item.values

end MessagePart

structure Message (E K : Type) where
  parts : List (MessagePart E K)
deriving DecidableEq, Repr

/-- `Message::values`: every entry carried by the message, in order. -/
def Message.values {E K : Type} (m : Message E K) : List (E × ContentStatus) :=
  m.parts.flatMap fun p => (p.values).getD []

/-- The item parts of a message, in order (`items` in `process_message`). -/
def Message.items {E K : Type} (m : Message E K) : List (RangeItem E K) :=
  m.parts.filterMap fun
    | .rangeItem i => some i
    | .rangeFingerprint _ => none

/-- The fingerprint parts of a message, in order (`fingerprints` in `process_message`). -/
def Message.fingerprints {E K : Type} (m : Message E K) : List (RangeFingerprint K) :=
  m.parts.filterMap fun
    | .rangeFingerprint f => some f
    | .rangeItem _ => none

/-- `SyncConfig`. The split factor is at least two, as its documentation asks. -/
structure SyncConfig where
  maxSetSize : Nat
  splitFactor : Nat
  two_le_splitFactor : 2 ≤ splitFactor

/-- `SyncConfig::default`. -/
def SyncConfig.default : SyncConfig := ⟨1, 2, le_rfl⟩

end Iroh.Docs.Ranger
