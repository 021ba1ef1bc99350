import Iroh.Lib.Slice

/-! The postcard wire format, for the types the development serializes.

An unsigned integer is a varint: seven bits a byte, least significant first, the
continuation bit on every byte but the last, at most ten bytes for a `u64`
(`varint_u64` writes them in a loop of ten rounds, `try_take_varint_u64` reads them
in one, rejecting a tenth byte above 1) and five for a `u32`, an enum's variant
index among them. A sequence is its length as a varint and then its elements; a
tuple, a struct or a fixed array is its elements one after another, a byte as
itself.

A reader takes what it needs from the front of the input and returns the rest.
Each reader takes back what the matching writer wrote, followed by any bytes at all
(`takeVarint_varint`, `takeArray_append`, `takeMany_flatMap`, `takeSeq_seq`), and a
longer sequence never writes fewer bytes (`length_seq_le_append`). -/

namespace Postcard

variable {α : Type}

/-! ### Varints -/

/-- `varint_u64` with `fuel` rounds left. -/
def varintGo : Nat → Nat → List UInt8
  | 0, _ => []
  | fuel + 1, v => if v < 128 then [UInt8.ofNat v] else UInt8.ofNat (v % 128 + 128) :: varintGo fuel (v / 128)

/-- `varint_u64` (and `varint_usize` on a 64-bit target). -/
def varint (v : Nat) : List UInt8 := varintGo 10 v

/-- `varint_u32`. -/
def varintU32 (v : Nat) : List UInt8 := varintGo 5 v

/-- `try_take_varint_u64` and `try_take_varint_u32` with `fuel` rounds left; in the
last round a final byte may only hold the bits of the value that are left, at most
`lastMax`. -/
def takeVarintGo (lastMax : Nat) : Nat → List UInt8 → Option (Nat × List UInt8)
  | 0, _ => none
  | _ + 1, [] => none
  | fuel + 1, b :: rest =>
    if b.toNat < 128 then
      if fuel = 0 ∧ lastMax < b.toNat then none else some (b.toNat, rest)
    else (takeVarintGo lastMax fuel rest).map fun r => (b.toNat % 128 + 128 * r.1, r.2)

/-- `try_take_varint_u64`: ten rounds, the last with one bit left (64 = 9 · 7 + 1). -/
def takeVarint (bytes : List UInt8) : Option (Nat × List UInt8) := takeVarintGo 1 10 bytes

/-- `try_take_varint_u32`: five rounds, the last with four bits left (32 = 4 · 7 + 4). -/
def takeVarintU32 (bytes : List UInt8) : Option (Nat × List UInt8) := takeVarintGo 15 5 bytes

theorem toNat_ofNat_of_lt {n : Nat} (h : n < 256) : (UInt8.ofNat n).toNat = n := by
  simp [Nat.mod_eq_of_lt h]

theorem varintGo_succ_of_lt {fuel v : Nat} (h : v < 128) : varintGo (fuel + 1) v = [UInt8.ofNat v] :=
  if_pos h

theorem varintGo_succ_of_le {fuel v : Nat} (h : 128 ≤ v) :
    varintGo (fuel + 1) v = UInt8.ofNat (v % 128 + 128) :: varintGo fuel (v / 128) :=
  if_neg (by omega)

/-- The reader takes back a varint of `k + 1` bytes at most, whatever follows it. -/
theorem takeVarintGo_varintGo {lastMax : Nat} (hlast : lastMax < 128) (k : Nat) {v : Nat}
    (hv : v < 128 ^ k * (lastMax + 1)) (rest : List UInt8) :
    takeVarintGo lastMax (k + 1) (varintGo (k + 1) v ++ rest) = some (v, rest) := by
  induction k generalizing v with
  | zero =>
    have hv' : v ≤ lastMax := by simpa [Nat.lt_succ_iff] using hv
    rw [varintGo_succ_of_lt (by omega), List.singleton_append, takeVarintGo,
      toNat_ofNat_of_lt (by omega), if_pos (by omega), if_neg (by omega)]
  | succ k ih =>
    by_cases hlt : v < 128
    · rw [varintGo_succ_of_lt hlt, List.singleton_append, takeVarintGo,
        toNat_ofNat_of_lt (by omega), if_pos hlt, if_neg (by omega)]
    · have hdiv : v / 128 < 128 ^ k * (lastMax + 1) := by
        rw [Nat.div_lt_iff_lt_mul (by decide)]
        calc v < 128 ^ (k + 1) * (lastMax + 1) := hv
          _ = 128 ^ k * (lastMax + 1) * 128 := by rw [Nat.pow_succ]; ac_rfl
      rw [varintGo_succ_of_le (by omega), List.cons_append, takeVarintGo,
        toNat_ofNat_of_lt (by omega), if_neg (by omega), ih hdiv, Option.map_some]
      congr 2
      omega

/-- **A varint of a `u64` reads back**, with the bytes after it left. -/
theorem takeVarint_varint {v : Nat} (hv : v < 2 ^ 64) (rest : List UInt8) :
    takeVarint (varint v ++ rest) = some (v, rest) :=
  takeVarintGo_varintGo (by decide) 9 (by simpa using hv) rest

/-- A greater value never takes fewer bytes. -/
theorem length_varintGo_mono (fuel : Nat) {v w : Nat} (hvw : v ≤ w) :
    (varintGo fuel v).length ≤ (varintGo fuel w).length := by
  induction fuel generalizing v w with
  | zero => exact Nat.le_refl _
  | succ fuel ih =>
    by_cases hw : w < 128
    · simp [varintGo_succ_of_lt hw, varintGo_succ_of_lt (show v < 128 by omega)]
    · rw [varintGo_succ_of_le (Nat.not_lt.mp hw), List.length_cons]
      by_cases hv : v < 128
      · rw [varintGo_succ_of_lt hv, List.length_singleton]
        omega
      · rw [varintGo_succ_of_le (Nat.not_lt.mp hv), List.length_cons]
        exact Nat.succ_le_succ (ih (Nat.div_le_div_right hvw))

@[simp] theorem varint_zero : varint 0 = [0] := rfl

/-! ### Arrays and sequences -/

/-- A fixed array of `n` bytes. -/
def takeArray (n : Nat) (bytes : List UInt8) : Option (List UInt8 × List UInt8) :=
  if n ≤ bytes.length then some (bytes.take n, bytes.drop n) else none

theorem takeArray_append {n : Nat} {xs : List UInt8} (h : xs.length = n) (rest : List UInt8) :
    takeArray n (xs ++ rest) = some (xs, rest) := by
  subst h
  simp [takeArray]

/-- A sequence: its length, then its elements. -/
def seq (enc : α → List UInt8) (xs : List α) : List UInt8 := varint xs.length ++ xs.flatMap enc

/-- `n` elements one after another. -/
def takeMany (dec : List UInt8 → Option (α × List UInt8)) : Nat → List UInt8 → Option (List α × List UInt8)
  | 0, bytes => some ([], bytes)
  | n + 1, bytes => do
    let (a, bytes) ← dec bytes
    let (as, bytes) ← takeMany dec n bytes
    pure (a :: as, bytes)

/-- A sequence read back: its length, then that many elements. -/
def takeSeq (dec : List UInt8 → Option (α × List UInt8)) (bytes : List UInt8) :
    Option (List α × List UInt8) := do
  let (n, bytes) ← takeVarint bytes
  takeMany dec n bytes

section RoundTrip

variable {enc : α → List UInt8} {dec : List UInt8 → Option (α × List UInt8)}

theorem takeMany_flatMap (hdec : ∀ a rest, dec (enc a ++ rest) = some (a, rest)) (xs : List α)
    (rest : List UInt8) : takeMany dec xs.length (xs.flatMap enc ++ rest) = some (xs, rest) := by
  induction xs with
  | nil => rfl
  | cons x xs ih =>
    rw [List.length_cons, List.flatMap_cons, List.append_assoc, takeMany, hdec]
    simp only [Option.bind_eq_bind, Option.bind_some, ih, Option.pure_def]

/-- **A sequence reads back** when its element does. -/
theorem takeSeq_seq (hdec : ∀ a rest, dec (enc a ++ rest) = some (a, rest)) {xs : List α}
    (hlen : xs.length < 2 ^ 64) (rest : List UInt8) : takeSeq dec (seq enc xs ++ rest) = some (xs, rest) := by
  rw [takeSeq, seq, List.append_assoc, takeVarint_varint hlen]
  exact takeMany_flatMap hdec xs rest

end RoundTrip

theorem length_seq (enc : α → List UInt8) (xs : List α) :
    (seq enc xs).length = (varint xs.length).length + (xs.map fun x => (enc x).length).sum := by
  simp [seq, List.length_flatMap]

/-- Appending elements never shortens a sequence's encoding. -/
theorem length_seq_le_append (enc : α → List UInt8) (xs ys : List α) :
    (seq enc xs).length ≤ (seq enc (xs ++ ys)).length := by
  rw [length_seq, length_seq, List.map_append, List.sum_append, List.length_append]
  have := length_varintGo_mono 10 (Nat.le_add_right xs.length ys.length)
  unfold varint
  omega

/-- Of two prefixes of a list, the longer is encoded in at least as many bytes. -/
theorem length_seq_take_mono (enc : α → List UInt8) (xs : List α) {i j : Nat} (hij : i ≤ j) :
    (seq enc (xs.take i)).length ≤ (seq enc (xs.take j)).length := by
  have htake : xs.take j = xs.take i ++ (xs.take j).drop i := by
    conv_lhs => rw [← List.take_append_drop i (xs.take j), List.take_take, Nat.min_eq_left hij]
  rw [htake]
  exact length_seq_le_append enc _ _

end Postcard
