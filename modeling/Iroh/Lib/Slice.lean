import Mathlib

/-! Decoding bytes the way Rust does: `Result`s whose slicing panics.

A decoder returns `Ok`, an `Err` of its own type, or panics: `Except (Fault ε) α`.
A panic travels through `?` and `map_err` unchanged (`panics_bind_iff`,
`panics_mapErr_iff`). Indexing `p[i]` and ranges `p[a..b]`, `p[a..]` panic out of
bounds with the texts of `core::slice::index`; `<[T; n]>::try_from(s).expect(msg)`
panics unless `s` has `n` elements. Each has the lemma that says when it returns
and the one that says when it panics, so that a decoder's proofs never unfold them.

Unsigned integers are read from and written to big-endian bytes
(`from_be_bytes`, `to_be_bytes`) through `beValue` and `beBytes`, which round-trip
below the width (`beValue_beBytes`). -/

namespace Slice

/-- How a decoder that may panic stops: its own error, or a panic with its text. -/
inductive Fault (ε : Type) where
  | error (e : ε)
  | panic (message : String)
deriving DecidableEq, Repr

variable {α β ε ε' : Type}

/-- The computation panics. -/
def Panics (x : Except (Fault ε) α) : Prop := ∃ message, x = .error (.panic message)

/-- `map_err(f)`: a panic is not an error and is not mapped. -/
def mapErr (f : ε → ε') : Except (Fault ε) α → Except (Fault ε') α
  | .ok a => .ok a
  | .error (.error e) => .error (.error (f e))
  | .error (.panic message) => .error (.panic message)

/-- `x.try_into().map_err(|_| e)?` of a conversion that fails only one way. -/
def orErr (x : Option α) (e : ε) : Except (Fault ε) α :=
  match x with
  | some a => .ok a
  | none => .error (.error e)

/-- `p[i]`. -/
def index (p : List α) (i : Nat) : Except (Fault ε) α :=
  if h : i < p.length then .ok p[i]
  else .error (.panic ("index out of bounds: the len is " ++ toString p.length ++
    " but the index is " ++ toString i))

/-- `p[a..b]` (and `p[..b]` for `a = 0`). -/
def range (p : List α) (a b : Nat) : Except (Fault ε) (List α) :=
  if b < a then .error (.panic ("slice index starts at " ++ toString a ++ " but ends at " ++ toString b))
  else if p.length < b then
    .error (.panic ("range end index " ++ toString b ++ " out of range for slice of length " ++
      toString p.length))
  else .ok ((p.drop a).take (b - a))

/-- `p[a..]`. -/
def rangeFrom (p : List α) (a : Nat) : Except (Fault ε) (List α) :=
  if p.length < a then
    .error (.panic ("range start index " ++ toString a ++ " out of range for slice of length " ++
      toString p.length))
  else .ok (p.drop a)

/-- `<[T; n]>::try_from(s).expect(message)`. -/
def expectArray (n : Nat) (message : String) (s : List α) : Except (Fault ε) (Vector α n) :=
  if h : s.length = n then .ok ⟨s.toArray, by simp [h]⟩
  else .error (.panic (message ++ ": TryFromSliceError(())"))

/-- `ensure!(condition, message)`: an error unless the condition holds. -/
def ensure (condition : Bool) (message : ε) : Except (Fault ε) Unit :=
  if condition then .ok () else .error (.error message)

/-- A conversion's error passed on by `?`. -/
def liftErr : Except ε α → Except (Fault ε) α
  | .ok a => .ok a
  | .error e => .error (.error e)

/-- A slice as an array of its length (`try_into`, `copy_from_slice`), or the fault the
conversion stops with. -/
def arrayOr (n : Nat) (fault : Fault ε) (s : List α) : Except (Fault ε) (Vector α n) :=
  if h : s.length = n then .ok ⟨s.toArray, by simp [h]⟩ else .error fault

/-! ### When they return and when they panic -/

theorem panics_bind_iff {x : Except (Fault ε) α} {f : α → Except (Fault ε) β} :
    Panics (x >>= f) ↔ Panics x ∨ ∃ a, x = .ok a ∧ Panics (f a) := by
  rcases x with (e | m) | a <;> simp [Panics, bind, Except.bind]

@[simp] theorem not_panics_ok (a : α) : ¬ Panics (.ok a : Except (Fault ε) α) := by
  simp [Panics]

@[simp] theorem not_panics_pure (a : α) : ¬ Panics (pure a : Except (Fault ε) α) := by
  simp [Panics, pure, Except.pure]

@[simp] theorem not_panics_error (e : ε) : ¬ Panics (.error (.error e) : Except (Fault ε) α) := by
  simp [Panics]

@[simp] theorem panics_panic (message : String) :
    Panics (.error (.panic message) : Except (Fault ε) α) := ⟨message, rfl⟩

@[simp] theorem throw_eq (f : Fault ε) : (throw f : Except (Fault ε) α) = .error f := rfl

@[simp] theorem ok_bind (a : α) (f : α → Except (Fault ε) β) :
    ((.ok a : Except (Fault ε) α) >>= f) = f a := rfl

@[simp] theorem error_bind (e : Fault ε) (f : α → Except (Fault ε) β) :
    ((.error e : Except (Fault ε) α) >>= f) = .error e := rfl

@[simp] theorem panics_map_iff {f : α → β} {x : Except (Fault ε) α} : Panics (f <$> x) ↔ Panics x := by
  rcases x with (e | m) | a <;> simp [Panics, Functor.map, Except.map]

@[simp] theorem panics_except_map_iff {f : α → β} {x : Except (Fault ε) α} :
    Panics (x.map f) ↔ Panics x :=
  panics_map_iff

@[simp] theorem panics_mapErr_iff {f : ε → ε'} {x : Except (Fault ε) α} :
    Panics (mapErr f x) ↔ Panics x := by
  rcases x with (e | m) | a <;> simp [mapErr]

@[simp] theorem mapErr_ok (f : ε → ε') (a : α) : mapErr f (.ok a : Except (Fault ε) α) = .ok a := rfl

@[simp] theorem not_panics_orErr (x : Option α) (e : ε) : ¬ Panics (orErr x e) := by
  cases x <;> simp [orErr]

@[simp] theorem orErr_eq_ok {x : Option α} {e : ε} {a : α} : orErr x e = .ok a ↔ x = some a := by
  cases x <;> simp [orErr]

theorem index_of_lt {p : List α} {i : Nat} (h : i < p.length) :
    (index p i : Except (Fault ε) α) = .ok p[i] := by
  simp [index, h]

theorem range_of_le {p : List α} {a b : Nat} (hab : a ≤ b) (hb : b ≤ p.length) :
    (range p a b : Except (Fault ε) (List α)) = .ok ((p.drop a).take (b - a)) := by
  simp [range, Nat.not_lt.mpr hab, Nat.not_lt.mpr hb]

theorem range_of_lt_end {p : List α} {a b : Nat} (hab : a ≤ b) (hb : p.length < b) :
    (range p a b : Except (Fault ε) (List α)) =
      .error (.panic ("range end index " ++ toString b ++ " out of range for slice of length " ++
        toString p.length)) := by
  simp [range, Nat.not_lt.mpr hab, hb]

theorem rangeFrom_of_le {p : List α} {a : Nat} (ha : a ≤ p.length) :
    (rangeFrom p a : Except (Fault ε) (List α)) = .ok (p.drop a) := by
  simp [rangeFrom, Nat.not_lt.mpr ha]

theorem expectArray_of_length {n : Nat} {message : String} {s : List α} (h : s.length = n) :
    (expectArray n message s : Except (Fault ε) (Vector α n)) = .ok ⟨s.toArray, by simp [h]⟩ := by
  simp [expectArray, h]

theorem expectArray_of_length_ne {n : Nat} {message : String} {s : List α} (h : s.length ≠ n) :
    (expectArray n message s : Except (Fault ε) (Vector α n)) =
      .error (.panic (message ++ ": TryFromSliceError(())")) := by
  simp [expectArray, h]

@[simp] theorem panics_expectArray_iff {n : Nat} {message : String} {s : List α} :
    Panics (expectArray n message s : Except (Fault ε) (Vector α n)) ↔ s.length ≠ n := by
  by_cases h : s.length = n
  · rw [expectArray_of_length h]
    exact iff_of_false (not_panics_ok _) (not_not.mpr h)
  · rw [expectArray_of_length_ne h]
    exact iff_of_true (panics_panic _) h

/-- A range converted to an array of its length panics exactly when it runs past the end. -/
theorem panics_range_expectArray_iff {p : List α} {a b n : Nat} {message : String} (hab : a + n = b) :
    Panics ((range p a b : Except (Fault ε) (List α)) >>= expectArray n message) ↔ p.length < b := by
  by_cases hb : b ≤ p.length
  · have hlen : ((p.drop a).take (b - a)).length = n := by simp; omega
    rw [range_of_le (by omega) hb, ok_bind, expectArray_of_length hlen]
    exact iff_of_false (not_panics_ok _) (by omega)
  · rw [range_of_lt_end (by omega) (by omega), error_bind]
    exact iff_of_true (panics_panic _) (by omega)

@[simp] theorem not_panics_ensure (c : Bool) (message : ε) : ¬ Panics (ensure c message) := by
  cases c <;> simp [ensure]

theorem ensure_of_true {c : Bool} (message : ε) (h : c = true) : ensure c message = .ok () := by
  simp [ensure, h]

theorem ensure_of_false {c : Bool} (message : ε) (h : c = false) :
    ensure c message = .error (.error message) := by
  simp [ensure, h]

/-- A computation past an `ensure!` returns only if the condition held. -/
theorem ensure_bind_eq_ok {c : Bool} {message : ε} {f : Unit → Except (Fault ε) α} {a : α} :
    (ensure c message >>= f) = .ok a ↔ c = true ∧ f () = .ok a := by
  cases c <;> simp [ensure]

/-- A computation past an `ensure!` panics only if the condition held. -/
theorem panics_ensure_bind_iff {c : Bool} {message : ε} {f : Unit → Except (Fault ε) α} :
    Panics (ensure c message >>= f) ↔ c = true ∧ Panics (f ()) := by
  cases c <;> simp [ensure]

@[simp] theorem not_panics_liftErr (x : Except ε α) : ¬ Panics (liftErr x) := by
  cases x <;> simp [liftErr]

@[simp] theorem liftErr_ok (a : α) : liftErr (.ok a : Except ε α) = .ok a := rfl

@[simp] theorem liftErr_eq_ok {x : Except ε α} {a : α} : liftErr x = .ok a ↔ x = .ok a := by
  cases x <;> simp [liftErr]

theorem arrayOr_of_length {n : Nat} {fault : Fault ε} {s : List α} (h : s.length = n) :
    arrayOr n fault s = .ok ⟨s.toArray, by simp [h]⟩ := by
  simp [arrayOr, h]

@[simp] theorem arrayOr_toList {n : Nat} (fault : Fault ε) (v : Vector α n) :
    arrayOr n fault v.toList = .ok v := by
  rw [arrayOr_of_length (by simp)]
  simp [Vector.toList]

theorem arrayOr_eq_ok {n : Nat} {fault : Fault ε} {s : List α} {v : Vector α n} :
    arrayOr n fault s = .ok v ↔ v.toList = s := by
  constructor
  · intro h
    by_cases hs : s.length = n
    · rw [arrayOr_of_length hs] at h
      cases h
      simp
    · simp [arrayOr, hs] at h
  · rintro rfl
    exact arrayOr_toList fault v

/-- A conversion that fails with an error of its own never panics. -/
theorem not_panics_arrayOr_error {n : Nat} (e : ε) (s : List α) : ¬ Panics (arrayOr n (.error e) s) := by
  by_cases h : s.length = n <;> simp [arrayOr, h]

/-- The conversion of a slice of the right length returns. -/
theorem not_panics_arrayOr {n : Nat} {fault : Fault ε} {s : List α} (h : s.length = n) :
    ¬ Panics (arrayOr n fault s) := by
  rw [arrayOr_of_length h]
  exact not_panics_ok _

/-! ### Cutting a buffer into its fields -/

/-- A range over a field of the buffer is that field. -/
theorem range_of_split {l p q r : List α} {a b : Nat} (hl : l = p ++ q ++ r) (ha : p.length = a)
    (hb : a + q.length = b) : (range l a b : Except (Fault ε) (List α)) = .ok q := by
  subst hl ha hb
  rw [range_of_le (by omega) (by simp)]
  simp

/-- The range from a field's start is the rest of the buffer. -/
theorem rangeFrom_of_split {l p q : List α} {a : Nat} (hl : l = p ++ q) (ha : p.length = a) :
    (rangeFrom l a : Except (Fault ε) (List α)) = .ok q := by
  subst hl ha
  rw [rangeFrom_of_le (by simp)]
  simp

/-- A range and the slice after it are the slice from the range's start. -/
theorem take_drop_append_drop (l : List α) {a n b : Nat} (h : a + n = b) :
    (l.drop a).take n ++ l.drop b = l.drop a := by
  rw [← h, ← List.drop_drop, List.take_append_drop]

/-! ### Big-endian integers -/

/-- The low `n` bytes of a number, most significant first. -/
def beBytes : Nat → Nat → List UInt8
  | 0, _ => []
  | n + 1, v => beBytes n (v / 256) ++ [UInt8.ofNat (v % 256)]

/-- The number big-endian bytes spell. -/
def beValue (bytes : List UInt8) : Nat :=
  bytes.foldl (fun acc byte => acc * 256 + byte.toNat) 0

@[simp] theorem length_beBytes (n v : Nat) : (beBytes n v).length = n := by
  induction n generalizing v with
  | zero => rfl
  | succ n ih => simp [beBytes, ih]

theorem beValue_append_byte (bytes : List UInt8) (byte : UInt8) :
    beValue (bytes ++ [byte]) = beValue bytes * 256 + byte.toNat := by
  simp [beValue, List.foldl_append]

/-- Big-endian bytes read back as the number, reduced to their width. -/
theorem beValue_beBytes (n v : Nat) : beValue (beBytes n v) = v % 256 ^ n := by
  induction n generalizing v with
  | zero => simp [beBytes, beValue, Nat.mod_one]
  | succ n ih =>
    have byte : (UInt8.ofNat (v % 256)).toNat = v % 256 := by simp
    rw [beBytes, beValue_append_byte, ih, byte, Nat.pow_succ, Nat.mul_comm (256 ^ n) 256, Nat.mod_mul]
    omega

/-- The bytes of a number are the bytes it was read from. -/
theorem beBytes_beValue (bytes : List UInt8) : beBytes bytes.length (beValue bytes) = bytes := by
  induction bytes using List.reverseRecOn with
  | nil => rfl
  | append_singleton bytes byte ih =>
    have hbyte := byte.toNat_lt
    have hdiv : (beValue bytes * 256 + byte.toNat) / 256 = beValue bytes := by omega
    have hmod : UInt8.ofNat ((beValue bytes * 256 + byte.toNat) % 256) = byte := by
      rw [show (beValue bytes * 256 + byte.toNat) % 256 = byte.toNat by omega, UInt8.ofNat_toNat]
    rw [List.length_append, List.length_singleton, beBytes, beValue_append_byte, hdiv, hmod, ih]

/-- Big-endian bytes spell a number below their width. -/
theorem beValue_lt (bytes : List UInt8) : beValue bytes < 256 ^ bytes.length := by
  have h := beValue_beBytes bytes.length (beValue bytes)
  rw [beBytes_beValue] at h
  rw [h]
  exact Nat.mod_lt _ (by positivity)

/-- `u16::to_be_bytes`. -/
def u16ToBeBytes (x : UInt16) : List UInt8 := beBytes 2 x.toNat

/-- `u16::from_be_bytes`. -/
def u16FromBeBytes (bytes : Vector UInt8 2) : UInt16 := UInt16.ofNat (beValue bytes.toList)

/-- `u32::to_be_bytes`. -/
def u32ToBeBytes (x : UInt32) : List UInt8 := beBytes 4 x.toNat

/-- `u32::from_be_bytes`. -/
def u32FromBeBytes (bytes : Vector UInt8 4) : UInt32 := UInt32.ofNat (beValue bytes.toList)

@[simp] theorem length_u16ToBeBytes (x : UInt16) : (u16ToBeBytes x).length = 2 := length_beBytes _ _

@[simp] theorem length_u32ToBeBytes (x : UInt32) : (u32ToBeBytes x).length = 4 := length_beBytes _ _

theorem u16FromBeBytes_u16ToBeBytes (x : UInt16) (h : (u16ToBeBytes x).toArray.size = 2) :
    u16FromBeBytes ⟨(u16ToBeBytes x).toArray, h⟩ = x := by
  simp [u16FromBeBytes, u16ToBeBytes, beValue_beBytes]

theorem u32FromBeBytes_u32ToBeBytes (x : UInt32) (h : (u32ToBeBytes x).toArray.size = 4) :
    u32FromBeBytes ⟨(u32ToBeBytes x).toArray, h⟩ = x := by
  simp [u32FromBeBytes, u32ToBeBytes, beValue_beBytes]

theorem u32ToBeBytes_u32FromBeBytes (bytes : Vector UInt8 4) :
    u32ToBeBytes (u32FromBeBytes bytes) = bytes.toList := by
  have hlt : beValue bytes.toList < 256 ^ 4 := by simpa using beValue_lt bytes.toList
  have hval : (u32FromBeBytes bytes).toNat = beValue bytes.toList := by
    simp only [u32FromBeBytes, UInt32.toNat_ofNat']
    omega
  have hbytes := beBytes_beValue bytes.toList
  rw [Vector.length_toList] at hbytes
  rw [u32ToBeBytes, hval, hbytes]

/-- Four bytes read as a length and written back are the four bytes. -/
theorem u32ToBeBytes_ofNat_beValue {bytes : List UInt8} (h : bytes.length = 4) :
    u32ToBeBytes (UInt32.ofNat (beValue bytes)) = bytes := by
  exact u32ToBeBytes_u32FromBeBytes ⟨bytes.toArray, by simp [h]⟩

/-- `u16::to_le_bytes`, as `BufMut::put_u16_le` writes it. -/
def u16ToLeBytes (x : UInt16) : List UInt8 := (u16ToBeBytes x).reverse

/-- `Buf::get_u16_le`: two bytes read least significant first, and the rest of the buffer. -/
def getU16Le (buf : List UInt8) : Except (Fault ε) (UInt16 × List UInt8) :=
  if 2 ≤ buf.length then .ok (UInt16.ofNat (beValue (buf.take 2).reverse), buf.drop 2)
  else .error (.panic ("advance out of bounds: the len is " ++ toString buf.length ++
    " but advancing by 2"))

/-- `Bytes::split_to(n)`: the first `n` bytes, and the rest. -/
def splitTo (buf : List α) (n : Nat) : Except (Fault ε) (List α × List α) :=
  if n ≤ buf.length then .ok (buf.take n, buf.drop n)
  else .error (.panic ("split_to out of bounds: " ++ toString n ++ " <= " ++ toString buf.length))

@[simp] theorem length_u16ToLeBytes (x : UInt16) : (u16ToLeBytes x).length = 2 := by
  simp [u16ToLeBytes]

theorem getU16Le_of_le {buf : List UInt8} (h : 2 ≤ buf.length) :
    (getU16Le buf : Except (Fault ε) _) = .ok (UInt16.ofNat (beValue (buf.take 2).reverse), buf.drop 2) := by
  simp [getU16Le, h]

theorem getU16Le_u16ToLeBytes (x : UInt16) (rest : List UInt8) :
    (getU16Le (u16ToLeBytes x ++ rest) : Except (Fault ε) _) = .ok (x, rest) := by
  rw [getU16Le_of_le (by simp)]
  have hx : UInt16.ofNat (beValue (u16ToBeBytes x)) = x := by
    simp [u16ToBeBytes, beValue_beBytes]
  simp [u16ToLeBytes, hx]

/-- Two bytes read as a length and written back are the two bytes. -/
theorem u16ToLeBytes_ofNat_beValue {bytes : List UInt8} (h : bytes.length = 2) :
    u16ToLeBytes (UInt16.ofNat (beValue bytes.reverse)) = bytes := by
  have hlt : beValue bytes.reverse < 256 ^ 2 := by simpa [h] using beValue_lt bytes.reverse
  have hval : (UInt16.ofNat (beValue bytes.reverse)).toNat = beValue bytes.reverse := by
    simp only [UInt16.toNat_ofNat']
    omega
  have hbytes := beBytes_beValue bytes.reverse
  rw [List.length_reverse, h] at hbytes
  rw [u16ToLeBytes, u16ToBeBytes, hval, hbytes, List.reverse_reverse]

theorem splitTo_of_le {buf : List α} {n : Nat} (h : n ≤ buf.length) :
    (splitTo buf n : Except (Fault ε) _) = .ok (buf.take n, buf.drop n) := by
  simp [splitTo, h]

/-- Two bytes spell zero only when both are zero. -/
theorem u16FromBeBytes_eq_zero_iff (a b : UInt8) (h : [a, b].toArray.size = 2) :
    u16FromBeBytes ⟨[a, b].toArray, h⟩ = 0 ↔ a = 0 ∧ b = 0 := by
  have ha := a.toNat_lt
  have hb := b.toNat_lt
  have hval : beValue [a, b] = a.toNat * 256 + b.toNat := by simp [beValue]
  show UInt16.ofNat (beValue [a, b]) = 0 ↔ _
  rw [hval, ← UInt16.toNat_inj, ← UInt8.toNat_inj, ← UInt8.toNat_inj]
  simp only [UInt16.toNat_ofNat', UInt16.toNat_ofNat, UInt8.toNat_zero]
  omega

end Slice
