import Mathlib
import Iroh.Lib.Utf8

/-! Domain names as the DNS server reads them, and the pkarr names of its zones
(`parse_name_as_pkarr_with_origin`, `dns/node_authority.rs`).

The server's names are hickory's `Name`, which this repository does not define: what the
server uses of it is a parameter (`Names`), and what the server relies on of it are the
parameter's hypotheses. A name has labels, leftmost first, each of 1 to 63 bytes, and is at
most 255 bytes long as `Name::len` counts them (the label bytes and one dot for each label).
`num_labels` does not count a leading `*`; an origin whose labels end a name has the name in
its zone (`zone_of`); `from_labels` and `append_name` build the name of the labels given, or
appended, within those bounds; and `Name::parse` of one label of letters and digits, relative
to an origin, is that label before the origin's labels. Every name on these paths is fully
qualified, so the flag is left out, as are the payloads of hickory's errors. `listNames` is an
instance, a name being its list of labels, on which the server can be run.

A pkarr name is `<name>.<z32 key>.<origin>` for one of the server's origins. Parsing one takes
the first origin whose zone the name is in, and decodes the label before the origin as a key:
a name built from a key and an origin parses back to them (`parse_of_labels`). -/

namespace Iroh.DnsServer

/-! ### Labels and names -/

/-- The ASCII lowercase of a byte (`u8::to_ascii_lowercase`). -/
def asciiLower (b : UInt8) : UInt8 := if 65 ≤ b ∧ b ≤ 90 then b + 32 else b

/-- A label of 1 to 63 bytes (`Label::from_raw_bytes`). -/
def labelValid (l : List UInt8) : Bool := 0 < l.length && l.length ≤ 63

/-- `Name::len`: one dot for each label (one for the root) and the label bytes. -/
def nameLen (labels : List (List UInt8)) : Nat := max labels.length 1 + (labels.map List.length).sum

/-- What hickory reports on a label or a name out of bounds. -/
inductive ProtoError where
  | labelBytes
  | domainNameTooLong
  /-- any other error, such as a message that does not decode -/
  | other
deriving DecidableEq, Repr

/-- The bytes of a text: a label as `Label::from_utf8` makes it of letters and digits. -/
def textBytes (s : String) : List UInt8 := s.toUTF8.data.toList

/-- What the server uses of hickory's `Name`, with what it relies on of it. -/
structure Names (N : Type) where
  /-- `Name::iter`: the labels, leftmost first -/
  labels : N → List (List UInt8)
  /-- `Name::num_labels` -/
  numLabels : N → Nat
  /-- `Name::zone_of` -/
  zoneOf : N → N → Bool
  /-- `Name::from_labels` -/
  fromLabels : List (List UInt8) → Except ProtoError N
  /-- `Name::append_name` -/
  appendName : N → N → Except ProtoError N
  /-- `Name::parse` of a text relative to an origin -/
  parse : String → N → Except ProtoError N
  /-- `Name::to_lowercase` -/
  toLowercase : N → N
  labels_valid : ∀ n, ∀ l ∈ labels n, labelValid l = true
  nameLen_le : ∀ n, nameLen (labels n) ≤ 255
  numLabels_le : ∀ n, numLabels n ≤ (labels n).length
  length_le_numLabels : ∀ n, (labels n).length ≤ numLabels n + 1
  numLabels_of_head : ∀ n l ls, labels n = l :: ls → l ≠ [42] → numLabels n = (labels n).length
  zoneOf_of_suffix : ∀ o n a, labels n = a ++ labels o → zoneOf o n = true
  labels_fromLabels : ∀ ls n, fromLabels ls = .ok n → labels n = ls
  fromLabels_ok : ∀ ls, (∀ l ∈ ls, labelValid l = true) → nameLen ls ≤ 255 → ∃ n, fromLabels ls = .ok n
  appendName_ok : ∀ n o, nameLen (labels n ++ labels o) ≤ 255 →
    ∃ m, appendName n o = .ok m ∧ labels m = labels n ++ labels o
  parse_label : ∀ s o, (∀ c ∈ s.toList, c.isAlphanum = true) → labelValid (textBytes s) = true →
    nameLen (textBytes s :: labels o) ≤ 255 → ∃ m, parse s o = .ok m ∧ labels m = textBytes s :: labels o
  labels_toLowercase : ∀ n, labels (toLowercase n) = (labels n).map (List.map asciiLower)

namespace Names

variable {N : Type} (names : Names N)

/-! ### Bounds -/

theorem nameLen_le_append_left (a b : List (List UInt8)) : nameLen a ≤ nameLen (a ++ b) := by
  simp only [nameLen, List.length_append, List.map_append, List.sum_append]
  omega

theorem nameLen_le_append_right (a b : List (List UInt8)) : nameLen b ≤ nameLen (a ++ b) := by
  simp only [nameLen, List.length_append, List.map_append, List.sum_append]
  omega

/-- The labels at the start of a name make a name. -/
theorem fromLabels_of_prefix (n : N) {a b : List (List UInt8)} (h : names.labels n = a ++ b) :
    ∃ m, names.fromLabels a = .ok m ∧ names.labels m = a := by
  obtain ⟨m, hm⟩ := names.fromLabels_ok a (fun l hl => names.labels_valid n l (h ▸ List.mem_append_left b hl))
    ((nameLen_le_append_left a b).trans (h ▸ names.nameLen_le n))
  exact ⟨m, hm, names.labels_fromLabels a m hm⟩

/-- A name with labels has labels, after a leading `*`. -/
theorem labels_ne_nil_of_numLabels {n : N} (h : ¬ names.numLabels n < 1) : names.labels n ≠ [] := by
  intro he
  have := names.numLabels_le n
  rw [he] at this
  simp at this
  omega

/-- Names equal up to ASCII case have the same length, whatever follows them. -/
theorem nameLen_append_of_lower {a b : List (List UInt8)}
    (h : a.map (List.map asciiLower) = b.map (List.map asciiLower)) (c : List (List UInt8)) :
    nameLen (a ++ c) = nameLen (b ++ c) := by
  have hlen : a.length = b.length := by simpa using congrArg List.length h
  have hsum : (a.map List.length).sum = (b.map List.length).sum := by
    have := congrArg (fun ls => (ls.map List.length).sum) h
    simpa [Function.comp_def] using this
  simp only [nameLen, List.length_append, List.map_append, List.sum_append, hlen, hsum]

end Names

/-! ### Pkarr names -/

/-- The z-base-32 codec of public keys (`PublicKeyBytes::to_z32` and `from_z32`), with what the
server relies on: decoding an encoding gives the key back, and an encoding is a label of
lowercase letters and digits, z-base-32's alphabet. -/
structure Z32 (K : Type) where
  encode : K → String
  decode : String → Option K
  decode_encode : ∀ k, decode (encode k) = some k
  valid : ∀ k, labelValid (textBytes (encode k)) = true
  alnum : ∀ k, ∀ c ∈ (encode k).toList, c.isAlphanum = true
  lower : ∀ k, (textBytes (encode k)).map asciiLower = textBytes (encode k)
  not_star : ∀ k, textBytes (encode k) ≠ [42]

/-- The label of a key: the bytes of its z-base-32 encoding. -/
def Z32.label {K : Type} (z : Z32 K) (k : K) : List UInt8 := textBytes (z.encode k)

/-- How `parse_name_as_pkarr_with_origin` fails. -/
inductive ParseError where
  /-- "not a valid pkarr name: missing pubkey" -/
  | missingPubkey
  /-- the `expect("length checked above")` fails -/
  | lengthChecked
  /-- the key label is not UTF-8 (`std::str::from_utf8`) -/
  | utf8
  /-- "not a valid pkarr name: invalid pubkey" -/
  | invalidPubkey
  | name (e : ProtoError)
  /-- "name does not match any allowed origin" -/
  | noOrigin
deriving DecidableEq, Repr

variable {N K : Type} (names : Names N)

/-- `parse_name_as_pkarr_with_origin`: the name without its key and origin, the key, and the
origin. -/
def parseNameAsPkarrWithOrigin (z : Z32 K) (name : N) : List N → Except ParseError (N × K × N)
  | [] => .error .noOrigin
  | origin :: allowedOrigins =>
    if !names.zoneOf origin name then parseNameAsPkarrWithOrigin z name allowedOrigins
    else if names.numLabels name < names.numLabels origin + 1 then .error .missingPubkey
    else
      match (names.labels name).reverse.drop (names.numLabels origin) with
      | [] => .error .lengthChecked
      | pkeyLabel :: labelsWithoutOrigin =>
        match String.fromUTF8? ⟨pkeyLabel.toArray⟩ with
        | none => .error .utf8
        | some pkeyStr =>
          match z.decode pkeyStr with
          | none => .error .invalidPubkey
          | some pkey =>
            match names.fromLabels labelsWithoutOrigin.reverse with
            | .error e => .error (.name e)
            | .ok remainingName => .ok (remainingName, pkey, origin)

theorem fromUTF8?_label (z : Z32 K) (k : K) : String.fromUTF8? ⟨(z.label k).toArray⟩ = some (z.encode k) := by
  have h : (⟨(z.label k).toArray⟩ : ByteArray) = (z.encode k).toUTF8 := by simp [Z32.label, textBytes]
  rw [h, Utf8.fromUTF8?_toUTF8]

/-- A name of labels before a key's label and an origin's labels parses to them, where no
origin listed before has the name in its zone and the origin does not start with `*`. -/
theorem parse_of_labels (z : Z32 K) {name o : N} {rest : List (List UInt8)} {k : K}
    (hname : names.labels name = rest ++ z.label k :: names.labels o)
    (ho : names.numLabels o = (names.labels o).length)
    {pre : List N} (hpre : ∀ o' ∈ pre, names.zoneOf o' name = false) (post : List N) :
    ∃ r, parseNameAsPkarrWithOrigin names z name (pre ++ o :: post) = .ok (r, k, o) ∧
      names.labels r = rest := by
  induction pre with
  | cons o' pre ih =>
    have h' : names.zoneOf o' name = false := hpre o' List.mem_cons_self
    simpa [parseNameAsPkarrWithOrigin, h'] using ih fun o'' h'' => hpre o'' (List.mem_cons_of_mem o' h'')
  | nil =>
    have hnum : names.numLabels o + 1 ≤ names.numLabels name := by
      rcases rest with _ | ⟨l, rest⟩
      · rw [names.numLabels_of_head name _ _ hname (z.not_star k), hname]
        simp [ho]
      · have := names.length_le_numLabels name
        simp only [hname, List.cons_append, List.length_cons, List.length_append] at this
        omega
    have hzone : names.zoneOf o name = true :=
      names.zoneOf_of_suffix o name (rest ++ [z.label k]) (by simp [hname])
    have hdrop : (names.labels name).reverse.drop (names.numLabels o) = z.label k :: rest.reverse := by
      rw [hname, ho]
      simp
    obtain ⟨r, hr, hrl⟩ := names.fromLabels_of_prefix name hname
    refine ⟨r, ?_, hrl⟩
    simp only [List.nil_append, parseNameAsPkarrWithOrigin, hzone, Bool.not_true, Bool.false_eq_true,
      if_false, hdrop, fromUTF8?_label, z.decode_encode, List.reverse_reverse, hr]
    rw [if_neg (by omega)]

/-! ### Names as lists of labels -/

/-- A name as its labels, valid and within hickory's length. -/
structure LabelName where
  labels : List (List UInt8)
  valid : ∀ l ∈ labels, labelValid l = true
  len_le : nameLen labels ≤ 255

namespace LabelName

@[ext] theorem ext {a b : LabelName} (h : a.labels = b.labels) : a = b := by
  cases a
  cases b
  cases h
  rfl

/-- Labels within the bounds as a name. -/
def fromLabels (labels : List (List UInt8)) : Except ProtoError LabelName :=
  if labels.length > 255 then .error .domainNameTooLong
  else if hv : labels.all labelValid = true then
    if hl : nameLen labels ≤ 255 then .ok ⟨labels, List.all_eq_true.mp hv, hl⟩
    else .error .domainNameTooLong
  else .error .labelBytes

/-- One name's labels followed by another's. -/
def appendName (n origin : LabelName) : Except ProtoError LabelName :=
  if hl : nameLen (n.labels ++ origin.labels) ≤ 255 then
    .ok ⟨n.labels ++ origin.labels, by simpa [or_imp, forall_and] using And.intro n.valid origin.valid, hl⟩
  else .error .domainNameTooLong

/-- The labels, a leading `*` not counted. -/
def numLabels (n : LabelName) : Nat :=
  match n.labels with
  | l :: _ => if l = [42] then n.labels.length - 1 else n.labels.length
  | [] => 0

/-- The labels lowercased. -/
def toLowercase (n : LabelName) : LabelName where
  labels := n.labels.map (List.map asciiLower)
  valid l hl := by
    obtain ⟨l', hl', rfl⟩ := List.mem_map.mp hl
    simpa [labelValid] using n.valid l' hl'
  len_le := by simpa [nameLen, Function.comp_def] using n.len_le

/-- The origin's labels end the name's, ignoring ASCII case. -/
def zoneOf (origin name : LabelName) : Bool :=
  let s := origin.toLowercase
  let n := name.toLowercase
  if s.labels.length = 0 then true
  else if n.labels.length = 0 then false
  else if s.labels.length > n.labels.length then false
  else (s.labels.reverse.zip n.labels.reverse).all fun p => p.1 = p.2

/-- A text as one label, before an origin's labels: the server parses only keys, which have
no dot. -/
def parse (s : String) (origin : LabelName) : Except ProtoError LabelName := do
  let m ← fromLabels [textBytes s]
  appendName m origin

theorem fst_eq_snd_of_mem_zip_self {α : Type} : ∀ {l : List α} {p : α × α}, p ∈ l.zip l → p.1 = p.2
  | [], _, h => by simp at h
  | a :: l, p, h => by
    rw [List.zip_cons_cons, List.mem_cons] at h
    rcases h with rfl | h
    · rfl
    · exact fst_eq_snd_of_mem_zip_self h

theorem zoneOf_of_suffix (o n : LabelName) (a : List (List UInt8)) (h : n.labels = a ++ o.labels) :
    o.zoneOf n = true := by
  have hn : n.toLowercase.labels.reverse =
      o.toLowercase.labels.reverse ++ (a.map (List.map asciiLower)).reverse := by
    simp [toLowercase, h]
  have hzip : o.toLowercase.labels.reverse.zip n.toLowercase.labels.reverse =
      o.toLowercase.labels.reverse.zip o.toLowercase.labels.reverse := by
    rw [hn]
    simpa using @List.zip_append _ _ o.toLowercase.labels.reverse [] o.toLowercase.labels.reverse
      (a.map (List.map asciiLower)).reverse rfl
  have hlen : o.toLowercase.labels.length ≤ n.toLowercase.labels.length := by
    simp [toLowercase, h]
  unfold zoneOf
  simp only [hzip]
  split
  · rfl
  · split
    · omega
    · split
      · omega
      · simpa using fun a b hab => fst_eq_snd_of_mem_zip_self (p := (a, b)) hab

theorem labels_fromLabels (ls : List (List UInt8)) (m : LabelName) (h : fromLabels ls = .ok m) :
    m.labels = ls := by
  unfold fromLabels at h
  split at h
  · cases h
  · split at h
    · split at h
      · cases h
        rfl
      · cases h
    · cases h

theorem fromLabels_ok (ls : List (List UInt8)) (hv : ∀ l ∈ ls, labelValid l = true) (hl : nameLen ls ≤ 255) :
    ∃ n, fromLabels ls = .ok n := by
  have hcount : ¬ ls.length > 255 := by
    simp only [nameLen] at hl
    omega
  exact ⟨⟨ls, hv, hl⟩, by simp [fromLabels, hcount, List.all_eq_true.mpr hv, hl]⟩

theorem appendName_ok (n o : LabelName) (h : nameLen (n.labels ++ o.labels) ≤ 255) :
    ∃ m, n.appendName o = .ok m ∧ m.labels = n.labels ++ o.labels :=
  ⟨_, dif_pos h, rfl⟩

theorem numLabels_le (n : LabelName) : n.numLabels ≤ n.labels.length := by
  unfold numLabels
  split
  · split <;> omega
  · omega

theorem length_le_numLabels (n : LabelName) : n.labels.length ≤ n.numLabels + 1 := by
  unfold numLabels
  split
  · rename_i l ls hl
    rw [hl]
    split <;> simp
  · rename_i hl
    simp [hl]

theorem numLabels_of_head (n : LabelName) (l : List UInt8) (ls : List (List UInt8)) (h : n.labels = l :: ls)
    (hl : l ≠ [42]) : n.numLabels = n.labels.length := by
  simp [numLabels, h, hl]

theorem parse_label (s : String) (o : LabelName) (_ : ∀ c ∈ s.toList, c.isAlphanum = true)
    (hv : labelValid (textBytes s) = true) (hl : nameLen (textBytes s :: o.labels) ≤ 255) :
    ∃ m, parse s o = .ok m ∧ m.labels = textBytes s :: o.labels := by
  have hone : nameLen [textBytes s] ≤ 255 :=
    (Names.nameLen_le_append_left [textBytes s] o.labels).trans hl
  obtain ⟨m, hm⟩ := fromLabels_ok [textBytes s] (by simpa using hv) hone
  have hml := labels_fromLabels _ m hm
  obtain ⟨m', hm', hm'l⟩ := appendName_ok m o (by rw [hml]; exact hl)
  refine ⟨m', ?_, by rw [hm'l, hml]; rfl⟩
  simp [parse, hm, hm', bind, Except.bind]

end LabelName

/-- Names as lists of labels. -/
def listNames : Names LabelName where
  labels := LabelName.labels
  numLabels := LabelName.numLabels
  zoneOf := LabelName.zoneOf
  fromLabels := LabelName.fromLabels
  appendName := LabelName.appendName
  parse := LabelName.parse
  toLowercase := LabelName.toLowercase
  labels_valid n := n.valid
  nameLen_le n := n.len_le
  numLabels_le := LabelName.numLabels_le
  length_le_numLabels := LabelName.length_le_numLabels
  numLabels_of_head := LabelName.numLabels_of_head
  zoneOf_of_suffix := LabelName.zoneOf_of_suffix
  labels_fromLabels := LabelName.labels_fromLabels
  fromLabels_ok := LabelName.fromLabels_ok
  appendName_ok := LabelName.appendName_ok
  parse_label := LabelName.parse_label
  labels_toLowercase _ := rfl

/-- Two keys, `yb` and `yn` in z-base-32. -/
def boolZ32 : Z32 Bool where
  encode b := if b then "yb" else "yn"
  decode s := if s = "yb" then some true else if s = "yn" then some false else none
  decode_encode b := by cases b <;> rfl
  valid b := by cases b <;> decide
  alnum b := by
    cases b
    · rw [show (if false = true then "yb" else "yn").toList = ['y', 'n'] from rfl]
      intro c hc
      simp only [List.mem_cons, List.not_mem_nil, or_false] at hc
      rcases hc with rfl | rfl <;> rfl
    · rw [show (if true = true then "yb" else "yn").toList = ['y', 'b'] from rfl]
      intro c hc
      simp only [List.mem_cons, List.not_mem_nil, or_false] at hc
      rcases hc with rfl | rfl <;> rfl
  lower b := by cases b <;> decide
  not_star b := by cases b <;> decide

/-- The origin `iroh`. -/
def irohOrigin : LabelName := ⟨[[105, 114, 111, 104]], by decide, by decide⟩

/-- `_iroh.yb`, as a packet names its record. -/
def irohRecordName : LabelName := ⟨[[95, 105, 114, 111, 104], [121, 98]], by decide, by decide⟩

/-- `_iroh.yb.iroh`. -/
def irohQuery : LabelName := ⟨[[95, 105, 114, 111, 104], [121, 98], [105, 114, 111, 104]], by decide, by decide⟩

end Iroh.DnsServer
