import Iroh.Lib.Slice
import Iroh.Lib.Utf8

/-! Document keys for file paths (`iroh/src/util/fs.rs`).

`path_to_key` writes a path as a key: the root stripped, the components joined by `/`
(`canonicalized_path_to_string`), a prefix before and a NUL byte after. `key_to_path`
reads a key back: it drops a final NUL, strips the prefix, starts from `/` when the
key does, joins every `/`-separated piece as a path, and puts the root before it.

A path is its list of components, as `Path::components` gives them on Unix; Rust
compares paths that way. `Path.push` and `Path.join` are `PathBuf::push` and
`Path::join` on those components: a piece `..` is a `ParentDir`, and an absolute path
replaces the one it is joined to. An error carries what its message formats.

`keyToPath` panics exactly when the key, with its NUL dropped, is shorter than the
prefix or is the prefix (`keyToPath_panics_iff`): `key[..prefix.len()]` and `key[0]`
are not checked. A key that holds `..` or starts with `/` after its prefix gives a path
outside the root. -/

namespace Iroh.Util

open Slice

/-- `std::path::Component` of a Unix path, which has no `Prefix`. A `Normal` component
is its bytes, an `OsStr`. -/
inductive Component where
  | rootDir
  | curDir
  | parentDir
  | normal (name : List UInt8)
deriving DecidableEq, Repr

/-- A path, as its components. -/
abbrev Path := List Component

/-- `String::into_bytes`: the UTF-8 bytes. -/
def intoBytes (s : String) : List UInt8 := s.toUTF8.data.toList

/-- `String::from_utf8`, and `OsStr::to_str`. -/
def fromUtf8 (bytes : List UInt8) : Option String := String.fromUTF8? ⟨bytes.toArray⟩

namespace Path

/-- `PathBuf::push` of a string with no `/`: an empty piece adds nothing, `.` counts only
at the start, `..` is a `ParentDir`. -/
def push (p : Path) (c : String) : Path :=
  if c = "" then p
  else if c = "." then (if p = [] then [.curDir] else p)
  else if c = ".." then p ++ [.parentDir]
  else p ++ [.normal (intoBytes c)]

/-- `Path::join` on Unix: an absolute path replaces the base, and a leading `.` is dropped
after a base. -/
def join (p q : Path) : Path :=
  match q with
  | .rootDir :: _ => q
  | .curDir :: rest => if p = [] then q else p ++ rest
  | _ => p ++ q

/-- `Path::strip_prefix`, component by component. -/
def stripPrefix (p base : Path) : Option Path :=
  if base.isPrefixOf p then some (p.drop base.length) else none

theorem stripPrefix_append (base rest : Path) : (base ++ rest).stripPrefix base = some rest := by
  simp [stripPrefix, List.isPrefixOf_iff_prefix]

end Path

/-- The errors of the key functions; each carries what its message formats. -/
inductive FsError where
  /-- `StripPrefixError`. -/
  | stripPrefix
  /-- "invalid character in path". -/
  | invalidCharacter
  /-- "invalid path component {c:?}" of a name holding `/` or `\`. -/
  | invalidName (name : String)
  /-- "invalid path component {c:?}" of a component. -/
  | invalidComponent (c : Component)
  /-- "key {key:?} does not begin with prefix {prefix:?}". -/
  | prefixMismatch (key pfx : List UInt8)
  /-- "key contains invalid data". -/
  | invalidData
deriving DecidableEq, Repr

/-- One component of the loop of `canonicalized_path_to_string`: a name to join, the
`/` that a root adds, or the error that stops the loop. -/
def canonicalPart (mustBeRelative : Bool) : Component → Except FsError (Option String)
  | .normal x =>
    match fromUtf8 x with
    | none => .error .invalidCharacter
    | some c => if '/' ∉ c.toList ∧ '\\' ∉ c.toList then .ok (some c) else .error (.invalidName c)
  | .rootDir => if mustBeRelative then .error (.invalidComponent .rootDir) else .ok none
  | c => .error (.invalidComponent c)

/-- `canonicalized_path_to_string`. -/
def canonicalizedPathToString (path : Path) (mustBeRelative : Bool) : Except FsError String := do
  let (pathStr, parts) ← path.foldlM (fun (acc : String × List String) c => do
      match ← canonicalPart mustBeRelative c with
      | some part => pure (acc.1, acc.2 ++ [part])
      | none => pure (acc.1.push '/', acc.2)) ("", [])
  pure (pathStr ++ "/".intercalate parts)

/-- `path_to_key`. -/
def pathToKey (path : Path) (pfx : Option String) (root : Option Path) :
    Except FsError (List UInt8) := do
  let path ← match root with
    | some root =>
      match path.stripPrefix root with
      | some rest => pure rest
      | none => throw .stripPrefix
    | none => pure path
  let suffix ← canonicalizedPathToString path false
  let key := match pfx with
    | some pfx => intoBytes pfx
    | none => []
  pure (key ++ intoBytes suffix ++ [0])

/-- The first step of `key_to_path` on a non-empty key: a final NUL byte is removed. -/
def dropNul (key : List UInt8) : Except (Fault FsError) (List UInt8) := do
  if (← index key (key.length - 1)) = 0 then range key 0 (key.length - 1) else pure key

/-- The prefix check of `key_to_path`. -/
def stripKeyPrefix (key : List UInt8) : Option String → Except (Fault FsError) (List UInt8)
  | some pfx => do
    let pfx := intoBytes pfx
    if pfx = (← range key 0 pfx.length) then rangeFrom key pfx.length
    else throw (.error (.prefixMismatch key pfx))
  | none => pure key

/-- The loop of `key_to_path` that joins the `/`-separated pieces of the key. -/
def joinPieces (path : Path) (key : List UInt8) : Except (Fault FsError) Path :=
  (key.splitOn 47).foldlM (fun path c => do
    let component ← orErr (fromUtf8 c) FsError.invalidData
    pure (path.push component)) path

/-- `key_to_path`. -/
def keyToPath (key : List UInt8) (pfx : Option String) (root : Option Path) :
    Except (Fault FsError) Path := do
  if key.isEmpty then return []
  let key ← dropNul key
  let key ← stripKeyPrefix key pfx
  let path : Path := if (← index key 0) = 47 then [.rootDir] else []
  let path ← joinPieces path key
  return match root with
    | some root => root.join path
    | none => path

/-! ### Panics -/

/-- The key without its final NUL byte. -/
def withoutNul (key : List UInt8) : List UInt8 :=
  if key.getLast? = some 0 then key.dropLast else key

/-- The bytes of the prefix, or none. -/
def prefixBytes (pfx : Option String) : List UInt8 := (pfx.map intoBytes).getD []

theorem dropNul_of_ne_nil {key : List UInt8} (h : key ≠ []) : dropNul key = .ok (withoutNul key) := by
  have hlt : key.length - 1 < key.length := by
    have := List.length_pos_of_ne_nil h
    omega
  have hlast : key.getLast? = some key[key.length - 1] := by
    rw [List.getLast?_eq_getElem?, List.getElem?_eq_getElem hlt]
  unfold dropNul withoutNul
  rw [index_of_lt hlt, ok_bind, hlast]
  by_cases h0 : key[key.length - 1] = 0
  · rw [if_pos h0, if_pos (by rw [h0]), range_of_le (Nat.zero_le _) (Nat.sub_le _ _)]
    simp [List.dropLast_eq_take]
  · rw [if_neg h0, if_neg (by simpa using h0)]
    rfl

theorem stripKeyPrefix_none (key : List UInt8) : stripKeyPrefix key none = .ok key := rfl

theorem panics_stripKeyPrefix_of_lt {key : List UInt8} {pfx : String}
    (h : key.length < (intoBytes pfx).length) : Panics (stripKeyPrefix key (some pfx)) := by
  simp only [stripKeyPrefix]
  rw [range_of_lt_end (Nat.zero_le _) h]
  exact ⟨_, rfl⟩

theorem stripKeyPrefix_of_le {key : List UInt8} {pfx : String}
    (h : (intoBytes pfx).length ≤ key.length) :
    stripKeyPrefix key (some pfx) =
      if intoBytes pfx = key.take (intoBytes pfx).length then .ok (key.drop (intoBytes pfx).length)
      else .error (.error (.prefixMismatch key (intoBytes pfx))) := by
  simp only [stripKeyPrefix]
  rw [range_of_le (Nat.zero_le _) h, ok_bind]
  simp only [List.drop_zero, Nat.sub_zero]
  split_ifs
  · exact rangeFrom_of_le h
  · rfl

/-- The loop over the pieces decodes each and never panics. -/
theorem not_panics_joinPieces (path : Path) (key : List UInt8) : ¬ Panics (joinPieces path key) := by
  unfold joinPieces
  generalize key.splitOn 47 = pieces
  induction pieces generalizing path with
  | nil => simp
  | cons c pieces ih =>
    rw [List.foldlM_cons]
    cases hc : fromUtf8 c with
    | none => simp [orErr]
    | some component =>
      simp only [orErr, ok_bind, pure, Except.pure]
      exact ih _

theorem panics_stripKeyPrefix_iff (key : List UInt8) (pfx : Option String) :
    Panics (stripKeyPrefix key pfx) ↔ key.length < (prefixBytes pfx).length := by
  cases pfx with
  | none => simp [stripKeyPrefix_none, prefixBytes]
  | some p =>
    by_cases h : key.length < (intoBytes p).length
    · simpa [prefixBytes, h] using panics_stripKeyPrefix_of_lt h
    · rw [stripKeyPrefix_of_le (Nat.le_of_not_lt h)]
      split_ifs <;> simp [prefixBytes, h]

/-- The prefix check passes exactly on a key that starts with the prefix, and returns the
rest. -/
theorem stripKeyPrefix_eq_ok {key rest : List UInt8} {pfx : Option String} :
    stripKeyPrefix key pfx = .ok rest ↔ prefixBytes pfx ++ rest = key := by
  cases pfx with
  | none => simp [stripKeyPrefix_none, prefixBytes, eq_comm]
  | some p =>
    by_cases h : key.length < (intoBytes p).length
    · constructor
      · intro hk
        obtain ⟨m, hm⟩ := panics_stripKeyPrefix_of_lt h
        rw [hm] at hk
        cases hk
      · intro hk
        rw [← hk, List.length_append] at h
        simp [prefixBytes] at h
    · rw [stripKeyPrefix_of_le (Nat.le_of_not_lt h)]
      simp only [prefixBytes, Option.map_some, Option.getD_some]
      split_ifs with ht
      · constructor
        · rintro ⟨⟩
          conv_rhs => rw [← List.take_append_drop (intoBytes p).length key]
          rw [← ht]
        · rintro rfl
          simp
      · constructor
        · rintro ⟨⟩
        · rintro rfl
          simp at ht

/-- Past the prefix, `key_to_path` panics only at `key[0]`, when nothing is left. -/
theorem panics_keyToPath_rest_iff (rest : List UInt8) (root : Option Path) :
    Panics (do
      let path : Path := if (← (index rest 0 : Except (Fault FsError) UInt8)) = 47 then [.rootDir] else []
      let path ← joinPieces path rest
      return match root with
        | some root => root.join path
        | none => path) ↔ rest = [] := by
  cases rest with
  | nil => simp [index]
  | cons b bs =>
    rw [index_of_lt (by simp), ok_bind, panics_bind_iff]
    simp [not_panics_joinPieces]

/-- `key_to_path` panics exactly when the key, its NUL dropped, is shorter than the prefix
or is the prefix: `key[..prefix.len()]` or `key[0]` is then out of bounds. -/
theorem keyToPath_panics_iff (key : List UInt8) (pfx : Option String) (root : Option Path) :
    Panics (keyToPath key pfx root) ↔
      key ≠ [] ∧ ((withoutNul key).length < (prefixBytes pfx).length ∨
        withoutNul key = prefixBytes pfx) := by
  by_cases hkey : key = []
  · subst hkey
    simp [keyToPath]
  · have hne : key.isEmpty = false := List.isEmpty_eq_false_iff.mpr hkey
    simp only [keyToPath, hne, Bool.false_eq_true, if_false, dropNul_of_ne_nil hkey, ok_bind,
      ne_eq, hkey, not_false_eq_true, true_and]
    rw [panics_bind_iff, panics_stripKeyPrefix_iff]
    apply or_congr_right
    constructor
    · rintro ⟨rest, hrest, hp⟩
      have hnil : rest = [] := (panics_keyToPath_rest_iff rest root).mp hp
      subst hnil
      simpa using (stripKeyPrefix_eq_ok.mp hrest).symm
    · intro hk
      refine ⟨[], stripKeyPrefix_eq_ok.mpr (by rw [List.append_nil, hk]), ?_⟩
      exact (panics_keyToPath_rest_iff [] root).mpr rfl

/-- Under a root `r` and the prefix `a`: a key that is one NUL byte, or the prefix
alone, panics; so does reading back the key that `path_to_key` writes for `r` itself; and
a key that holds `..` or starts with `/` gives a path that leaves `r`. -/
theorem key_to_path_escapes_or_panics (r : Path) :
    Panics (keyToPath [0] (some "a") (some r)) ∧
      Panics (keyToPath (intoBytes "a") (some "a") (some r)) ∧
      (pathToKey r (some "a") (some r) = .ok (intoBytes "a" ++ [0]) ∧
        Panics (keyToPath (intoBytes "a" ++ [0]) (some "a") (some r))) ∧
      keyToPath (intoBytes "a../x") (some "a") (some r) =
        .ok (r ++ [.parentDir, .normal (intoBytes "x")]) ∧
      keyToPath (intoBytes "a/etc") (some "a") (some r) = .ok [.rootDir, .normal (intoBytes "etc")] := by
  have hroot : r.stripPrefix r = some [] := by simpa using Path.stripPrefix_append r []
  refine ⟨⟨_, rfl⟩, ⟨_, rfl⟩, ⟨?_, ⟨_, rfl⟩⟩, rfl, rfl⟩
  rw [pathToKey, hroot]
  rfl

/-! ### Reading back the key of a path

Below a root, a path whose names are proper (`ProperName`: what `PathBuf::push` keeps as
one `Normal` component and `canonicalized_path_to_string` accepts) is written with its
names joined by `/`. Since the UTF-8 bytes of a name without `/` hold no byte 47, the
pieces of the key are the names again, and `key_to_path` gives the path back
(`keyToPath_pathToKey`). The key of the root itself, with no name, is the one that
panics. -/

theorem intoBytes_append (s t : String) : intoBytes (s ++ t) = intoBytes s ++ intoBytes t :=
  Utf8.toList_data_toUTF8_append s t

theorem fromUtf8_intoBytes (s : String) : fromUtf8 (intoBytes s) = some s := by
  rw [fromUtf8, intoBytes, Array.toArray_toList]
  exact Utf8.fromUTF8?_toUTF8 s

theorem intoBytes_ne_nil {s : String} (h : s ≠ "") : intoBytes s ≠ [] := by
  rw [intoBytes, Utf8.toList_data_toUTF8, ne_eq, List.flatMap_eq_nil_iff, not_forall]
  obtain ⟨c, hc⟩ := List.exists_mem_of_ne_nil _ (mt String.toList_eq_nil_iff.mp h)
  exact ⟨c, fun hnil => String.utf8EncodeChar_ne_nil (hnil hc)⟩

/-- A name without `/` has no byte `/` in its UTF-8 bytes. -/
theorem slash_not_mem_intoBytes {s : String} (h : '/' ∉ s.toList) : (47 : UInt8) ∉ intoBytes s := by
  intro hm
  obtain ⟨c, hc, hv⟩ := Utf8.exists_char_of_mem hm (by decide)
  have hslash : c = '/' := Char.ext (UInt32.toNat_inj.mp hv)
  exact h (hslash ▸ hc)

theorem intoBytes_intercalate (names : List String) :
    intoBytes ("/".intercalate names) = [47].intercalate (names.map intoBytes) := by
  induction names with
  | nil => rfl
  | cons n rest ih =>
    cases rest with
    | nil => simp
    | cons m rest =>
      rw [String.intercalate_cons_cons, intoBytes_append, intoBytes_append, ih]
      simp only [List.map_cons]
      rw [List.intercalate_cons_cons]
      rfl

/-- A name that `PathBuf::push` keeps as one `Normal` component and that
`canonicalized_path_to_string` accepts. -/
structure ProperName (name : String) : Prop where
  ne_empty : name ≠ ""
  ne_dot : name ≠ "."
  ne_dotDot : name ≠ ".."
  no_slash : '/' ∉ name.toList
  no_backslash : '\\' ∉ name.toList

/-- The components of a list of names. -/
def namesPath (names : List String) : Path := names.map fun n => .normal (intoBytes n)

theorem canonicalPart_normal {name : String} (h : ProperName name) (mustBeRelative : Bool) :
    canonicalPart mustBeRelative (.normal (intoBytes name)) = .ok (some name) := by
  simp [canonicalPart, fromUtf8_intoBytes, h.no_slash, h.no_backslash]

theorem push_of_properName {name : String} (h : ProperName name) (p : Path) :
    p.push name = p ++ [.normal (intoBytes name)] := by
  simp [Path.push, h.ne_empty, h.ne_dot, h.ne_dotDot]

/-- The loop of `canonicalized_path_to_string` collects the names. -/
theorem foldlM_canonicalPart {names : List String} (hn : ∀ n ∈ names, ProperName n)
    (mustBeRelative : Bool) (acc : String × List String) :
    (namesPath names).foldlM (fun (acc : String × List String) c => do
        match ← canonicalPart mustBeRelative c with
        | some part => pure (acc.1, acc.2 ++ [part])
        | none => pure (acc.1.push '/', acc.2)) acc =
      (.ok (acc.1, acc.2 ++ names) : Except FsError (String × List String)) := by
  induction names generalizing acc with
  | nil => simp only [namesPath, List.map_nil, List.foldlM_nil, List.append_nil]; rfl
  | cons n names ih =>
    have hrest := ih (fun m hm => hn m (List.mem_cons_of_mem _ hm)) (acc.1, acc.2 ++ [n])
    rw [namesPath, List.map_cons, List.foldlM_cons]
    simp only [canonicalPart_normal (hn n List.mem_cons_self)]
    simpa [namesPath, bind, Except.bind, pure, Except.pure] using hrest

theorem pathToKey_namesPath (r : Path) (pfx : Option String) {names : List String}
    (hn : ∀ n ∈ names, ProperName n) :
    pathToKey (r ++ namesPath names) pfx (some r) =
      .ok (prefixBytes pfx ++ intoBytes ("/".intercalate names) ++ [0]) := by
  have hcanon : canonicalizedPathToString (namesPath names) false = .ok ("/".intercalate names) := by
    simp only [canonicalizedPathToString, foldlM_canonicalPart hn]
    simp [bind, Except.bind, pure, Except.pure]
  simp only [pathToKey, Path.stripPrefix_append, bind, Except.bind, pure, Except.pure, hcanon]
  cases pfx <;> simp [prefixBytes]

/-- The loop of `key_to_path` pushes each name of the key. -/
theorem joinPieces_names {names : List String} (hn : ∀ n ∈ names, ProperName n) (hne : names ≠ [])
    (p : Path) : joinPieces p (intoBytes ("/".intercalate names)) = .ok (p ++ namesPath names) := by
  have hsplit : (intoBytes ("/".intercalate names)).splitOn 47 = names.map intoBytes := by
    rw [intoBytes_intercalate]
    refine List.splitOn_intercalate 47 (fun l hl => ?_) (by simpa using hne)
    obtain ⟨n, hmem, rfl⟩ := List.mem_map.mp hl
    exact slash_not_mem_intoBytes (hn n hmem).no_slash
  rw [joinPieces, hsplit]
  clear hsplit hne
  induction names generalizing p with
  | nil => simp only [namesPath, List.map_nil, List.foldlM_nil, List.append_nil]; rfl
  | cons n names ih =>
    have hrest := ih (fun m hm => hn m (List.mem_cons_of_mem _ hm)) (p ++ [.normal (intoBytes n)])
    rw [List.map_cons, List.foldlM_cons, fromUtf8_intoBytes]
    simp only [orErr, ok_bind, push_of_properName (hn n List.mem_cons_self)]
    simpa [namesPath, orErr] using hrest

/-- **Round trip.** Below a root, a path of at least one proper name is read back from
its key, whatever the prefix. -/
theorem keyToPath_pathToKey (r : Path) (pfx : Option String) {names : List String}
    (hn : ∀ n ∈ names, ProperName n) (hne : names ≠ []) :
    ∃ key, pathToKey (r ++ namesPath names) pfx (some r) = .ok key ∧
      keyToPath key pfx (some r) = .ok (r ++ namesPath names) := by
  refine ⟨_, pathToKey_namesPath r pfx hn, ?_⟩
  obtain ⟨n, rest, rfl⟩ := List.exists_cons_of_ne_nil hne
  have hname := hn n List.mem_cons_self
  set body := intoBytes ("/".intercalate (n :: rest)) with hbody
  have hfirst : ∃ b bs, body = b :: bs ∧ b ≠ 47 := by
    obtain ⟨b, bs, hb⟩ := List.exists_cons_of_ne_nil (intoBytes_ne_nil hname.ne_empty)
    refine ⟨b, bs ++ (([47] : List UInt8).intercalate ((n :: rest).map intoBytes)).drop
      (intoBytes n).length, ?_, ?_⟩
    · cases rest with
      | nil => simp [hbody, hb]
      | cons m rest =>
        rw [hbody, intoBytes_intercalate, List.map_cons, List.map_cons, List.intercalate_cons_cons, hb]
        simp
    · intro h47
      exact slash_not_mem_intoBytes hname.no_slash (hb ▸ h47 ▸ List.mem_cons_self)
  obtain ⟨b, bs, hbs, hb47⟩ := hfirst
  have hkey : prefixBytes pfx ++ body ++ [0] ≠ [] := by simp
  have hnul : withoutNul (prefixBytes pfx ++ body ++ [0]) = prefixBytes pfx ++ body := by
    simp [withoutNul]
  have hstrip : stripKeyPrefix (prefixBytes pfx ++ body) pfx = .ok body :=
    stripKeyPrefix_eq_ok.mpr rfl
  have hnotempty : (prefixBytes pfx ++ body ++ [0]).isEmpty = false := List.isEmpty_eq_false_iff.mpr hkey
  simp only [keyToPath, hnotempty, Bool.false_eq_true, if_false, dropNul_of_ne_nil hkey, ok_bind,
    hnul, hstrip]
  have hidx : (index body 0 : Except (Fault FsError) UInt8) = .ok b := by
    rw [hbs]
    rfl
  rw [hidx, ok_bind, if_neg hb47]
  rw [joinPieces_names hn hne [], ok_bind, List.nil_append]
  simp [Path.join, namesPath]
  rfl

/-- The path `/a/b` below the root `/`, under the prefix `p`. -/
theorem keyToPath_pathToKey_two_names :
    (∀ n ∈ ["a", "b"], ProperName n) ∧
      ∃ key, pathToKey ([.rootDir] ++ namesPath ["a", "b"]) (some "p") (some [.rootDir]) = .ok key ∧
        keyToPath key (some "p") (some [.rootDir]) = .ok ([.rootDir] ++ namesPath ["a", "b"]) := by
  have ha : ProperName "a" :=
    ⟨by decide, by decide, by decide, by rw [show "a".toList = ['a'] from rfl]; decide,
      by rw [show "a".toList = ['a'] from rfl]; decide⟩
  have hb : ProperName "b" :=
    ⟨by decide, by decide, by decide, by rw [show "b".toList = ['b'] from rfl]; decide,
      by rw [show "b".toList = ['b'] from rfl]; decide⟩
  have hn : ∀ n ∈ ["a", "b"], ProperName n := by
    intro n hn
    simp only [List.mem_cons, List.not_mem_nil, or_false] at hn
    rcases hn with rfl | rfl
    · exact ha
    · exact hb
  exact ⟨hn, keyToPath_pathToKey [.rootDir] (some "p") hn (by simp)⟩

end Iroh.Util
