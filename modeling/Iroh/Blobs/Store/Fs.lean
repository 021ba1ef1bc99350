import Iroh.Blobs.Store.Mem

/-! The file system store's actor (`store/fs.rs`) over its tables and files.

The actor owns a database of tables: `blobs` maps a hash to its `EntryState`,
`inline_data` and `inline_outboard` hold the bytes of what is inlined, and `tags`
the tags. Beside them are the files of the data directory: the data, outboard and
sizes file of a hash. A write transaction collects the files to delete after it
commits (`delete_after_commit`), so a message is a step on the tables with that
set, and the commit then deletes the files in it. Each message is modelled as its
own transaction; the actor may batch several into one, which only merges their
sets.

The entries say where each part is: inline in a table, in an owned file, in
external files, or, for the outboard, not needed. `Consistent` is the agreement of
the tables and the files with those locations that `consistency_check` reports on.

A handle (`BaoFileHandle`) keeps a blob it is downloading in memory until it
grows past a bound, then writes its three files and tells the actor
(`on_mem_size_exceeded`); when it is complete the actor stores it
(`on_complete`). The handles themselves are not modelled: a handle's storage is
given to the steps that read it. -/

namespace Iroh.Blobs.Fs

/-- `DataLocation<(), u64>`: the data of a complete entry. -/
inductive DataLocation where
  | inline
  | owned (size : Nat)
  | external (paths : List String) (size : Nat)
deriving DecidableEq

/-- `OutboardLocation<()>`. -/
inductive OutboardLocation where
  | inline
  | owned
  | notNeeded
deriving DecidableEq

/-- `EntryState<()>`; a partial entry (`EntryState::Partial`) keeps all three of
its files. -/
inductive EntryState where
  | complete (dataLocation : DataLocation) (outboardLocation : OutboardLocation)
  | partialEntry (size : Option Nat)
deriving DecidableEq

/-- `BaoFilePart`: the files of a hash. -/
inductive BaoFilePart where
  | outboard
  | data
  | sizes
deriving DecidableEq

/-- `InlineOptions`. -/
structure InlineOptions where
  maxDataInlined : Nat
  maxOutboardInlined : Nat
deriving DecidableEq

/-- `InlineOptions::default`. -/
def InlineOptions.default : InlineOptions := ⟨1024 * 16, 1024 * 16⟩

/-- `DataLocation::union`: owned wins, since it has a file, then inline, since it
has a row; two external locations merge their paths. -/
def DataLocation.union : DataLocation → DataLocation → Except String DataLocation
  | .external paths aSize, .external bPaths bSize =>
    if aSize ≠ bSize then .error ("complete size mismatch " ++ toString aSize ++ " " ++ toString bSize)
    else .ok (.external ((paths ++ bPaths).mergeSort fun a b => decide (a ≤ b)).eraseDups aSize)
  | _, .owned size => .ok (.owned size)
  | .owned size, _ => .ok (.owned size)
  | _, .inline => .ok .inline
  | .inline, _ => .ok .inline

/-- `EntryState::union`: complete wins over partial, and of two complete entries
the data locations merge while the first one's outboard stays. -/
def EntryState.union : EntryState → EntryState → Except String EntryState
  | .complete dataLocation outboardLocation, .complete bDataLocation _ => do
    return .complete (← dataLocation.union bDataLocation) outboardLocation
  | .complete dataLocation outboardLocation, .partialEntry _ => .ok (.complete dataLocation outboardLocation)
  | .partialEntry _, .complete dataLocation outboardLocation => .ok (.complete dataLocation outboardLocation)
  | .partialEntry aSize, .partialEntry bSize =>
    match aSize, bSize with
    | some aSize, some bSize =>
      if aSize ≠ bSize then .error ("validated size mismatch " ++ toString aSize ++ " " ++ toString bSize)
      else .ok (.partialEntry (some aSize))
    | some aSize, none => .ok (.partialEntry (some aSize))
    | none, some bSize => .ok (.partialEntry (some bSize))
    | none, none => .ok (.partialEntry none)

/-- `EntryState::default`. -/
def EntryState.default : EntryState := .partialEntry none

/-- The actor's state with the database and the data directory. -/
structure State where
  blobs : AList fun _ : Hash => EntryState
  tags : AList fun _ : Tag => HashAndFormat
  inlineData : AList fun _ : Hash => List UInt8
  inlineOutboard : AList fun _ : Hash => List UInt8
  /-- the transaction's `delete_after_commit` -/
  deleteAfterCommit : List (Hash × BaoFilePart)
  /-- the files of the data directory, with their bytes -/
  files : AList fun _ : Hash × BaoFilePart => List UInt8
  temp : TempCounterMap
  /-- `protected`: what was imported or opened since the last `gc_start` -/
  protectedHashes : List Hash
  options : InlineOptions

/-- How a handle holds a blob when it completes (`BaoFileStorage`). -/
inductive BaoStorage where
  | complete
  /-- `IncompleteMem`: the data and outboard bytes it has -/
  | incompleteMem (data outboard : List UInt8)
  /-- `IncompleteFile`: its data, outboard and sizes are the hash's files -/
  | incompleteFile

/-- Where an import finds its data (`ImportSource`). -/
inductive ImportSource where
  | external (path : String)
  | tempFile
  | memory

/-- `Import`, with the bytes of its content wherever the source holds them. -/
structure Import where
  contentId : HashAndFormat
  source : ImportSource
  data : List UInt8
  outboard : Option (List UInt8)

namespace State

/-- An empty store with the given inline options. -/
def empty (options : InlineOptions) : State := ⟨∅, ∅, ∅, ∅, [], ∅, ∅, [], options⟩

/-- `DeleteSet::insert`: the parts of the hash are to be deleted at the commit. -/
def scheduleDelete (s : State) (hash : Hash) (parts : List BaoFilePart) : State :=
  { s with deleteAfterCommit := parts.foldl (fun d part => d.insert (hash, part)) s.deleteAfterCommit }

/-- `DeleteSet::remove`: the parts of the hash are kept. -/
def keepParts (s : State) (hash : Hash) (parts : List BaoFilePart) : State :=
  { s with deleteAfterCommit := s.deleteAfterCommit.filter fun x => !(x.1 = hash ∧ x.2 ∈ parts) }

/-- Write a file of the data directory. -/
def writeFile (s : State) (hash : Hash) (part : BaoFilePart) (bytes : List UInt8) : State :=
  { s with files := s.files.insert (hash, part) bytes }

/-- The commit: the transaction's set is applied to the data directory and
cleared (`apply_and_clear`). -/
def commit (s : State) : State :=
  { s with
    files := s.deleteAfterCommit.foldl (fun files x => files.erase x) s.files
    deleteAfterCommit := [] }

/-- The entry of a hash, or the default one (`unwrap_or_default`). -/
def entryOrDefault (s : State) (hash : Hash) : EntryState := (s.blobs.lookup hash).getD .default

/-- Union the entry of the hash with `entry` and store it; on an inconsistency the
error is returned and what the message wrote so far stays in the transaction. -/
def unionEntry (s : State) (hash : Hash) (entry : EntryState) : State × Except String Unit :=
  match (s.entryOrDefault hash).union entry with
  | .ok entry => ({ s with blobs := s.blobs.insert hash entry }, .ok ())
  | .error e => (s, .error e)

/-! ### Imports -/

/-- Where `import` puts the data: inline if it is small enough. -/
def importDataLocation (s : State) (cmd : Import) : DataLocation :=
  let inlineData := decide (cmd.data.length ≤ s.options.maxDataInlined)
  match cmd.source with
  | .external path => if inlineData then .inline else .external [path] cmd.data.length
  | .tempFile => if inlineData then .inline else .owned cmd.data.length
  | .memory => if inlineData then .inline else .owned cmd.data.length

/-- Where `import` puts the outboard: inline if it is small enough and not empty. -/
def importOutboardLocation (s : State) (cmd : Import) : OutboardLocation :=
  match cmd.outboard with
  | some outboard =>
    if outboard.length ≤ s.options.maxOutboardInlined ∧ outboard.length ≠ 0 then .inline else .owned
  | none => .notNeeded

/-- What a data location keeps for its bytes: a row of `inline_data`, or the owned
file, taken out of the set to delete. -/
def storeData (s : State) (hash : Hash) (data : List UInt8) : DataLocation → State
  | .inline => { s with inlineData := s.inlineData.insert hash data }
  | .owned _ => (s.writeFile hash .data data).keepParts hash [.data]
  | .external _ _ => s

/-- What an outboard location keeps for its bytes. -/
def storeOutboard (s : State) (hash : Hash) (outboard : List UInt8) : OutboardLocation → State
  | .inline => { s with inlineOutboard := s.inlineOutboard.insert hash outboard }
  | .owned => (s.writeFile hash .outboard outboard).keepParts hash [.outboard]
  | .notNeeded => s

/-- `Actor::import`: the content is pinned by a temp tag and protected, its parts
are put where the inline options say, and the entry becomes the union of what was
there and the complete entry. -/
def importEntry (s : State) (cmd : Import) : State × Except String TempTag :=
  let hash := cmd.contentId.hash
  let dataLocation := s.importDataLocation cmd
  let outboardLocation := s.importOutboardLocation cmd
  let s := { s with
    temp := s.temp.inc cmd.contentId
    protectedHashes := s.protectedHashes.insert hash }
  let s := s.storeData hash cmd.data dataLocation
  let s := s.storeOutboard hash (cmd.outboard.getD []) outboardLocation
  match s.unionEntry hash (.complete dataLocation outboardLocation) with
  | (s, .ok ()) => (s, .ok ⟨cmd.contentId⟩)
  | (s, .error e) => (s, .error e)

/-- `Actor::get_or_create`: the hash is protected; the handle is not stored. -/
def getOrCreate (s : State) (hash : Hash) : State :=
  { s with protectedHashes := s.protectedHashes.insert hash }

/-! ### Handles -/

/-- `MutableMemStorage::persist`: a handle past its memory bound writes its data,
outboard and sizes to the hash's files. -/
def persist (s : State) (hash : Hash) (data outboard sizes : List UInt8) : State :=
  ((s.writeFile hash .data data).writeFile hash .outboard outboard).writeFile hash .sizes sizes

/-- `Actor::on_mem_size_exceeded`: the entry becomes at least partial and its three
files are kept. -/
def onMemSizeExceeded (s : State) (hash : Hash) : State × Except String Unit :=
  match s.unionEntry hash (.partialEntry none) with
  | (s, .ok ()) => (s.keepParts hash [.data, .outboard, .sizes], .ok ())
  | (s, .error e) => (s, .error e)

/-- The bytes of one part of a completing handle and where they are: in memory
(`MemOrFile::Mem`) or in the hash's file. -/
structure Part where
  bytes : List UInt8
  inMem : Bool

/-- The data part of `complete_storage`: inlined if it is small enough (a file is
read and deleted at the commit), else kept in or written to the owned file. -/
def completeData (s : State) (hash : Hash) (data : Part) : State × Part :=
  if data.bytes.length ≤ s.options.maxDataInlined then
    if data.inMem then (s, data) else (s.scheduleDelete hash [.data], ⟨data.bytes, true⟩)
  else
    let s := s.keepParts hash [.data]
    if data.inMem then (s.writeFile hash .data data.bytes, ⟨data.bytes, false⟩) else (s, data)

/-- The outboard part of `complete_storage`: an empty outboard is the default
part, in memory; otherwise as for the data. -/
def completeOutboard (s : State) (hash : Hash) (outboard : Part) : State × Part :=
  if outboard.bytes.length = 0 then (s, ⟨[], true⟩)
  else if outboard.bytes.length ≤ s.options.maxOutboardInlined then
    if outboard.inMem then (s, outboard) else (s.scheduleDelete hash [.outboard], ⟨outboard.bytes, true⟩)
  else
    let s := s.keepParts hash [.outboard]
    if outboard.inMem then (s.writeFile hash .outboard outboard.bytes, ⟨outboard.bytes, false⟩)
    else (s, outboard)

/-- `complete_storage`: nothing to do for a complete handle; otherwise the data and
the outboard are placed, and the sizes file is deleted at the commit. -/
def completeStorage (s : State) (hash : Hash) : BaoStorage → Option (State × Part × Part)
  | .complete => none
  | .incompleteMem data outboard =>
    let (s, data) := s.completeData hash ⟨data, true⟩
    let (s, outboard) := s.completeOutboard hash ⟨outboard, true⟩
    some (s.scheduleDelete hash [.sizes], data, outboard)
  | .incompleteFile =>
    let (s, data) := s.completeData hash ⟨(s.files.lookup (hash, .data)).getD [], false⟩
    let (s, outboard) := s.completeOutboard hash ⟨(s.files.lookup (hash, .outboard)).getD [], false⟩
    some (s.scheduleDelete hash [.sizes], data, outboard)

/-- `Actor::on_complete`: the handle's storage is completed, and the entry becomes
the union of what was there and the complete entry; the parts held in memory are
then written to the inline tables. -/
def onComplete (s : State) (hash : Hash) (storage : BaoStorage) : State × Except String Unit :=
  match s.completeStorage hash storage with
  | none => (s, .ok ())
  | some (s, data, outboard) =>
    let dataLocation : DataLocation := if data.inMem then .inline else .owned data.bytes.length
    let outboardLocation : OutboardLocation :=
      if outboard.bytes.length = 0 then .notNeeded else if outboard.inMem then .inline else .owned
    match s.unionEntry hash (.complete dataLocation outboardLocation) with
    | (s, .ok ()) =>
      let s := if data.inMem then { s with inlineData := s.inlineData.insert hash data.bytes } else s
      let s := if outboard.inMem then { s with inlineOutboard := s.inlineOutboard.insert hash outboard.bytes }
        else s
      (s, .ok ())
    | (s, .error e) => (s, .error e)

/-! ### Deletion -/

/-- What deleting an entry leaves to do: drop its inline rows and delete its owned
files at the commit. -/
def dropEntry (s : State) (hash : Hash) : EntryState → State
  | .complete dataLocation outboardLocation =>
    let s := match dataLocation with
      | .inline => { s with inlineData := s.inlineData.erase hash }
      | .owned _ => s.scheduleDelete hash [.data]
      | .external _ _ => s
    match outboardLocation with
    | .inline => { s with inlineOutboard := s.inlineOutboard.erase hash }
    | .owned => s.scheduleDelete hash [.outboard]
    | .notNeeded => s
  | .partialEntry _ => s.scheduleDelete hash [.outboard, .data, .sizes]

/-- `Actor::delete`: every hash that no temp tag pins, and unless `force` that is
not protected, loses its entry. -/
def delete (s : State) (hashes : List Hash) (force : Bool) : State :=
  hashes.foldl (fun s hash =>
    if s.temp.contains hash then s
    else if !force && hash ∈ s.protectedHashes then s
    else match s.blobs.lookup hash with
      | some entry => { s with blobs := s.blobs.erase hash }.dropEntry hash entry
      | none => s) s

/-- `GcStart`: nothing is protected any more. -/
def gcStart (s : State) : State := { s with protectedHashes := [] }

/-! ### Tags -/

/-- `Actor::set_tag`. -/
def setTag (s : State) (name : Tag) : Option HashAndFormat → State
  | some value => { s with tags := s.tags.insert name value }
  | none => { s with tags := s.tags.erase name }

/-- `Actor::create_tag`. -/
def createTag (s : State) (now : String) (value : HashAndFormat) : State × Tag :=
  let tag := Tag.auto now (fun x => (s.tags.lookup x).isSome) s.tags.entries.length
  ({ s with tags := s.tags.insert tag value }, tag)

/-- `TempTag` creation. -/
def tempTag (s : State) (value : HashAndFormat) : State × TempTag :=
  ({ s with temp := s.temp.inc value }, ⟨value⟩)

/-- `TagDrop::on_drop`. -/
def dropTempTag (s : State) (tag : TempTag) : State := { s with temp := s.temp.dec tag.inner }

/-! ### Inline options -/

section
variable (rawOutboardSize : Nat → Nat)

/-- The data part of a reapplied entry: its new location, its size, and whether it
moved. A missing inline row is an inconsistency. -/
def reapplyData (s : State) (hash : Hash) : DataLocation → Except String (State × DataLocation × Nat × Bool)
  | .owned size =>
    if size ≤ s.options.maxDataInlined then
      let data := (s.files.lookup (hash, .data)).getD []
      let s := s.scheduleDelete hash [.data]
      .ok ({ s with inlineData := s.inlineData.insert hash data }, .inline, size, true)
    else .ok (s, .owned size, size, false)
  | .inline =>
    match s.inlineData.lookup hash with
    | none => .error "inline data missing"
    | some data =>
      if data.length > s.options.maxDataInlined then
        let s := s.writeFile hash .data data
        .ok ({ s with inlineData := s.inlineData.erase hash }, .owned data.length, data.length, true)
      else .ok (s, .inline, data.length, false)
  | .external paths size => .ok (s, .external paths size, size, false)

/-- The outboard part of a reapplied entry, by the outboard size of the data. -/
def reapplyOutboard (s : State) (hash : Hash) (dataSize : Nat) :
    OutboardLocation → Except String (State × OutboardLocation × Bool)
  | .owned =>
    if rawOutboardSize dataSize ≤ s.options.maxOutboardInlined then
      let outboard := (s.files.lookup (hash, .outboard)).getD []
      let s := s.scheduleDelete hash [.outboard]
      .ok ({ s with inlineOutboard := s.inlineOutboard.insert hash outboard }, .inline, true)
    else .ok (s, .owned, false)
  | .inline =>
    if rawOutboardSize dataSize > s.options.maxOutboardInlined then
      match s.inlineOutboard.lookup hash with
      | none => .error "inline outboard missing"
      | some outboard =>
        let s := s.writeFile hash .outboard outboard
        .ok ({ s with inlineOutboard := s.inlineOutboard.erase hash }, .owned, true)
    else .ok (s, .inline, false)
  | .notNeeded => .ok (s, .notNeeded, false)

/-- One hash of the reapply loop: a complete entry is moved to where the options
say; a partial one stays. -/
def reapplyEntry (s : State) (hash : Hash) : Except String State :=
  match s.blobs.lookup hash with
  | none => .error "hash not found"
  | some (.partialEntry _) => .ok s
  | some (.complete dataLocation outboardLocation) => do
    let (s, dataLocation, dataSize, dataChanged) ← s.reapplyData hash dataLocation
    let (s, outboardLocation, outboardChanged) ← s.reapplyOutboard rawOutboardSize hash dataSize outboardLocation
    if dataChanged || outboardChanged then
      return { s with blobs := s.blobs.insert hash (.complete dataLocation outboardLocation) }
    else return s

/-- `Actor::update_inline_options`: with `reapply`, every entry is moved in a
transaction of its own, committed at the end; on an error nothing of it is
committed, but the options are set and the files written stay. -/
def updateInlineOptions (s : State) (options : InlineOptions) (reapply : Bool) : State × Except String Unit :=
  let s := { s with options := options }
  if reapply then
    -- `Err` leaves the files written so far, which the loop returns beside it
    let step : State × Except String Unit → Hash → State × Except String Unit := fun acc hash =>
      match acc with
      | (t, .ok ()) =>
        match t.reapplyEntry rawOutboardSize hash with
        | .ok t => (t, .ok ())
        | .error e => (t, .error e)
      | acc => acc
    match s.blobs.keys.foldl step (s, .ok ()) with
    | (t, .ok ()) => (t.commit, .ok ())
    | (t, .error e) => ({ s with files := t.files }, .error e)
  else (s, .ok ())

end

/-! ### What the store lists -/

/-- `blobs`: the hashes of the complete entries. -/
def completeBlobs (s : State) : List Hash :=
  (s.blobs.entries.filter fun entry => entry.2 matches .complete _ _).map (·.1)

/-- `partial_blobs`: the hashes of the partial entries. -/
def partialBlobs (s : State) : List Hash :=
  (s.blobs.entries.filter fun entry => entry.2 matches .partialEntry _).map (·.1)

/-- `tags`: what the tags pin. -/
def tagValues (s : State) : List HashAndFormat := s.tags.entries.map (·.2)

end State

theorem State.dropEntry_blobs (s : State) (hash : Hash) (entry : EntryState) :
    (s.dropEntry hash entry).blobs = s.blobs := by
  cases entry with
  | complete dataLocation outboardLocation => cases dataLocation <;> cases outboardLocation <;> rfl
  | partialEntry size => rfl

theorem State.dropEntry_temp (s : State) (hash : Hash) (entry : EntryState) :
    (s.dropEntry hash entry).temp = s.temp := by
  cases entry with
  | complete dataLocation outboardLocation => cases dataLocation <;> cases outboardLocation <;> rfl
  | partialEntry size => rfl

theorem State.dropEntry_protectedHashes (s : State) (hash : Hash) (entry : EntryState) :
    (s.dropEntry hash entry).protectedHashes = s.protectedHashes := by
  cases entry with
  | complete dataLocation outboardLocation => cases dataLocation <;> cases outboardLocation <;> rfl
  | partialEntry size => rfl

/-- What `delete` keeps: the entries of the hashes it was not given, pinned or
protected (unless forced). -/
theorem State.lookup_delete {s : State} {hashes : List Hash} {force : Bool} {hash : Hash}
    (h : hash ∉ hashes ∨ s.temp.contains hash = true ∨ (force = false ∧ hash ∈ s.protectedHashes)) :
    ((s.delete hashes force).commit).blobs.lookup hash = s.blobs.lookup hash := by
  show (s.delete hashes force).blobs.lookup hash = s.blobs.lookup hash
  induction hashes generalizing s with
  | nil => rfl
  | cons x hashes ih =>
    simp only [delete, List.foldl_cons] at ih ⊢
    split
    · exact ih (by simpa using h.imp (fun h' => by simp_all) id)
    · split
      · exact ih (by simpa using h.imp (fun h' => by simp_all) id)
      · rename_i htemp hprot
        split
        · rename_i entry hentry
          have hne : hash ≠ x := by
            rintro rfl
            simp_all
          rw [ih (by simpa [dropEntry_temp, dropEntry_protectedHashes, hne] using h),
            dropEntry_blobs]
          exact AList.lookup_erase_ne hne
        · exact ih (by simpa using h.imp (fun h' => by simp_all) id)

/-! ### Consistency -/

/-- Whether a file of the data directory exists. -/
def State.hasFile (s : State) (hash : Hash) (part : BaoFilePart) : Prop :=
  (s.files.lookup (hash, part)).isSome

/-- The agreement `consistency_check` looks for, between a committed state's
entries, its inline tables and its files, for every hash: an inline location has
its row and a row has its inline location; an owned location has its file and no
row; and a file exists only for an entry that refers to it. -/
structure Consistent (s : State) : Prop where
  inlineData : ∀ hash, (∃ o, s.blobs.lookup hash = some (.complete .inline o)) ↔
    (s.inlineData.lookup hash).isSome
  inlineOutboard : ∀ hash, (∃ d, s.blobs.lookup hash = some (.complete d .inline)) ↔
    (s.inlineOutboard.lookup hash).isSome
  ownedData : ∀ hash size o, s.blobs.lookup hash = some (.complete (.owned size) o) →
    s.hasFile hash .data ∧ (s.inlineData.lookup hash).isNone
  ownedOutboard : ∀ hash d, s.blobs.lookup hash = some (.complete d .owned) →
    s.hasFile hash .outboard ∧ (s.inlineOutboard.lookup hash).isNone
  dataFile : ∀ hash, s.hasFile hash .data →
    (∃ size o, s.blobs.lookup hash = some (.complete (.owned size) o)) ∨
      ∃ size, s.blobs.lookup hash = some (.partialEntry size)
  outboardFile : ∀ hash, s.hasFile hash .outboard →
    (∃ d, s.blobs.lookup hash = some (.complete d .owned)) ∨
      ∃ size, s.blobs.lookup hash = some (.partialEntry size)
  sizesFile : ∀ hash, s.hasFile hash .sizes → ∃ size, s.blobs.lookup hash = some (.partialEntry size)

/-- An outboard row whose entry's outboard is elsewhere breaks consistency. -/
theorem not_consistent_of_outboard_row {s : State} {hash : Hash} {d : DataLocation}
    {o : OutboardLocation} (hentry : s.blobs.lookup hash = some (.complete d o)) (ho : o ≠ .inline)
    (hrow : (s.inlineOutboard.lookup hash).isSome) : ¬ Consistent s := by
  intro hc
  obtain ⟨d', hd'⟩ := (hc.inlineOutboard hash).mpr hrow
  rw [hentry, Option.some.injEq, EntryState.complete.injEq] at hd'
  exact ho hd'.2

/-- A downloaded blob too small to need an outboard, completed from memory, leaves
an empty row in `inline_outboard` beside an entry whose outboard is not needed:
`complete_storage` gives the empty outboard as a part in memory, and
`on_complete` writes each part in memory to its inline table. -/
theorem small_download_leaves_outboard_row :
    let hash : Hash := ⟨List.replicate 32 7, rfl⟩
    let s := ((State.empty .default).onComplete hash (.incompleteMem [1] [])).1.commit
    s.blobs.lookup hash = some (.complete .inline .notNeeded) ∧
      s.inlineOutboard.lookup hash = some [] ∧ ¬ Consistent s := by
  intro hash s
  have hentry : s.blobs.lookup hash = some (.complete .inline .notNeeded) := rfl
  have hrow : s.inlineOutboard.lookup hash = some [] := rfl
  exact ⟨hentry, hrow, not_consistent_of_outboard_row hentry (by decide) (by rw [hrow]; rfl)⟩

end Iroh.Blobs.Fs
