import Iroh.Lib.Machine
import Iroh.Blobs.Store.Mem
import Iroh.Blobs.Store.Fs

/-! Garbage collection (`store/traits.rs`: `gc_run_loop`, `gc_mark_task`,
`gc_sweep_task`) over any store, and the cycle of the in-memory store (`mem.rs`).

A cycle runs beside the clients of the store. It calls the store's start
callback, sleeps, reads the protected hashes, the tags and the temp tags, marks
the roots in the order of the set that holds them, takes a snapshot of the
store's blobs and deletes the ones it did not mark, in batches of 100. Every
`await` between these is a point at which a client may run an operation, so the
system is the collector's phase with the store's state, and an action is either
a step of the collector, enabled by its phase, or an operation of a client.

What the collector guarantees is what it marked: no batch it deletes holds a
hash it found live (`batches_not_live`), and the in-memory store's `delete` also
spares every hash a temp tag pins when the batch runs. Nothing else is looked at
again between the snapshot and a batch, so a blob that a client tags in between
is deleted under its tag.

Errors of the store's reads, which restart the cycle, are not modelled: the
stores modelled here do not fail. -/

namespace Iroh.Blobs

/-- The derived order of `HashAndFormat`: by the hash's bytes, then `Raw` before
`HashSeq`. -/
def HashAndFormat.lt (a b : HashAndFormat) : Bool :=
  decide (a.hash.bytes < b.hash.bytes) ||
    (a.hash == b.hash && a.format == .raw && b.format == .hashSeq)

namespace Gc

section Sets
variable {α : Type} [DecidableEq α]

/-- `BTreeSet::insert`, on the ascending list of the set's elements. -/
def insertSorted (lt : α → α → Bool) (x : α) : List α → List α
  | [] => [x]
  | y :: ys => if x = y then y :: ys else if lt x y then x :: y :: ys else y :: insertSorted lt x ys

end Sets

/-- What the collector reads of a store and asks of it: the `Store` trait's
`tags`, `temp_tags`, `get` (with the entry's completeness and its data as
`read_to_end` gives it), `blobs`, `partial_blobs` and `delete`, and the start
callback the store's `gc_run` passes. -/
structure Store (σ : Type) where
  tags : σ → List HashAndFormat
  tempTags : σ → List HashAndFormat
  get : σ → Hash → Option (Bool × List UInt8)
  blobs : σ → List Hash
  partialBlobs : σ → List Hash
  start : σ → σ
  delete : σ → List Hash → σ

/-- Where the collector is in its cycle. -/
inductive Phase where
  /-- before `start_cb` -/
  | idle
  /-- in the sleep after `start_cb` -/
  | started
  /-- the protected hashes are live and the tags are in the roots; the temp tags
  are not read yet -/
  | tagsRead (live : List Hash) (roots : List HashAndFormat)
  /-- marking the roots that are left, in order -/
  | marking (live : List Hash) (roots : List HashAndFormat)
  /-- deleting the batches that are left -/
  | sweeping (live : List Hash) (batches : List (List Hash))

/-- A step of the collector. -/
inductive Step where
  | start
  /-- `protected_cb` returns the set -/
  | readTags (protectedHashes : List Hash)
  | readTempTags
  | markRoot
  | sweep
  | deleteBatch
  /-- `done_callback`, and the next cycle -/
  | finish

/-- What may happen next in the system. -/
inductive Action (Op : Type) where
  | gc (step : Step)
  | client (op : Op)

section
variable {σ : Type} (S : Store σ)

/-- The roots as the set `roots` holds them after inserting `values`. -/
def insertRoots (roots values : List HashAndFormat) : List HashAndFormat :=
  values.foldl (fun roots value => insertSorted HashAndFormat.lt value roots) roots

/-- The hashes a non-raw root makes live: those of its hash sequence when the
entry is there, complete, and parses (otherwise `gc_mark_task` warns and goes on). -/
def children (s : σ) (hash : Hash) : List Hash :=
  match S.get s hash with
  | some (true, data) =>
    match HashSeq.tryFrom data with
    | .ok hashes => hashes.iter
    | .error _ => []
  | _ => []

/-- One root of `gc_mark_task`: only a hash the set did not hold yet
(`live.insert(hash)` is true) has its children marked. -/
def markRoot (s : σ) (live : List Hash) (root : HashAndFormat) : List Hash :=
  if root.hash ∈ live then live
  else if root.format.isRaw then root.hash :: live
  else (children S s root.hash).foldl (fun live hash => live.insert hash) (root.hash :: live)

/-- The loop of `gc_sweep_task`: a hash that is not live joins the batch, a batch
that reaches 100 goes to the store, and what is left goes at the end. -/
def sweepBatches (live : List Hash) : List Hash → List Hash → List (List Hash)
  | batch, [] => if batch.isEmpty then [] else [batch]
  | batch, hash :: rest =>
    let batch := if hash ∈ live then batch else batch ++ [hash]
    if batch.length ≥ 100 then batch :: sweepBatches live [] rest
    else sweepBatches live batch rest

/-- A step of `gc_run_loop`, where the phase enables it. -/
def collect : Phase → Step → σ → Option (Phase × σ)
  | .idle, .start, s => some (.started, S.start s)
  | .started, .readTags protectedHashes, s => some (.tagsRead protectedHashes (insertRoots [] (S.tags s)), s)
  | .tagsRead live roots, .readTempTags, s => some (.marking live (insertRoots roots (S.tempTags s)), s)
  | .marking live (root :: roots), .markRoot, s => some (.marking (markRoot S s live root) roots, s)
  | .marking live [], .sweep, s =>
    some (.sweeping live (sweepBatches live [] (S.blobs s ++ S.partialBlobs s)), s)
  | .sweeping live (batch :: batches), .deleteBatch, s => some (.sweeping live batches, S.delete s batch)
  | .sweeping _ [], .finish, s => some (.idle, s)
  | _, _, _ => none

variable {Op : Type} (apply : σ → Op → σ)

/-- A step of the system: the collector's, or a client's operation. -/
def step : Phase × σ → Action Op → Option (Phase × σ)
  | (g, s), .gc st => collect S g st s
  | (g, s), .client op => some (g, apply s op)

/-- A run of the system, as long as each action is enabled. -/
def run (init : Phase × σ) (actions : List (Action Op)) : Option (Phase × σ) :=
  actions.foldlM (step S apply) init

/-- The batches left to delete hold only hashes the mark left dead. -/
def BatchesDead : Phase → Prop
  | .sweeping live batches => ∀ batch ∈ batches, ∀ hash ∈ batch, hash ∉ live
  | _ => True

/-- A hash in a batch of the sweep was in the batch being filled, or is a blob of
the snapshot that is not live. -/
theorem mem_sweepBatches {live batch : List Hash} {hashes : List Hash} {batch' : List Hash}
    (hb : batch' ∈ sweepBatches live batch hashes) {hash : Hash} (hh : hash ∈ batch') :
    hash ∈ batch ∨ (hash ∈ hashes ∧ hash ∉ live) := by
  induction hashes generalizing batch with
  | nil =>
    simp only [sweepBatches] at hb
    split at hb
    · cases hb
    · simp only [List.mem_singleton] at hb
      subst hb
      exact .inl hh
  | cons x rest ih =>
    simp only [sweepBatches] at hb
    have hgrow : ∀ {y : Hash}, y ∈ (if x ∈ live then batch else batch ++ [x]) →
        y ∈ batch ∨ (y ∈ x :: rest ∧ y ∉ live) := by
      intro y hy
      split at hy
      · exact .inl hy
      · rename_i hx
        rcases List.mem_append.mp hy with hy | hy
        · exact .inl hy
        · rw [List.mem_singleton.mp hy]
          exact .inr ⟨List.mem_cons_self, hx⟩
    generalize (if x ∈ live then batch else batch ++ [x]) = next at hb hgrow
    split at hb
    · rcases List.mem_cons.mp hb with rfl | hb
      · exact hgrow hh
      · rcases ih hb with h | ⟨h, hlive⟩
        · cases h
        · exact .inr ⟨List.mem_cons_of_mem _ h, hlive⟩
    · rcases ih hb with h | ⟨h, hlive⟩
      · exact hgrow h
      · exact .inr ⟨List.mem_cons_of_mem _ h, hlive⟩

theorem sweepBatches_dead (live hashes : List Hash) :
    ∀ batch ∈ sweepBatches live [] hashes, ∀ hash ∈ batch, hash ∉ live := by
  intro batch hb hash hh
  rcases mem_sweepBatches hb hh with h | ⟨-, h⟩
  · cases h
  · exact h

/-- The collector's steps keep its batches dead. -/
theorem collect_batchesDead {g g' : Phase} {st : Step} {s s' : σ} (hg : BatchesDead g)
    (h : collect S g st s = some (g', s')) : BatchesDead g' := by
  unfold collect at h
  split at h <;> cases h
  -- only the sweep and a deleted batch leave the collector sweeping
  case h_5 live =>
    exact sweepBatches_dead live _
  case h_6 live batch batches =>
    exact fun b hb => hg b (List.mem_cons_of_mem _ hb)
  all_goals trivial

theorem step_batchesDead {x x' : Phase × σ} {a : Action Op} (hx : BatchesDead x.1)
    (h : step S apply x a = some x') : BatchesDead x'.1 := by
  obtain ⟨g, s⟩ := x
  cases a with
  | gc st => exact collect_batchesDead S (by simpa using hx) h
  | client op =>
    cases h
    exact hx

/-- **The collector deletes only what it did not mark.** Along every interleaving
of the collector with client operations, from an idle collector, each batch left
to delete holds no hash it found live. -/
theorem batches_not_live {s₀ s : σ} {actions : List (Action Op)} {live : List Hash}
    {batches : List (List Hash)} (h : run S apply (.idle, s₀) actions = some (.sweeping live batches, s)) :
    ∀ batch ∈ batches, ∀ hash ∈ batch, hash ∉ live := by
  have h0 : BatchesDead (Phase.idle, s₀).1 := trivial
  exact Machine.foldlM_invariant (fun x : Phase × σ => BatchesDead x.1)
    (fun _ _ _ hx hstep => step_batchesDead S apply hx hstep) h0 h

end

end Gc

namespace Mem

/-- The collector's view of the in-memory store, whose `gc_run` passes a start
callback that does nothing. -/
def gcStore : Gc.Store State where
  tags := State.tagValues
  tempTags := State.tempTags
  get s hash := (s.get hash).map fun entry => (entry.complete, entry.data)
  blobs := State.blobs
  partialBlobs := State.partialBlobs
  start := id
  delete := State.delete

/-- The operations of the in-memory store's clients that change it
(`import_file` and `import_stream` read their data, then import it as bytes;
`get_or_create` keeps nothing). -/
inductive Op where
  | importBytes (bytes : List UInt8) (format : BlobFormat)
  | insertComplete (entry : Entry)
  | setTag (name : Tag) (value : Option HashAndFormat)
  | createTag (now : String) (value : HashAndFormat)
  | tempTag (value : HashAndFormat)
  | dropTempTag (tag : TempTag)

/-- A client's operation on the store; what it returns stays with the client. -/
def State.apply (blake3 : List UInt8 → Hash) (s : State) : Op → State
  | .importBytes bytes format => (s.importBytes blake3 bytes format).1
  | .insertComplete entry => s.insertComplete entry
  | .setTag name value => s.setTag name value
  | .createTag now value => (s.createTag now value).1
  | .tempTag value => (s.tempTag value).1
  | .dropTempTag tag => s.dropTempTag tag

/-- **What the in-memory cycle spares.** Along every interleaving, the batch the
collector deletes next leaves every hash it found live, and every hash a temp tag
pins when the batch runs, as it was. -/
theorem gc_spares_live_and_pinned (blake3 : List UInt8 → Hash) {s₀ s : State}
    {actions : List (Gc.Action Op)} {live batch : List Hash} {batches : List (List Hash)}
    (h : Gc.run gcStore (State.apply blake3) (.idle, s₀) actions = some (.sweeping live (batch :: batches), s))
    {hash : Hash} (hkeep : hash ∈ live ∨ s.temp.contains hash = true) :
    ∃ s', Gc.step gcStore (State.apply blake3) (.sweeping live (batch :: batches), s) (.gc .deleteBatch) =
      some (.sweeping live batches, s') ∧ s'.get hash = s.get hash := by
  refine ⟨s.delete batch, rfl, State.get_delete ?_⟩
  rcases hkeep with hlive | hpin
  · exact .inl fun hb => Gc.batches_not_live gcStore (State.apply blake3) h batch List.mem_cons_self hash hb hlive
  · exact .inr hpin

/-- A blob imported and released before a cycle is in the batch; a hash the tags name
stays as it was. -/
theorem gc_spares_live_and_pinned_kept :
    let blake3 : List UInt8 → Hash := fun _ => ⟨List.replicate 32 7, rfl⟩
    let kept : Hash := ⟨List.replicate 32 8, rfl⟩
    let actions : List (Gc.Action Op) :=
      [.client (.importBytes [1] .raw), .client (.dropTempTag ⟨.raw (blake3 [1])⟩),
        .gc .start, .gc (.readTags [kept]), .gc .readTempTags, .gc .sweep]
    ∃ s, Gc.run gcStore (State.apply blake3) (.idle, .empty) actions =
        some (.sweeping [kept] [[blake3 [1]]], s) ∧ (kept ∈ [kept] ∨ s.temp.contains kept = true) ∧
      ∃ s', Gc.step gcStore (State.apply blake3) (.sweeping [kept] [[blake3 [1]]], s) (.gc .deleteBatch) =
        some (.sweeping [kept] [], s') ∧ s'.get kept = s.get kept := by
  intro blake3 kept actions
  have hrun : Gc.run gcStore (State.apply blake3) (.idle, .empty) actions =
      some (.sweeping [kept] [[blake3 [1]]], _) := rfl
  exact ⟨_, hrun, .inl List.mem_cons_self,
    gc_spares_live_and_pinned blake3 hrun (.inl List.mem_cons_self)⟩

/-- A blob imported and released before a cycle, and tagged by a client while the
cycle sweeps, is deleted under its tag: the batch was formed from the snapshot,
and `delete` looks at temp tags only. -/
theorem tagged_during_sweep_deleted :
    let blake3 : List UInt8 → Hash := fun _ => ⟨List.replicate 32 7, rfl⟩
    let name : Tag := ⟨[116]⟩
    ∃ live s s', Gc.run gcStore (State.apply blake3) (.idle, .empty)
        [.client (.importBytes [1] .raw), .client (.dropTempTag ⟨.raw (blake3 [1])⟩),
          .gc .start, .gc (.readTags []), .gc .readTempTags, .gc .sweep,
          .client (.setTag name (some (.raw (blake3 [1]))))] =
        some (.sweeping live [[blake3 [1]]], s) ∧
      (s.get (blake3 [1])).isSome ∧ s.tags.lookup name = some (.raw (blake3 [1])) ∧
      Gc.step gcStore (State.apply blake3) (.sweeping live [[blake3 [1]]], s) (.gc .deleteBatch) =
        some (.sweeping live [], s') ∧ s'.get (blake3 [1]) = none := by
  intro blake3 name
  exact ⟨_, _, _, rfl, rfl, rfl, rfl, rfl⟩

end Mem

namespace Fs

/-- The collector's view of the file system store. A complete entry's data is its
inline row, its owned file, or what its external files hold (`readExternal`);
the start callback is `gc_start`, and a batch goes to `GcDelete`, which
spares the protected hashes, in a transaction of its own. -/
def gcStore (readExternal : List String → List UInt8) : Gc.Store State where
  tags := State.tagValues
  tempTags s := s.temp.keys
  get s hash := (s.blobs.lookup hash).map fun
    | .complete dataLocation _ =>
      (true, match dataLocation with
        | .inline => (s.inlineData.lookup hash).getD []
        | .owned _ => (s.files.lookup (hash, .data)).getD []
        | .external paths _ => readExternal paths)
    | .partialEntry _ => (false, [])
  blobs := State.completeBlobs
  partialBlobs := State.partialBlobs
  start := State.gcStart
  delete s hashes := (s.delete hashes false).commit

/-- The operations of the file system store's clients that the collector runs
beside, each a message of its own. -/
inductive Op where
  | importEntry (cmd : Import)
  | getOrCreate (hash : Hash)
  | setTag (name : Tag) (value : Option HashAndFormat)
  | createTag (now : String) (value : HashAndFormat)
  | tempTag (value : HashAndFormat)
  | dropTempTag (tag : TempTag)

/-- A client's operation on the store, committed. -/
def State.apply (s : State) : Op → State
  | .importEntry cmd => (s.importEntry cmd).1.commit
  | .getOrCreate hash => s.getOrCreate hash
  | .setTag name value => (s.setTag name value).commit
  | .createTag now value => (s.createTag now value).1.commit
  | .tempTag value => (s.tempTag value).1
  | .dropTempTag tag => s.dropTempTag tag

/-- **What the file system cycle spares.** Along every interleaving, the batch the
collector deletes next leaves the entry of every hash it found live, and of every
hash a temp tag pins or that is protected when the batch runs, as it was. -/
theorem gc_spares_live_pinned_protected (readExternal : List String → List UInt8) {s₀ s : State}
    {actions : List (Gc.Action Op)} {live batch : List Hash} {batches : List (List Hash)}
    (h : Gc.run (gcStore readExternal) State.apply (.idle, s₀) actions =
      some (.sweeping live (batch :: batches), s))
    {hash : Hash} (hkeep : hash ∈ live ∨ s.temp.contains hash = true ∨ hash ∈ s.protectedHashes) :
    ∃ s', Gc.step (gcStore readExternal) State.apply (.sweeping live (batch :: batches), s) (.gc .deleteBatch) =
      some (.sweeping live batches, s') ∧ s'.blobs.lookup hash = s.blobs.lookup hash := by
  refine ⟨(s.delete batch false).commit, rfl, State.lookup_delete ?_⟩
  rcases hkeep with hlive | hpin
  · exact .inl fun hb =>
      Gc.batches_not_live (gcStore readExternal) State.apply h batch List.mem_cons_self hash hb hlive
  · exact .inr (hpin.imp id fun hp => ⟨rfl, hp⟩)

/-- A blob imported and released before a cycle, and tagged by a client while the
cycle sweeps, loses its entry under its tag: `gc_start` cleared the
protection of the import, and `set_tag` protects nothing. -/
theorem fs_tagged_during_sweep_deleted :
    let hash : Hash := ⟨List.replicate 32 7, rfl⟩
    let name : Tag := ⟨[116]⟩
    ∃ live s s', Gc.run (gcStore fun _ => []) State.apply (.idle, .empty .default)
        [.client (.importEntry ⟨.raw hash, .memory, [1], none⟩), .client (.dropTempTag ⟨.raw hash⟩),
          .gc .start, .gc (.readTags []), .gc .readTempTags, .gc .sweep,
          .client (.setTag name (some (.raw hash)))] =
        some (.sweeping live [[hash]], s) ∧
      (s.blobs.lookup hash).isSome ∧ s.tags.lookup name = some (.raw hash) ∧
      Gc.step (gcStore fun _ => []) State.apply (.sweeping live [[hash]], s) (.gc .deleteBatch) =
        some (.sweeping live [], s') ∧ s'.blobs.lookup hash = none := by
  intro hash name
  exact ⟨_, _, _, rfl, rfl, rfl, rfl, rfl⟩

/-- A blob imported and released before a cycle is in the batch; the entry of a hash the
tags name stays as it was. -/
theorem gc_spares_live_pinned_protected_kept :
    let hash : Hash := ⟨List.replicate 32 7, rfl⟩
    let kept : Hash := ⟨List.replicate 32 8, rfl⟩
    let actions : List (Gc.Action Op) :=
      [.client (.importEntry ⟨.raw hash, .memory, [1], none⟩), .client (.dropTempTag ⟨.raw hash⟩),
        .gc .start, .gc (.readTags [kept]), .gc .readTempTags, .gc .sweep]
    ∃ s, Gc.run (gcStore fun _ => []) State.apply (.idle, .empty .default) actions =
        some (.sweeping [kept] [[hash]], s) ∧
      (kept ∈ [kept] ∨ s.temp.contains kept = true ∨ kept ∈ s.protectedHashes) ∧
      ∃ s', Gc.step (gcStore fun _ => []) State.apply (.sweeping [kept] [[hash]], s) (.gc .deleteBatch) =
        some (.sweeping [kept] [], s') ∧ s'.blobs.lookup kept = s.blobs.lookup kept := by
  intro hash kept actions
  have hrun : Gc.run (gcStore fun _ => []) State.apply (.idle, .empty .default) actions =
      some (.sweeping [kept] [[hash]], _) := rfl
  exact ⟨_, hrun, .inl List.mem_cons_self,
    gc_spares_live_pinned_protected (fun _ => []) hrun (.inl List.mem_cons_self)⟩

end Fs

end Iroh.Blobs
