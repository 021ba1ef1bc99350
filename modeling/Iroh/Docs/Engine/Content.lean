import Iroh.Lib.Machine

/-! The content events of live sync (`engine/live.rs`, `engine/state.rs`).

When a remote entry arrives whose content is complete at the sender, the live actor
starts a download of its hash (`start_download`); a second namespace that wants the same
hash while it is in flight is attached to the running download. `QueuedHashes` records,
both ways, which namespaces wait for which hashes. When a download ends,
`on_download_ready` removes the hash for every namespace waiting for it, sends
`ContentReady` on success, and sends `PendingContentReady` to each namespace that now
waits for nothing, if the namespace's `may_emit_ready` flag is set. `on_sync_finished`
sends `SyncFinished`, and then either `PendingContentReady` at once, when nothing is
queued for the namespace, or sets the flag.

`LiveActor.step` takes one input of the actor's loop: a namespace starting to sync, a sync
finishing (one whose `finish` returned a value), a `RemoteInsert` replica event, a
neighbor's `ContentReady` announcement, or one of the running downloads ending, with
success or failure. Whether the blob store has the content complete is an input, as is
which download ends; the order in which `remove_hash` visits a hash set is the list's.
Leaving a namespace, the peers and the downloader's requests are not modelled.

What the events obey is read off `readyOwed`, a monitor of the events one namespace
receives: the run keeps it in step with the namespace's flag (`run_readyOwed`), so each
`PendingContentReady` follows a `SyncFinished` with no other one between
(`pendingContentReady_after_syncFinished`), and, once nothing is queued for the namespace,
each `SyncFinished` it received has been followed by a `PendingContentReady`
(`pendingContentReady_follows`). `Inv` is what the second needs of the state. A successful download sends `ContentReady` only to
the namespace that started it, not to the others attached to it. -/

namespace Iroh.Docs.Engine.Live

variable {H N : Type}

/-- `QueuedHashes`: for each hash in download, the namespaces waiting for it, and for each
namespace, the hashes it waits for. A `HashSet` is a list; `insert` keeps it free of
repeats and removing an element removes every copy. -/
structure QueuedHashes (H N : Type) where
  byHash : AList fun _ : H => List N
  byNamespace : AList fun _ : N => List H

/-- `NamespaceStates`, for each syncing namespace its `may_emit_ready` flag. -/
abbrev NamespaceStates (N : Type) := AList fun _ : N => Bool

/-- `Event`: the events of live sync that this model emits. -/
inductive Event (H : Type) where
  | contentReady (hash : H)
  | syncFinished
  | pendingContentReady
deriving DecidableEq, Repr

/-- The protocol of `PendingContentReady` on the events of one namespace: a `SyncFinished`
owes one, and a `PendingContentReady` must be owed and pays the debt. The result is
whether one is owed at the end, or `none` at the first that was not owed. -/
def readyOwed : Bool → List (Event H) → Option Bool
  | owed, [] => some owed
  | _, .syncFinished :: es => readyOwed true es
  | owed, .pendingContentReady :: es => if owed then readyOwed false es else none
  | owed, .contentReady _ :: es => readyOwed owed es

@[simp] theorem readyOwed_nil (owed : Bool) : readyOwed owed ([] : List (Event H)) = some owed := rfl

theorem readyOwed_append (owed : Bool) (es es' : List (Event H)) :
    readyOwed owed (es ++ es') = (readyOwed owed es).bind (readyOwed · es') := by
  induction es generalizing owed with
  | nil => rfl
  | cons e es ih =>
    cases e with
    | contentReady hash => exact ih owed
    | syncFinished => exact ih true
    | pendingContentReady =>
      cases owed with
      | false => rfl
      | true => exact ih false

/-- Events that end owing a `PendingContentReady` owed one from the start and paid none,
or hold a `SyncFinished` after which none was paid. -/
theorem readyOwed_eq_some_true {owed : Bool} {es : List (Event H)} (h : readyOwed owed es = some true) :
    (owed = true ∧ .pendingContentReady ∉ es) ∨
      ∃ es₁ es₂, es = es₁ ++ .syncFinished :: es₂ ∧ .pendingContentReady ∉ es₂ := by
  induction es generalizing owed with
  | nil =>
    cases h
    exact Or.inl ⟨rfl, List.not_mem_nil⟩
  | cons e es ih =>
    cases e with
    | contentReady hash =>
      rcases ih h with ⟨rfl, hn⟩ | ⟨es₁, es₂, rfl, hn⟩
      · exact Or.inl ⟨rfl, by simpa using hn⟩
      · exact Or.inr ⟨.contentReady hash :: es₁, es₂, rfl, hn⟩
    | syncFinished =>
      rcases ih h with ⟨-, hn⟩ | ⟨es₁, es₂, rfl, hn⟩
      · exact Or.inr ⟨[], es, rfl, hn⟩
      · exact Or.inr ⟨.syncFinished :: es₁, es₂, rfl, hn⟩
    | pendingContentReady =>
      cases owed with
      | false => cases h
      | true =>
        rcases ih h with ⟨h, -⟩ | ⟨es₁, es₂, rfl, hn⟩
        · cases h
        · exact Or.inr ⟨.pendingContentReady :: es₁, es₂, rfl, hn⟩

/-- Before a `PendingContentReady` that the protocol allows, one was owed. -/
theorem readyOwed_of_pendingContentReady {owed : Bool} {es es' : List (Event H)} {b : Bool}
    (h : readyOwed owed (es ++ .pendingContentReady :: es') = some b) : readyOwed owed es = some true := by
  rw [readyOwed_append] at h
  cases he : readyOwed owed es with
  | none => simp [he] at h
  | some c =>
    cases c with
    | false => simp [he, readyOwed] at h
    | true => rfl

/-- The state of `LiveActor` that the content events read. A task of `download_tasks`
is the namespace that started it and the hash it downloads. -/
structure LiveActor (H N : Type) where
  state : NamespaceStates N
  missingHashes : List H
  queuedHashes : QueuedHashes H N
  downloadTasks : List (N × H)

/-- The inputs of the actor's loop that the content events depend on. `inStore` is
whether `entry_status` finds the content complete; a download is named by its place in
`download_tasks`. -/
inductive Input (H N : Type) where
  | startSync (ns : N)
  | syncFinished (ns : N)
  | remoteInsert (ns : N) (hash : H) (shouldDownload remoteComplete inStore : Bool)
  | neighborContentReady (ns : N) (hash : H) (inStore : Bool)
  | downloadReady (task : Nat) (ok : Bool)

variable [DecidableEq H] [DecidableEq N]

namespace QueuedHashes

/-- `QueuedHashes::insert`. -/
def insert (q : QueuedHashes H N) (hash : H) (ns : N) : QueuedHashes H N where
  byHash := q.byHash.insert hash (((q.byHash.lookup hash).getD []).insert ns)
  byNamespace := q.byNamespace.insert ns (((q.byNamespace.lookup ns).getD []).insert hash)

/-- One namespace of the loop of `remove_hash`: the hash is removed from its set, and the
namespace is removed and reported when the set becomes empty. -/
def removeFrom (hash : H) (acc : (AList fun _ : N => List H) × List N) (ns : N) :
    (AList fun _ : N => List H) × List N :=
  match acc.1.lookup ns with
  | some hashes =>
    let hashes := hashes.filter (· != hash)
    if hashes.isEmpty then (acc.1.erase ns, acc.2 ++ [ns]) else (acc.1.insert ns hashes, acc.2)
  | none => acc

/-- `QueuedHashes::remove_hash`, with the namespaces that now wait for nothing. -/
def removeHash (q : QueuedHashes H N) (hash : H) : QueuedHashes H N × List N :=
  let removed := ((q.byHash.lookup hash).getD []).foldl (removeFrom hash) (q.byNamespace, [])
  (⟨q.byHash.erase hash, removed.1⟩, removed.2)

/-- `QueuedHashes::contains_hash`. -/
def containsHash (q : QueuedHashes H N) (hash : H) : Bool := (q.byHash.lookup hash).isSome

/-- `QueuedHashes::contains_namespace`. -/
def containsNamespace (q : QueuedHashes H N) (ns : N) : Bool := (q.byNamespace.lookup ns).isSome

/-! ### Lookups after `insert` and `remove_hash` -/

theorem getD_lookup_insert {α β : Type} [DecidableEq α] (m : AList fun _ : α => List β) (a a' : α)
    (v : List β) : ((m.insert a v).lookup a').getD [] = if a' = a then v else (m.lookup a').getD [] := by
  by_cases h : a' = a
  · subst h
    simp [AList.lookup_insert]
  · simp [AList.lookup_insert_ne h, h]

@[simp] theorem containsHash_insert (q : QueuedHashes H N) (hash h : H) (ns : N) :
    (q.insert hash ns).containsHash h = (decide (h = hash) || q.containsHash h) := by
  by_cases e : h = hash
  · subst e
    simp [containsHash, insert, AList.lookup_insert]
  · simp [containsHash, insert, AList.lookup_insert_ne e, e]

@[simp] theorem containsNamespace_insert (q : QueuedHashes H N) (hash : H) (ns n : N) :
    (q.insert hash ns).containsNamespace n = (decide (n = ns) || q.containsNamespace n) := by
  by_cases e : n = ns
  · subst e
    simp [containsNamespace, insert, AList.lookup_insert]
  · simp [containsNamespace, insert, AList.lookup_insert_ne e, e]

/-- What `remove_hash` leaves of a namespace's set: the set without the hash, or no entry
when that is empty. -/
def dropHash (hash : H) (o : Option (List H)) : Option (List H) :=
  o.bind fun hashes => if (hashes.filter (· != hash)).isEmpty then none
    else some (hashes.filter (· != hash))

@[simp] theorem dropHash_none (hash : H) : dropHash hash none = none := rfl

section RemoveFrom

variable {hash : H} {hashes rest : List H} {a : H}

theorem dropHash_some_of_nil (hf : hashes.filter (· != hash) = []) :
    dropHash hash (some hashes) = none := by
  simp only [dropHash, Option.bind_some, hf, List.isEmpty_nil, if_true]

theorem dropHash_some_of_cons (hf : hashes.filter (· != hash) = a :: rest) :
    dropHash hash (some hashes) = some (a :: rest) := by
  simp only [dropHash, Option.bind_some, hf, List.isEmpty_cons, Bool.false_eq_true, if_false]

variable {acc : (AList fun _ : N => List H) × List N} {ns : N}

theorem removeFrom_of_none (hl : acc.1.lookup ns = none) : removeFrom hash acc ns = acc := by
  simp only [removeFrom, hl]

theorem removeFrom_of_nil (hl : acc.1.lookup ns = some hashes) (hf : hashes.filter (· != hash) = []) :
    removeFrom hash acc ns = (acc.1.erase ns, acc.2 ++ [ns]) := by
  simp only [removeFrom, hl, hf, List.isEmpty_nil, if_true]

theorem removeFrom_of_cons (hl : acc.1.lookup ns = some hashes)
    (hf : hashes.filter (· != hash) = a :: rest) :
    removeFrom hash acc ns = (acc.1.insert ns (a :: rest), acc.2) := by
  simp only [removeFrom, hl, hf, List.isEmpty_cons, Bool.false_eq_true, if_false]

end RemoveFrom

theorem dropHash_dropHash (hash : H) (o : Option (List H)) :
    dropHash hash (dropHash hash o) = dropHash hash o := by
  cases o with
  | none => rfl
  | some hashes =>
    cases hf : hashes.filter (· != hash) with
    | nil => rw [dropHash_some_of_nil hf, dropHash_none]
    | cons a rest =>
      have hkeep : (a :: rest).filter (· != hash) = a :: rest := by
        apply List.filter_eq_self.mpr
        intro x hx
        rw [← hf] at hx
        exact (List.mem_filter.mp hx).2
      rw [dropHash_some_of_cons hf, dropHash_some_of_cons hkeep]

theorem getD_dropHash (hash : H) (o : Option (List H)) :
    (dropHash hash o).getD [] = (o.getD []).filter (· != hash) := by
  cases o with
  | none => rfl
  | some hashes =>
    cases hf : hashes.filter (· != hash) with
    | nil => rw [dropHash_some_of_nil hf, Option.getD_none, Option.getD_some, hf]
    | cons a rest => rw [dropHash_some_of_cons hf, Option.getD_some, Option.getD_some, hf]

theorem ne_nil_of_dropHash {hash : H} {o : Option (List H)} {hashes : List H}
    (h : dropHash hash o = some hashes) : hashes ≠ [] := by
  cases o with
  | none => cases h
  | some l =>
    cases hf : l.filter (· != hash) with
    | nil =>
      rw [dropHash_some_of_nil hf] at h
      cases h
    | cons a rest =>
      rw [dropHash_some_of_cons hf] at h
      cases h
      exact List.cons_ne_nil a rest

theorem lookup_removeFrom (hash : H) (acc : (AList fun _ : N => List H) × List N) (ns n : N) :
    (removeFrom hash acc ns).1.lookup n =
      if n = ns then dropHash hash (acc.1.lookup n) else acc.1.lookup n := by
  by_cases e : n = ns
  · subst e
    cases hl : acc.1.lookup n with
    | none => simp [removeFrom_of_none hl, hl]
    | some hashes =>
      cases hf : hashes.filter (· != hash) with
      | nil => simp [removeFrom_of_nil hl hf, AList.lookup_erase, dropHash_some_of_nil hf]
      | cons a rest => simp [removeFrom_of_cons hl hf, AList.lookup_insert, dropHash_some_of_cons hf]
  · cases hl : acc.1.lookup ns with
    | none => simp [removeFrom_of_none hl, e]
    | some hashes =>
      cases hf : hashes.filter (· != hash) with
      | nil => simp [removeFrom_of_nil hl hf, AList.lookup_erase_ne e, e]
      | cons a rest => simp [removeFrom_of_cons hl hf, AList.lookup_insert_ne e, e]

theorem mem_removeFrom (hash : H) (acc : (AList fun _ : N => List H) × List N) (ns n : N) :
    n ∈ (removeFrom hash acc ns).2 ↔
      n ∈ acc.2 ∨ (n = ns ∧ (acc.1.lookup n).isSome ∧ dropHash hash (acc.1.lookup n) = none) := by
  cases hl : acc.1.lookup ns with
  | none =>
    rw [removeFrom_of_none hl]
    constructor
    · exact Or.inl
    · rintro (h | ⟨rfl, hs, -⟩)
      · exact h
      · simp [hl] at hs
  | some hashes =>
    cases hf : hashes.filter (· != hash) with
    | nil =>
      rw [removeFrom_of_nil hl hf, List.mem_append, List.mem_singleton]
      constructor
      · rintro (h | rfl)
        · exact Or.inl h
        · exact Or.inr ⟨rfl, by simp [hl], by rw [hl, dropHash_some_of_nil hf]⟩
      · rintro (h | ⟨rfl, -⟩)
        · exact Or.inl h
        · exact Or.inr rfl
    | cons a rest =>
      rw [removeFrom_of_cons hl hf]
      constructor
      · exact Or.inl
      · rintro (h | ⟨rfl, -, hd⟩)
        · exact h
        · rw [hl, dropHash_some_of_cons hf] at hd
          cases hd

/-- After the loop of `remove_hash` over `l`, the namespaces of `l` hold what `dropHash`
leaves of their sets and the others are untouched. -/
theorem lookup_foldl_removeFrom (hash : H) (l : List N) (acc : (AList fun _ : N => List H) × List N)
    (n : N) : (l.foldl (removeFrom hash) acc).1.lookup n =
      if n ∈ l then dropHash hash (acc.1.lookup n) else acc.1.lookup n := by
  induction l generalizing acc with
  | nil => simp
  | cons ns l ih =>
    rw [List.foldl_cons, ih, lookup_removeFrom]
    by_cases e : n = ns
    · subst e
      by_cases hl : n ∈ l <;> simp [hl, dropHash_dropHash]
    · simp [e]

/-- The loop of `remove_hash` reports a namespace when it had a set and the loop left it none. -/
theorem mem_foldl_removeFrom (hash : H) (l : List N) (acc : (AList fun _ : N => List H) × List N)
    (n : N) : n ∈ (l.foldl (removeFrom hash) acc).2 ↔
      n ∈ acc.2 ∨ (n ∈ l ∧ (acc.1.lookup n).isSome ∧ dropHash hash (acc.1.lookup n) = none) := by
  induction l generalizing acc with
  | nil => simp
  | cons ns l ih =>
    rw [List.foldl_cons, ih, mem_removeFrom, lookup_removeFrom]
    by_cases e : n = ns
    · subst e
      have hagain : ¬((dropHash hash (acc.1.lookup n)).isSome ∧
          dropHash hash (dropHash hash (acc.1.lookup n)) = none) := by
        rw [dropHash_dropHash]
        rintro ⟨hs, hn⟩
        simp [hn] at hs
      simp only [if_true, List.mem_cons, true_or, true_and]
      tauto
    · simp [e]

theorem lookup_byNamespace_removeHash (q : QueuedHashes H N) (hash : H) (n : N) :
    (q.removeHash hash).1.byNamespace.lookup n =
      if n ∈ (q.byHash.lookup hash).getD [] then dropHash hash (q.byNamespace.lookup n)
      else q.byNamespace.lookup n :=
  lookup_foldl_removeFrom hash _ _ n

@[simp] theorem byHash_removeHash (q : QueuedHashes H N) (hash : H) :
    (q.removeHash hash).1.byHash = q.byHash.erase hash := rfl

/-- `remove_hash` reports exactly the namespaces that had hashes queued and now have none. -/
theorem mem_removeHash (q : QueuedHashes H N) (hash : H) (n : N) :
    n ∈ (q.removeHash hash).2 ↔
      q.containsNamespace n = true ∧ (q.removeHash hash).1.containsNamespace n = false := by
  simp only [containsNamespace]
  rw [lookup_byNamespace_removeHash]
  show n ∈ (((q.byHash.lookup hash).getD []).foldl (removeFrom hash) (q.byNamespace, [])).2 ↔ _
  rw [mem_foldl_removeFrom]
  by_cases hl : n ∈ (q.byHash.lookup hash).getD []
  · simp [hl]
  · simp [hl, Option.isSome_iff_ne_none]

/-! ### Well-formedness -/

/-- What `QueuedHashes` keeps: the two maps say the same, and a namespace's entry goes
when its set becomes empty. -/
structure WellFormed (q : QueuedHashes H N) : Prop where
  mirror : ∀ h n, h ∈ (q.byNamespace.lookup n).getD [] ↔ n ∈ (q.byHash.lookup h).getD []
  ne_nil : ∀ n hashes, q.byNamespace.lookup n = some hashes → hashes ≠ []

theorem WellFormed.empty : WellFormed (⟨∅, ∅⟩ : QueuedHashes H N) where
  mirror h n := by simp [AList.lookup_empty]
  ne_nil n hashes h := by simp [AList.lookup_empty] at h

theorem WellFormed.insert {q : QueuedHashes H N} (hq : q.WellFormed) (hash : H) (ns : N) :
    (q.insert hash ns).WellFormed where
  mirror h n := by
    simp only [QueuedHashes.insert, getD_lookup_insert]
    by_cases en : n = ns <;> by_cases eh : h = hash <;> simp [en, eh, hq.mirror]
  ne_nil n hashes h := by
    by_cases en : n = ns
    · subst en
      simp only [QueuedHashes.insert, AList.lookup_insert, Option.some.injEq] at h
      rw [← h]
      exact List.ne_nil_of_mem List.mem_insert_self
    · rw [QueuedHashes.insert, AList.lookup_insert_ne en] at h
      exact hq.ne_nil n hashes h

theorem WellFormed.removeHash {q : QueuedHashes H N} (hq : q.WellFormed) (hash : H) :
    (q.removeHash hash).1.WellFormed where
  mirror h n := by
    rw [lookup_byNamespace_removeHash, byHash_removeHash]
    by_cases eh : h = hash
    · subst eh
      rw [AList.lookup_erase, Option.getD_none]
      split
      · simp [getD_dropHash]
      · rename_i hn
        simpa [hq.mirror] using hn
    · rw [AList.lookup_erase_ne eh]
      split
      · rw [getD_dropHash, List.mem_filter, hq.mirror]
        simp [eh]
      · exact hq.mirror h n
  ne_nil n hashes h := by
    rw [lookup_byNamespace_removeHash] at h
    split at h
    · exact ne_nil_of_dropHash h
    · exact hq.ne_nil n hashes h

end QueuedHashes

namespace NamespaceStates

/-- `NamespaceStates::insert`: a namespace starts with its flag clear. -/
def insert (states : NamespaceStates N) (ns : N) : NamespaceStates N :=
  match states.lookup ns with
  | some _ => states
  | none => AList.insert ns false states

/-- `NamespaceStates::set_may_emit_ready`, for a syncing namespace only. -/
def setMayEmitReady (states : NamespaceStates N) (ns : N) (value : Bool) : NamespaceStates N :=
  match states.lookup ns with
  | some _ => AList.insert ns value states
  | none => states

/-- `NamespaceStates::may_emit_ready`: the flag, cleared as it is read. -/
def mayEmitReady (states : NamespaceStates N) (ns : N) : Option Bool × NamespaceStates N :=
  match states.lookup ns with
  | some true => (some true, AList.insert ns false states)
  | some false => (some false, states)
  | none => (none, states)

theorem lookup_insert (states : NamespaceStates N) (ns n : N) :
    (states.insert ns).lookup n = if n = ns then some ((states.lookup n).getD false) else states.lookup n := by
  by_cases e : n = ns
  · subst e
    unfold insert
    cases hl : states.lookup n with
    | none => simp [AList.lookup_insert]
    | some v => simp [hl]
  · unfold insert
    cases states.lookup ns with
    | none => simp [AList.lookup_insert_ne e, e]
    | some v => simp [e]

theorem lookup_eq_some_true_of_insert {states : NamespaceStates N} {ns n : N}
    (h : (states.insert ns).lookup n = some true) : states.lookup n = some true := by
  rw [lookup_insert] at h
  split_ifs at h with e
  · cases hl : states.lookup n with
    | none => simp [hl] at h
    | some b => simpa [hl] using h
  · exact h

theorem lookup_setMayEmitReady (states : NamespaceStates N) (ns n : N) (value : Bool) :
    (states.setMayEmitReady ns value).lookup n =
      if n = ns then (states.lookup n).map fun _ => value else states.lookup n := by
  by_cases e : n = ns
  · subst e
    unfold setMayEmitReady
    cases hl : states.lookup n with
    | none => simp [hl]
    | some v => simp [AList.lookup_insert]
  · unfold setMayEmitReady
    cases states.lookup ns with
    | none => simp [e]
    | some v => simp [AList.lookup_insert_ne e, e]

end NamespaceStates

/-- One completed namespace of the loop that ends `on_download_ready`. -/
def emitPendingReady (acc : NamespaceStates N × List (N × Event H)) (ns : N) :
    NamespaceStates N × List (N × Event H) :=
  match acc.1.mayEmitReady ns with
  | (some true, state) => (state, acc.2 ++ [(ns, .pendingContentReady)])
  | (_, state) => (state, acc.2)

/-! ### The loop of `on_download_ready` over the completed namespaces -/

section EmitPendingReady

variable {acc : NamespaceStates N × List (N × Event H)} {ns : N}

omit [DecidableEq H] in
theorem emitPendingReady_of_true (h : acc.1.lookup ns = some true) :
    emitPendingReady acc ns = (AList.insert ns false acc.1, acc.2 ++ [(ns, .pendingContentReady)]) := by
  simp only [emitPendingReady, NamespaceStates.mayEmitReady, h]

omit [DecidableEq H] in
theorem emitPendingReady_of_ne (h : acc.1.lookup ns ≠ some true) : emitPendingReady acc ns = acc := by
  unfold emitPendingReady NamespaceStates.mayEmitReady
  cases hl : acc.1.lookup ns with
  | none => rfl
  | some b =>
    cases b with
    | false => rfl
    | true => exact absurd hl h

end EmitPendingReady

omit [DecidableEq H] in
/-- The loop clears the flag of each completed namespace that had it set, and of no other. -/
theorem lookup_foldl_emitPendingReady (l : List N) (acc : NamespaceStates N × List (N × Event H))
    (n : N) : (l.foldl emitPendingReady acc).1.lookup n =
      if n ∈ l ∧ acc.1.lookup n = some true then some false else acc.1.lookup n := by
  induction l generalizing acc with
  | nil => simp
  | cons ns l ih =>
    rw [List.foldl_cons, ih]
    by_cases ht : acc.1.lookup ns = some true
    · rw [emitPendingReady_of_true ht]
      by_cases e : n = ns
      · subst e
        simp [AList.lookup_insert, ht]
      · simp [AList.lookup_insert_ne e, e]
    · rw [emitPendingReady_of_ne ht]
      by_cases e : n = ns
      · subst e
        simp [ht]
      · simp [e]

namespace LiveActor

/-- The actor before any namespace syncs. -/
def empty : LiveActor H N := ⟨∅, [], ⟨∅, ∅⟩, []⟩

/-- `LiveActor::start_download`. -/
def startDownload (s : LiveActor H N) (ns : N) (hash : H) (onlyIfMissing inStore : Bool) :
    LiveActor H N :=
  if inStore then { s with missingHashes := s.missingHashes.filter (· != hash) }
  else if s.queuedHashes.containsHash hash then
    { s with queuedHashes := s.queuedHashes.insert hash ns }
  else if !onlyIfMissing || s.missingHashes.contains hash then
    { s with
      queuedHashes := s.queuedHashes.insert hash ns
      missingHashes := s.missingHashes.filter (· != hash)
      downloadTasks := s.downloadTasks ++ [(ns, hash)] }
  else s

/-- The `RemoteInsert` arm of `LiveActor::on_replica_event`. -/
def onRemoteInsert (s : LiveActor H N) (ns : N) (hash : H)
    (shouldDownload remoteComplete inStore : Bool) : LiveActor H N :=
  if shouldDownload then
    if remoteComplete then s.startDownload ns hash false inStore
    else { s with missingHashes := s.missingHashes.insert hash }
  else s

/-- `LiveActor::on_sync_finished`, from the point where `finish` returned a value. -/
def onSyncFinished (s : LiveActor H N) (ns : N) : LiveActor H N × List (N × Event H) :=
  match s.state.lookup ns with
  | none => (s, [])
  | some _ =>
    if s.queuedHashes.containsNamespace ns then
      ({ s with state := s.state.setMayEmitReady ns true }, [(ns, .syncFinished)])
    else
      ({ s with state := s.state.setMayEmitReady ns false },
        [(ns, .syncFinished), (ns, .pendingContentReady)])

/-- `LiveActor::on_download_ready` for the download of `hash` that `ns` started. -/
def onDownloadReady (s : LiveActor H N) (ns : N) (hash : H) (ok : Bool) :
    LiveActor H N × List (N × Event H) :=
  let removed := s.queuedHashes.removeHash hash
  let missingHashes := if ok then s.missingHashes else s.missingHashes.insert hash
  let events : List (N × Event H) := if ok then [(ns, .contentReady hash)] else []
  let emitted := removed.2.foldl emitPendingReady (s.state, events)
  ({ s with state := emitted.1, queuedHashes := removed.1, missingHashes }, emitted.2)

/-- One turn of the actor's loop. -/
def step (s : LiveActor H N) : Input H N → Except Empty (LiveActor H N × List (N × Event H))
  | .startSync ns => .ok ({ s with state := s.state.insert ns }, [])
  | .syncFinished ns => .ok (s.onSyncFinished ns)
  | .remoteInsert ns hash shouldDownload remoteComplete inStore =>
    .ok (s.onRemoteInsert ns hash shouldDownload remoteComplete inStore, [])
  | .neighborContentReady ns hash inStore => .ok (s.startDownload ns hash true inStore, [])
  | .downloadReady task ok =>
    match s.downloadTasks[task]? with
    | none => .ok (s, [])
    | some (ns, hash) =>
      .ok (({ s with downloadTasks := s.downloadTasks.eraseIdx task }).onDownloadReady ns hash ok)

/-- Two namespaces want the hash `7`: the first starts its download, the second is attached
to it. When the download succeeds, `ContentReady` goes to the first namespace only. -/
theorem content_ready_skips_attached_namespace :
    ∃ s₁ s₂, Machine.run step (empty : LiveActor Nat Nat)
        [.startSync 1, .startSync 2, .remoteInsert 1 7 true true false,
          .remoteInsert 2 7 true true false] = .ok (s₁, []) ∧
      2 ∈ (s₁.queuedHashes.byHash.lookup 7).getD [] ∧
      s₁.step (.downloadReady 0 true) = .ok (s₂, [(1, .contentReady 7)]) :=
  ⟨_, _, rfl, by decide, rfl⟩

end LiveActor

/-! ### What one step does -/

/-- The events sent to the namespace `n`, in order. -/
def eventsFor (n : N) (out : List (N × Event H)) : List (Event H) :=
  out.filterMap fun o => if o.1 = n then some o.2 else none

omit [DecidableEq H] in
@[simp] theorem eventsFor_nil (n : N) : eventsFor n ([] : List (N × Event H)) = [] := rfl

omit [DecidableEq H] in
@[simp] theorem eventsFor_cons (n m : N) (e : Event H) (out : List (N × Event H)) :
    eventsFor n ((m, e) :: out) = if m = n then e :: eventsFor n out else eventsFor n out := by
  by_cases h : m = n <;> simp [eventsFor, h]

omit [DecidableEq H] in
@[simp] theorem eventsFor_append (n : N) (out out' : List (N × Event H)) :
    eventsFor n (out ++ out') = eventsFor n out ++ eventsFor n out' :=
  List.filterMap_append

namespace LiveActor

/-- Whether the namespace is owed a `PendingContentReady`: its `may_emit_ready` flag. -/
def owesReady (s : LiveActor H N) (ns : N) : Bool := (s.state.lookup ns).getD false

@[simp] theorem state_startDownload (s : LiveActor H N) (ns : N) (hash : H)
    (onlyIfMissing inStore : Bool) : (s.startDownload ns hash onlyIfMissing inStore).state = s.state := by
  unfold startDownload
  split_ifs <;> rfl

@[simp] theorem state_onRemoteInsert (s : LiveActor H N) (ns : N) (hash : H)
    (shouldDownload remoteComplete inStore : Bool) :
    (s.onRemoteInsert ns hash shouldDownload remoteComplete inStore).state = s.state := by
  unfold onRemoteInsert
  split_ifs <;> simp

/-- Everything a step can do, one disjunct per input and branch. -/
theorem step_cases {s s' : LiveActor H N} {i : Input H N} {o : List (N × Event H)}
    (h : s.step i = .ok (s', o)) :
    (∃ ns, s' = { s with state := s.state.insert ns } ∧ o = []) ∨
    (∃ ns, (s', o) = s.onSyncFinished ns) ∨
    (∃ ns hash shouldDownload remoteComplete inStore,
      s' = s.onRemoteInsert ns hash shouldDownload remoteComplete inStore ∧ o = []) ∨
    (∃ ns hash inStore, s' = s.startDownload ns hash true inStore ∧ o = []) ∨
    (∃ task ok ns hash, s.downloadTasks[task]? = some (ns, hash) ∧
      (s', o) = ({ s with downloadTasks := s.downloadTasks.eraseIdx task }).onDownloadReady ns hash ok) ∨
    (s' = s ∧ o = []) := by
  cases i with
  | startSync ns =>
    cases h
    exact Or.inl ⟨ns, rfl, rfl⟩
  | syncFinished ns =>
    exact Or.inr (Or.inl ⟨ns, (Except.ok.inj h).symm⟩)
  | remoteInsert ns hash shouldDownload remoteComplete inStore =>
    cases h
    exact Or.inr (Or.inr (Or.inl ⟨ns, hash, shouldDownload, remoteComplete, inStore, rfl, rfl⟩))
  | neighborContentReady ns hash inStore =>
    cases h
    exact Or.inr (Or.inr (Or.inr (Or.inl ⟨ns, hash, inStore, rfl, rfl⟩)))
  | downloadReady task ok =>
    simp only [step] at h
    split at h
    · cases h
      exact Or.inr (Or.inr (Or.inr (Or.inr (Or.inr ⟨rfl, rfl⟩))))
    · rename_i ns hash hget
      exact Or.inr (Or.inr (Or.inr (Or.inr (Or.inl ⟨task, ok, ns, hash, hget, (Except.ok.inj h).symm⟩))))

/-! ### The flag follows the protocol -/

omit [DecidableEq H] in
theorem readyOwed_onSyncFinished (s : LiveActor H N) (ns n : N) :
    readyOwed (s.owesReady n) (eventsFor n (s.onSyncFinished ns).2) =
      some ((s.onSyncFinished ns).1.owesReady n) := by
  unfold onSyncFinished
  cases hl : s.state.lookup ns with
  | none => simp
  | some v =>
    by_cases e : ns = n
    · subst e
      cases s.queuedHashes.containsNamespace ns <;>
        simp [owesReady, NamespaceStates.lookup_setMayEmitReady, hl, readyOwed]
    · have e' : n ≠ ns := fun h => e h.symm
      cases s.queuedHashes.containsNamespace ns <;>
        simp [owesReady, NamespaceStates.lookup_setMayEmitReady, e, e']

omit [DecidableEq H] in
/-- The loop of `on_download_ready` keeps the monitor in step with the flags. -/
theorem readyOwed_foldl_emitPendingReady (owed : Bool) (n : N) (l : List N)
    (acc : NamespaceStates N × List (N × Event H))
    (h : readyOwed owed (eventsFor n acc.2) = some ((acc.1.lookup n).getD false)) :
    readyOwed owed (eventsFor n (l.foldl emitPendingReady acc).2) =
      some (((l.foldl emitPendingReady acc).1.lookup n).getD false) := by
  induction l generalizing acc with
  | nil => exact h
  | cons ns l ih =>
    apply ih
    by_cases ht : acc.1.lookup ns = some true
    · rw [emitPendingReady_of_true ht, eventsFor_append, readyOwed_append, h]
      by_cases e : ns = n
      · subst e
        simp [ht, AList.lookup_insert, readyOwed]
      · have e' : n ≠ ns := fun h => e h.symm
        simp [e, AList.lookup_insert_ne e']
    · rw [emitPendingReady_of_ne ht]
      exact h

theorem readyOwed_onDownloadReady (s : LiveActor H N) (ns : N) (hash : H) (ok : Bool) (n : N) :
    readyOwed (s.owesReady n) (eventsFor n (s.onDownloadReady ns hash ok).2) =
      some ((s.onDownloadReady ns hash ok).1.owesReady n) := by
  apply readyOwed_foldl_emitPendingReady
  cases ok <;> by_cases e : ns = n <;> simp [owesReady, e, readyOwed]

/-- **Step lemma.** Each step moves the monitor of every namespace as it moves the flag. -/
theorem readyOwed_step {s s' : LiveActor H N} {i : Input H N} {o : List (N × Event H)}
    (h : s.step i = .ok (s', o)) (n : N) :
    readyOwed (s.owesReady n) (eventsFor n o) = some (s'.owesReady n) := by
  rcases step_cases h with ⟨ns, rfl, rfl⟩ | ⟨ns, hs⟩ | ⟨ns, hash, d, c, st, rfl, rfl⟩ |
    ⟨ns, hash, st, rfl, rfl⟩ | ⟨task, ok, ns, hash, -, hs⟩ | ⟨rfl, rfl⟩
  · by_cases e : n = ns <;> simp [owesReady, NamespaceStates.lookup_insert, e]
  · obtain ⟨rfl, rfl⟩ := Prod.mk.inj hs
    exact readyOwed_onSyncFinished s ns n
  · simp [owesReady]
  · simp [owesReady]
  · obtain ⟨rfl, rfl⟩ := Prod.mk.inj hs
    exact readyOwed_onDownloadReady _ ns hash ok n
  · simp

/-- **Run lemma.** Along every run, the events each namespace receives follow the protocol
from the flag at the start to the flag at the end. -/
theorem run_readyOwed {s s' : LiveActor H N} {is : List (Input H N)} {o : List (N × Event H)}
    (h : Machine.run step s is = .ok (s', o)) (n : N) :
    readyOwed (s.owesReady n) (eventsFor n o) = some (s'.owesReady n) := by
  have hrun := @Machine.run_induction _ _ _ _ step
    (fun _ out t => readyOwed (s.owesReady n) (eventsFor n out) = some (t.owesReady n))
    (fun _ out t _ t' o' ht hstep => by
      rw [eventsFor_append, readyOwed_append, ht]
      exact readyOwed_step hstep n)
    [] [] _ _ _ _ rfl h
  simpa using hrun

/-! ### The invariant -/

/-- What the live actor keeps between steps: `QueuedHashes` is well formed, each hash in it
has a running download task, and a set flag has something queued for its namespace. -/
structure Inv (s : LiveActor H N) : Prop where
  wellFormed : s.queuedHashes.WellFormed
  queued_task : ∀ hash, s.queuedHashes.containsHash hash = true → ∃ ns, (ns, hash) ∈ s.downloadTasks
  ready_queued : ∀ ns, s.state.lookup ns = some true → s.queuedHashes.containsNamespace ns = true

theorem Inv.empty : Inv (empty : LiveActor H N) where
  wellFormed := QueuedHashes.WellFormed.empty
  queued_task hash h := by simp [LiveActor.empty, QueuedHashes.containsHash] at h
  ready_queued ns h := by simp [LiveActor.empty] at h

section Inv

variable {s : LiveActor H N}

theorem Inv.startDownload (hs : Inv s) (ns : N) (hash : H) (onlyIfMissing inStore : Bool) :
    Inv (s.startDownload ns hash onlyIfMissing inStore) := by
  unfold LiveActor.startDownload
  split_ifs with hst hq hnew
  · exact { hs with }
  · refine ⟨hs.wellFormed.insert hash ns, fun h hh => ?_, fun n hn => ?_⟩
    · rw [QueuedHashes.containsHash_insert] at hh
      by_cases e : h = hash
      · subst e
        exact hs.queued_task h hq
      · exact hs.queued_task h (by simpa [e] using hh)
    · simp [hs.ready_queued n hn]
  · refine ⟨hs.wellFormed.insert hash ns, fun h hh => ?_, fun n hn => ?_⟩
    · rw [QueuedHashes.containsHash_insert] at hh
      by_cases e : h = hash
      · subst e
        exact ⟨ns, List.mem_append_right _ (List.mem_singleton_self _)⟩
      · obtain ⟨n, hn⟩ := hs.queued_task h (by simpa [e] using hh)
        exact ⟨n, List.mem_append_left _ hn⟩
    · simp [hs.ready_queued n hn]
  · exact hs

theorem Inv.onRemoteInsert (hs : Inv s) (ns : N) (hash : H)
    (shouldDownload remoteComplete inStore : Bool) :
    Inv (s.onRemoteInsert ns hash shouldDownload remoteComplete inStore) := by
  unfold LiveActor.onRemoteInsert
  split_ifs
  · exact hs.startDownload ns hash false inStore
  · exact { hs with }
  · exact hs

theorem Inv.onSyncFinished (hs : Inv s) (ns : N) : Inv (s.onSyncFinished ns).1 := by
  unfold LiveActor.onSyncFinished
  cases s.state.lookup ns with
  | none => exact hs
  | some v =>
    split_ifs with hq
    · refine { hs with ready_queued := fun n hn => ?_ }
      rw [NamespaceStates.lookup_setMayEmitReady] at hn
      split_ifs at hn with e
      · exact e ▸ hq
      · exact hs.ready_queued n hn
    · refine { hs with ready_queued := fun n hn => ?_ }
      rw [NamespaceStates.lookup_setMayEmitReady] at hn
      split_ifs at hn with e
      · simp at hn
      · exact hs.ready_queued n hn

/-- The download at `task` ends: its hash leaves `QueuedHashes` with its task, and the flags
that the loop reads are those of namespaces left with nothing queued. -/
theorem Inv.downloadReady (hs : Inv s) {task : Nat} {ns : N} {hash : H}
    (hget : s.downloadTasks[task]? = some (ns, hash)) (ok : Bool) :
    Inv (({ s with downloadTasks := s.downloadTasks.eraseIdx task }).onDownloadReady ns hash ok).1 := by
  refine ⟨hs.wellFormed.removeHash hash, fun h hh => ?_, fun n hn => ?_⟩
  · have hne : h ≠ hash := by
      rintro rfl
      simp [onDownloadReady, QueuedHashes.containsHash, AList.lookup_erase] at hh
    have hh' : s.queuedHashes.containsHash h = true := by
      simpa [onDownloadReady, QueuedHashes.containsHash, AList.lookup_erase_ne hne] using hh
    obtain ⟨n, hn⟩ := hs.queued_task h hh'
    obtain ⟨j, hj⟩ := List.mem_iff_getElem?.mp hn
    have hjt : j ≠ task := by
      rintro rfl
      rw [hget] at hj
      exact hne (congrArg Prod.snd (Option.some.inj hj)).symm
    exact ⟨n, List.mem_eraseIdx_iff_getElem?.mpr ⟨j, hjt, hj⟩⟩
  · simp only [onDownloadReady, lookup_foldl_emitPendingReady] at hn
    split_ifs at hn with hc
    · cases hn
    · have hcompleted : n ∉ (s.queuedHashes.removeHash hash).2 := fun hm => hc ⟨hm, hn⟩
      rw [QueuedHashes.mem_removeHash] at hcompleted
      show (s.queuedHashes.removeHash hash).1.containsNamespace n = true
      simpa [hs.ready_queued n hn] using hcompleted

/-- **Step lemma** for `Inv`. -/
theorem Inv.step (hs : Inv s) {s' : LiveActor H N} {i : Input H N} {o : List (N × Event H)}
    (h : s.step i = .ok (s', o)) : Inv s' := by
  rcases step_cases h with ⟨ns, rfl, rfl⟩ | ⟨ns, hso⟩ | ⟨ns, hash, d, c, st, rfl, rfl⟩ |
    ⟨ns, hash, st, rfl, rfl⟩ | ⟨task, ok, ns, hash, hget, hso⟩ | ⟨rfl, rfl⟩
  · exact { hs with
      ready_queued := fun n hn => hs.ready_queued n (NamespaceStates.lookup_eq_some_true_of_insert hn) }
  · rw [(Prod.mk.inj hso).1]
    exact hs.onSyncFinished ns
  · exact hs.onRemoteInsert ns hash d c st
  · exact hs.startDownload ns hash true st
  · rw [(Prod.mk.inj hso).1]
    exact hs.downloadReady hget ok
  · exact hs

end Inv

omit [DecidableEq H] in
@[simp] theorem queuedHashes_onSyncFinished (s : LiveActor H N) (ns : N) :
    (s.onSyncFinished ns).1.queuedHashes = s.queuedHashes := by
  unfold onSyncFinished
  split
  · rfl
  · split_ifs <;> rfl

/-- From the start, each `PendingContentReady` a namespace receives comes after a
`SyncFinished`, with no other `PendingContentReady` since. -/
theorem pendingContentReady_after_syncFinished {s : LiveActor H N} {is : List (Input H N)}
    {o : List (N × Event H)} (h : Machine.run step empty is = .ok (s, o)) {n : N}
    {es es' : List (Event H)} (hn : eventsFor n o = es ++ .pendingContentReady :: es') :
    ∃ es₁ es₂, es = es₁ ++ .syncFinished :: es₂ ∧ .pendingContentReady ∉ es₂ := by
  have hrun := run_readyOwed h n
  rw [hn] at hrun
  rcases readyOwed_eq_some_true (readyOwed_of_pendingContentReady hrun) with ⟨hf, -⟩ | hsync
  · cases hf
  · exact hsync

/-- A namespace that syncs while the download of a hash it wants runs: `SyncFinished`, then the
download's `ContentReady` and `PendingContentReady`. -/
theorem pendingContentReady_after_syncFinished_download :
    ∃ s o, Machine.run step (empty : LiveActor Nat Nat)
        [.startSync 1, .remoteInsert 1 7 true true false, .syncFinished 1, .downloadReady 0 true] =
        .ok (s, o) ∧
      eventsFor 1 o = [.syncFinished, .contentReady 7] ++ .pendingContentReady :: [] ∧
      ∃ es₁ es₂, [Event.syncFinished, .contentReady 7] = es₁ ++ .syncFinished :: es₂ ∧
        .pendingContentReady ∉ es₂ := by
  have hrun : Machine.run step (empty : LiveActor Nat Nat)
      [.startSync 1, .remoteInsert 1 7 true true false, .syncFinished 1, .downloadReady 0 true] = .ok (_, _) := rfl
  refine ⟨_, _, hrun, ?_,
    @pendingContentReady_after_syncFinished _ _ _ _ _ _ _ hrun 1 [.syncFinished, .contentReady 7] [] ?_⟩ <;> rfl

end LiveActor

end Iroh.Docs.Engine.Live
