import Iroh.Docs.Actor.Runs

/-! What the docs actor's bookkeeping of replicas is for, as a machine of its own.

A client sees documents and handles: opening a stored document takes a handle, closing gives one
back, dropping gives one back and deletes the document when no other handle held it, importing a
namespace stores its document, and shutting down releases every handle. `Lifecycle` is that
machine over the actor's own actions; every other action leaves it as it is, and once it has shut
down nothing changes.

The actor's handle counts, the store's namespaces and whether the actor runs make a `Lifecycle`
(`Actor.lifecycle`). In every state where the actor and its store agree, one step of the actor is
one step of the machine (`lifecycle_step`), so every run from a store that counts no replica open
is a run of the machine. -/
namespace Iroh.Docs.Sync

open Store

/-- Handles per document, the stored documents, and whether the actor runs. -/
@[ext]
structure Lifecycle where
  handles : NamespaceId → Nat
  stored : NamespaceId → Bool
  running : Bool

namespace Lifecycle

variable {P : Type}

/-- What an action on a replica does to the documents and their handles. -/
def onReplicaAction (l : Lifecycle) (ns : NamespaceId) : ReplicaAction P → Lifecycle
  | .open _ =>
    if l.stored ns then { l with handles := Function.update l.handles ns (l.handles ns + 1) } else l
  | .close => { l with handles := Function.update l.handles ns (l.handles ns - 1) }
  | .dropReplica =>
    { l with
      handles := Function.update l.handles ns (l.handles ns - 1)
      stored := if l.handles ns ≤ 1 then Function.update l.stored ns false else l.stored }
  | _ => l

/-- What an action does to the documents and their handles. -/
def onAction (l : Lifecycle) : Action P → Lifecycle
  | .importNamespace capability => { l with stored := Function.update l.stored capability.id true }
  | .replica ns action => l.onReplicaAction ns action
  | .shutdown => { l with handles := fun _ => 0, running := false }
  | _ => l

/-- One action; after shutdown, none has an effect. -/
def step (l : Lifecycle) (action : Action P) : Lifecycle :=
  if l.running then l.onAction action else l

/-- The machine after a sequence of actions. -/
def run (l : Lifecycle) (actions : List (Action P)) : Lifecycle := actions.foldl step l

/-- Only dropping a document's last handle forgets it. -/
theorem eq_dropReplica_of_forgets {l : Lifecycle} {action : Action P} {ns : NamespaceId}
    (hs : l.stored ns = true) (hs' : (l.step action).stored ns = false) :
    action = .replica ns .dropReplica ∧ l.handles ns ≤ 1 := by
  unfold step at hs'
  split_ifs at hs'
  · cases action with
    | importNamespace capability =>
      by_cases e : ns = capability.id
      · subst e
        simp [onAction] at hs'
      · simp [onAction, Function.update_of_ne e, hs] at hs'
    | replica ns' act =>
      cases act with
      | «open» opts =>
        simp only [onAction, onReplicaAction] at hs'
        split_ifs at hs' <;> simp [hs] at hs'
      | dropReplica =>
        simp only [onAction, onReplicaAction] at hs'
        split_ifs at hs' with h1
        · by_cases e : ns = ns'
          · subst e
            exact ⟨rfl, h1⟩
          · simp [Function.update_of_ne e, hs] at hs'
        · simp [hs] at hs'
      | _ => cases hs.symm.trans hs'
    | _ => cases hs.symm.trans hs'
  · cases hs.symm.trans hs'

end Lifecycle

namespace Actor

variable {P : Type} [LinearOrder P] (env : Env)

/-- The handles of each replica the actor holds, the namespaces the store keeps, and whether the
actor runs. -/
def lifecycle (a : Actor P) : Lifecycle :=
  ⟨fun ns => ((a.states.lookup ns).map OpenReplica.handles).getD 0,
    fun ns => (a.store.tables.namespaces ns).isSome, a.running⟩

variable {a : Actor P} {ns : NamespaceId}

theorem Keeps.lifecycle {a' : Actor P} (hk : Keeps a a') : a'.lifecycle = a.lifecycle := by
  have e : ∀ o : Option OpenReplica,
      o.map OpenReplica.handles = (o.map fun st => (st.info.capability, st.handles)).map Prod.snd :=
    fun o => by cases o <;> rfl
  ext ns
  · show ((a'.states.lookup ns).map OpenReplica.handles).getD 0 =
      ((a.states.lookup ns).map OpenReplica.handles).getD 0
    rw [e, hk.held, ← e]
  · show (a'.store.tables.namespaces ns).isSome = (a.store.tables.namespaces ns).isSome
    rw [hk.namespaces]
  · exact hk.running

theorem lifecycle_handles_of_some {st : OpenReplica} (hl : a.states.lookup ns = some st) :
    a.lifecycle.handles ns = st.handles := by
  simp [lifecycle, hl]

theorem lifecycle_handles_of_none (hl : a.states.lookup ns = none) : a.lifecycle.handles ns = 0 := by
  simp [lifecycle, hl]

/-- A replica held by a new number of handles, over a store with the same tables. -/
theorem lifecycle_insert (st : OpenReplica) {s : DocStore P} (ht : s.tables = a.store.tables) :
    { a with states := a.states.insert ns st, store := s }.lifecycle =
      { a.lifecycle with handles := Function.update a.lifecycle.handles ns st.handles } := by
  ext x
  · show (((a.states.insert ns st).lookup x).map OpenReplica.handles).getD 0 = _
    by_cases e : x = ns
    · subst e
      simp [AList.lookup_insert]
    · simp [AList.lookup_insert_ne e, e, lifecycle]
  · show (s.tables.namespaces x).isSome = _
    rw [ht]
    rfl
  · rfl

/-- A replica no handle holds, over a store with the same tables. -/
theorem lifecycle_erase {s : DocStore P} (ht : s.tables = a.store.tables) :
    { a with states := a.states.erase ns, store := s }.lifecycle =
      { a.lifecycle with handles := Function.update a.lifecycle.handles ns 0 } := by
  ext x
  · show (((a.states.erase ns).lookup x).map OpenReplica.handles).getD 0 = _
    by_cases e : x = ns
    · subst e
      simp [AList.lookup_erase]
    · simp [AList.lookup_erase_ne e, e, lifecycle]
  · show (s.tables.namespaces x).isSome = _
    rw [ht]
    rfl
  · rfl

theorem lifecycle_open (h : a.Inv) (opts : OpenOpts) :
    (a.onReplicaAction env ns (.open opts)).1.lifecycle =
      a.lifecycle.onReplicaAction ns (.open opts : ReplicaAction P) := by
  cases hl : a.states.lookup ns with
  | some st =>
    have hs : a.lifecycle.stored ns = true := by simp [lifecycle, h.stored ns st hl]
    simp only [Actor.onReplicaAction, Actor.open, OpenReplicas.openWith_of_some hl, Except.map,
      Lifecycle.onReplicaAction, hs, if_true, lifecycle_handles_of_some hl]
    exact lifecycle_insert _ rfl
  | none =>
    cases hn : a.store.tables.namespaces ns with
    | none =>
      have hs : a.lifecycle.stored ns = false := by simp [lifecycle, hn]
      simp [Actor.onReplicaAction, Actor.open, OpenReplicas.openWith_of_none hl,
        DocStore.loadReplicaInfo_of_none hn, Except.map, Lifecycle.onReplicaAction, hs]
    | some c =>
      have hs : a.lifecycle.stored ns = true := by simp [lifecycle, hn]
      simp only [Actor.onReplicaAction, Actor.open, OpenReplicas.openWith_of_none hl,
        DocStore.loadReplicaInfo_of_some hn, Except.map, Lifecycle.onReplicaAction, hs, if_true,
        lifecycle_handles_of_none hl]
      exact lifecycle_insert _ rfl

theorem lifecycle_close (h : a.Inv) (ns : NamespaceId) :
    (a.close ns).1.lifecycle = a.lifecycle.onReplicaAction ns (.close : ReplicaAction P) := by
  cases hl : a.states.lookup ns with
  | none =>
    have hh := lifecycle_handles_of_none hl
    rw [close_of_none hl, Lifecycle.onReplicaAction, hh, Nat.zero_sub,
      Function.update_eq_self_iff.mpr hh.symm]
    rfl
  | some st =>
    have hpos := h.handles_pos ns st hl
    rw [close_of_some hl hpos, Lifecycle.onReplicaAction, lifecycle_handles_of_some hl]
    split_ifs with h1
    · rw [h1]
      exact lifecycle_erase rfl
    · exact lifecycle_insert _ rfl

/-- A removal forgets the namespace and leaves the handles as they are. -/
theorem lifecycle_removed (a : Actor P) (ns : NamespaceId) :
    { a with store := { a.store with
        tables := ⟨Function.update a.store.tables.namespaces ns none,
          Function.update a.store.tables.namespacePeers ns BTreeMap.empty⟩
        records := removeNamespace a.store.records ns } }.lifecycle =
      { a.lifecycle with stored := Function.update a.lifecycle.stored ns false } := by
  ext x
  · rfl
  · show (Function.update a.store.tables.namespaces ns none x).isSome = _
    by_cases e : x = ns
    · subst e
      simp
    · simp [Function.update_of_ne e, lifecycle]
  · rfl

theorem lifecycle_dropReplica (h : a.Inv) (ns : NamespaceId) :
    (a.onReplicaAction env ns .dropReplica).1.lifecycle =
      a.lifecycle.onReplicaAction ns (.dropReplica : ReplicaAction P) := by
  have hc := h.close ns
  have hl := lifecycle_close h ns
  have hh : (a.close ns).1.lifecycle.handles ns = a.lifecycle.handles ns - 1 := by
    rw [hl]
    simp [Lifecycle.onReplicaAction]
  simp only [Actor.onReplicaAction]
  rw [hc.removeReplica_eq ns]
  by_cases hs : ((a.close ns).1.states.lookup ns).isSome
  · -- another handle still holds the replica: the store refuses
    obtain ⟨st, hst⟩ := Option.isSome_iff_exists.mp hs
    have hpos : 0 < a.lifecycle.handles ns - 1 := by
      rw [← hh, lifecycle_handles_of_some hst]
      exact hc.handles_pos ns st hst
    simp only [hs, if_true]
    rw [hl]
    simp only [Lifecycle.onReplicaAction, if_neg (show ¬a.lifecycle.handles ns ≤ 1 by omega)]
  · have hzero : a.lifecycle.handles ns - 1 = 0 := by
      rw [← hh, lifecycle_handles_of_none (Option.not_isSome_iff_eq_none.mp hs)]
    simp only [hs, Bool.false_eq_true, if_false]
    rw [lifecycle_removed, hl]
    simp only [Lifecycle.onReplicaAction, if_pos (show a.lifecycle.handles ns ≤ 1 by omega)]

theorem lifecycle_importNamespace (h : a.Inv) (capability : Capability) :
    (a.onAction env (.importNamespace capability)).1.lifecycle =
      a.lifecycle.onAction (.importNamespace capability : Action P) := by
  obtain ⟨c, outcome, hm, states, heq, hlookup⟩ := onAction_importNamespace env h capability
  rw [heq]
  ext x
  · show ((states.lookup x).map OpenReplica.handles).getD 0 =
      ((a.states.lookup x).map OpenReplica.handles).getD 0
    rw [hlookup]
    cases a.states.lookup x with
    | none => rfl
    | some st =>
      by_cases e : x = capability.id <;> simp [e]
  · show (Function.update a.store.tables.namespaces capability.id (some c) x).isSome = _
    by_cases e : x = capability.id
    · subst e
      simp [Lifecycle.onAction]
    · simp [Function.update_of_ne e, Lifecycle.onAction, lifecycle]
  · rfl

theorem lifecycle_shutdown :
    { a.closeAll with running := false }.lifecycle = a.lifecycle.onAction (.shutdown : Action P) := by
  ext x
  · rfl
  · show ((a.states.keys.foldl DocStore.closeReplica a.store).tables.namespaces x).isSome = _
    rw [DocStore.foldl_closeReplica]
    rfl
  · rfl

/-- One step of an actor that agrees with its store is one step of the machine. -/
theorem lifecycle_step (h : a.Inv) (action : Action P) :
    (a.step env action).1.lifecycle = a.lifecycle.step action := by
  have hrun : a.lifecycle.running = a.running := rfl
  unfold Actor.step Lifecycle.step
  rw [hrun]
  split_ifs
  · cases action with
    | importAuthor author => exact (keeps_store rfl rfl).lifecycle
    | exportAuthor author => rfl
    | deleteAuthor author => exact (keeps_store rfl rfl).lifecycle
    | importNamespace capability => exact lifecycle_importNamespace env h capability
    | replica ns act =>
      cases act with
      | «open» opts => exact lifecycle_open env h opts
      | close => exact lifecycle_close h ns
      | dropReplica => exact lifecycle_dropReplica env h ns
      | _ => exact Keeps.lifecycle (keeps_onReplicaAction env a ns trivial)
    | shutdown => exact lifecycle_shutdown
  · rfl

theorem lifecycle_run (h : a.Inv) (actions : List (Action P)) :
    (a.run env actions).lifecycle = a.lifecycle.run actions := by
  induction actions generalizing a with
  | nil => rfl
  | cons action actions ih =>
    rw [run_cons, ih (h.step env action), lifecycle_step env h action]
    rfl

/-- **The actor refines the lifecycle machine.** From a store that counts no replica open, after
any actions the actor's handle counts, the store's namespaces and whether the actor runs are
those of the machine run on the same actions from no handles and the stored namespaces. -/
theorem run_refines_lifecycle {s : DocStore P} (ht : s.tables.Inv) (ho : s.openReplicas = [])
    (actions : List (Action P)) :
    ((Actor.new s).run env actions).lifecycle =
      Lifecycle.run ⟨fun _ => 0, fun ns => (s.tables.namespaces ns).isSome, true⟩ actions :=
  lifecycle_run env (Inv.new ht ho) actions

/-- **No action but dropping the last handle deletes a document.** In every run from a store
that counts no replica open, an action after which a stored namespace is no longer stored is
`DropReplica` of that namespace, taken while no other handle held it. -/
theorem forgets_only_last_drop {s : DocStore P} (ht : s.tables.Inv) (ho : s.openReplicas = [])
    (actions : List (Action P)) (action : Action P) (ns : NamespaceId) :
    let a := (Actor.new s).run env actions
    (a.store.tables.namespaces ns).isSome → (a.step env action).1.store.tables.namespaces ns = none →
      action = .replica ns .dropReplica ∧ ∀ st, a.states.lookup ns = some st → st.handles = 1 := by
  intro a hs hs'
  have h : a.Inv := (Inv.new ht ho).run env actions
  have hstored : (a.lifecycle.step action).stored ns = false := by
    rw [← lifecycle_step env h action]
    simp [lifecycle, hs']
  obtain ⟨rfl, hle⟩ := Lifecycle.eq_dropReplica_of_forgets hs hstored
  refine ⟨rfl, fun st hst => ?_⟩
  have hpos := h.handles_pos ns st hst
  have hh := lifecycle_handles_of_some hst
  omega

/-- Namespace 1 imported and opened, then dropped: it is deleted by its last handle. -/
theorem forgets_only_last_drop_open :
    let a := (Actor.new freshStore).run trivialEnv
      [.importNamespace (.write 1), .replica 1 (.open ⟨true⟩)]
    (a.store.tables.namespaces 1).isSome = true ∧
      (a.step trivialEnv (.replica 1 .dropReplica)).1.store.tables.namespaces 1 = none ∧
      (.replica 1 .dropReplica : Action Nat) = .replica 1 .dropReplica ∧
        ∀ st, a.states.lookup 1 = some st → st.handles = 1 := by
  intro a
  have hs : (a.store.tables.namespaces 1).isSome = true := by decide
  have hs' : (a.step trivialEnv (.replica 1 .dropReplica)).1.store.tables.namespaces 1 = none := by decide
  exact ⟨hs, hs', forgets_only_last_drop trivialEnv NamespaceTables.Inv.empty rfl _ _ 1 hs hs'⟩

/-- Namespace 1 imported and opened twice, then dropped once: still stored, by one handle. -/
theorem run_refines_lifecycle_drop :
    let a := (Actor.new freshStore).run trivialEnv
      [.importNamespace (.write 1), .replica 1 (.open ⟨true⟩), .replica 1 (.open ⟨false⟩),
        .replica 1 .dropReplica]
    a.lifecycle.stored 1 = true ∧ a.lifecycle.handles 1 = 1 := by
  intro a
  rw [show a.lifecycle = _ from run_refines_lifecycle trivialEnv NamespaceTables.Inv.empty rfl _]
  decide

end Actor

end Iroh.Docs.Sync
