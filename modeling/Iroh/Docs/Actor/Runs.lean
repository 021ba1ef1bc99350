import Iroh.Docs.Actor
import Iroh.Lib.AList

/-! The docs actor over whole runs.

From a store that counts no replica open, every run keeps the actor and its store in step
(`Inv`): the store counts a replica open exactly when the actor holds it, the actor holds it by
at least one handle, and with the capability that the store keeps for its namespace. Importing a
namespace then never fails, and the open replica gets the capability the store merged. On such
states `DropReplica` deletes the document exactly when no other handle holds it, and otherwise
releases a handle and answers "replica is not closed". The handles and the stored documents
follow `Lifecycle`, a machine that counts the handles of each document. -/
namespace Iroh.Docs.Sync

open Ranger Store NamespaceTables

/-- An action on a replica that neither opens, closes nor drops it. -/
def ReplicaAction.Frame {P : Type} : ReplicaAction P → Prop
  | .open _ | .close | .dropReplica => False
  | _ => True

namespace Actor

variable {P : Type} [LinearOrder P] (env : Env)

/-! ### The invariant -/

/-- The actor and its store agree: the store counts a replica open exactly when the actor holds
it, by at least one handle and with the capability the store keeps for its namespace. -/
structure Inv (a : Actor P) : Prop where
  tables : a.store.tables.Inv
  open_iff : ∀ ns, ns ∈ a.store.openReplicas ↔ ns ∈ a.states
  handles_pos : ∀ ns st, a.states.lookup ns = some st → 0 < st.handles
  stored : ∀ ns st, a.states.lookup ns = some st → a.store.tables.namespaces ns = some st.info.capability

theorem Inv.new {s : DocStore P} (ht : s.tables.Inv) (ho : s.openReplicas = []) : (Actor.new s).Inv where
  tables := ht
  open_iff ns := by simp [Actor.new, ho, AList.notMem_empty]
  handles_pos ns st h := by simp [Actor.new, AList.lookup_empty] at h
  stored ns st h := by simp [Actor.new, AList.lookup_empty] at h

/-- What an action keeps that neither opens, closes, drops nor imports: the capability and the
handles of each open replica, the store's open set and namespaces, and the tables' invariant. -/
structure Keeps (a a' : Actor P) : Prop where
  held : ∀ ns, (a'.states.lookup ns).map (fun st => (st.info.capability, st.handles)) =
    (a.states.lookup ns).map (fun st => (st.info.capability, st.handles))
  openReplicas : a'.store.openReplicas = a.store.openReplicas
  namespaces : a'.store.tables.namespaces = a.store.tables.namespaces
  tables : a.store.tables.Inv → a'.store.tables.Inv
  running : a'.running = a.running

theorem Keeps.refl (a : Actor P) : Keeps a a := ⟨fun _ => rfl, rfl, rfl, id, rfl⟩

theorem Keeps.mem {a a' : Actor P} (hk : Keeps a a') (ns : NamespaceId) :
    ns ∈ a'.states ↔ ns ∈ a.states := by
  have h := congrArg Option.isSome (hk.held ns)
  rw [Option.isSome_map, Option.isSome_map] at h
  rw [← AList.lookup_isSome, ← AList.lookup_isSome, h]

theorem Keeps.lookup {a a' : Actor P} (hk : Keeps a a') {ns : NamespaceId} {st : OpenReplica}
    (h : a'.states.lookup ns = some st) :
    ∃ st₀, a.states.lookup ns = some st₀ ∧
      st.info.capability = st₀.info.capability ∧ st.handles = st₀.handles := by
  have hh := hk.held ns
  rw [h, Option.map_some] at hh
  cases h₀ : a.states.lookup ns with
  | none => simp [h₀] at hh
  | some st₀ =>
    simp only [h₀, Option.map_some, Option.some.injEq, Prod.mk.injEq] at hh
    exact ⟨st₀, rfl, hh⟩

theorem keeps_store {a : Actor P} {s : DocStore P} (ho : s.openReplicas = a.store.openReplicas)
    (ht : s.tables = a.store.tables) : Keeps a { a with store := s } :=
  ⟨fun _ => rfl, ho, by rw [ht], fun h => ht ▸ h, rfl⟩

theorem keeps_onReplicaAction (a : Actor P) (ns : NamespaceId) {act : ReplicaAction P} (hact : act.Frame) :
    Keeps a (a.onReplicaAction env ns act).1 := by
  cases act with
  | «open» | close | dropReplica => exact hact.elim
  | setSync sync =>
    simp only [onReplicaAction]
    split
    · rename_i st hst
      refine ⟨fun ns' => ?_, rfl, rfl, id, rfl⟩
      by_cases e : ns' = ns
      · subst e
        simp [AList.lookup_insert, OpenReplicas.getMut_eq_ok.mp hst]
      · simp [AList.lookup_insert_ne e]
    · exact Keeps.refl a
  | registerUsefulPeer peer nanos =>
    simp only [onReplicaAction]
    split
    · rename_i tables ht
      exact ⟨fun _ => rfl, rfl, namespaces_of_registerUsefulPeer ht, fun h => h.registerUsefulPeer ht,
        rfl⟩
    · exact Keeps.refl a
  | _ =>
    simp only [onReplicaAction]
    repeat' split
    all_goals first | exact Keeps.refl a | exact keeps_store rfl rfl

theorem Inv.keeps {a a' : Actor P} (h : a.Inv) (hk : Keeps a a') : a'.Inv where
  tables := hk.tables h.tables
  open_iff ns := by rw [hk.openReplicas, h.open_iff, hk.mem]
  handles_pos ns st hst := by
    obtain ⟨st₀, h₀, -, hh⟩ := hk.lookup hst
    rw [hh]
    exact h.handles_pos ns st₀ h₀
  stored ns st hst := by
    obtain ⟨st₀, h₀, hc, -⟩ := hk.lookup hst
    rw [hk.namespaces, hc]
    exact h.stored ns st₀ h₀

/-! ### What each action keeps -/

variable {a : Actor P} {ns : NamespaceId}

/-- One open replica put in place: the store counts it open, and it has a handle and the stored
capability. -/
theorem Inv.insert (h : a.Inv) {s : DocStore P} (ht : s.tables = a.store.tables)
    (ho : ∀ x, x ∈ s.openReplicas ↔ x = ns ∨ x ∈ a.store.openReplicas) {st : OpenReplica}
    (hpos : 0 < st.handles) (hs : a.store.tables.namespaces ns = some st.info.capability) :
    { a with states := a.states.insert ns st, store := s }.Inv where
  tables := ht ▸ h.tables
  open_iff x := by
    show x ∈ s.openReplicas ↔ x ∈ a.states.insert ns st
    rw [ho, AList.mem_insert, h.open_iff]
  handles_pos x st' hst := by
    rcases AList.lookup_insert_eq_some.mp hst with ⟨-, rfl⟩ | ⟨-, hst⟩
    · exact hpos
    · exact h.handles_pos x st' hst
  stored x st' hst := by
    show s.tables.namespaces x = _
    rw [ht]
    rcases AList.lookup_insert_eq_some.mp hst with ⟨rfl, rfl⟩ | ⟨-, hst⟩
    · exact hs
    · exact h.stored x st' hst

theorem Inv.mem_openReplicas (h : a.Inv) {st : OpenReplica} (hl : a.states.lookup ns = some st) :
    ns ∈ a.store.openReplicas :=
  (h.open_iff ns).mpr (AList.lookup_isSome.mp (by simp [hl]))

/-- A replica that stays open with other handles and the same capability. -/
theorem Inv.replace (h : a.Inv) {st₀ st : OpenReplica} (hl : a.states.lookup ns = some st₀)
    (hpos : 0 < st.handles) (hcap : st.info.capability = st₀.info.capability) :
    { a with states := a.states.insert ns st }.Inv :=
  h.insert rfl (fun _ => ⟨Or.inr, fun hx => hx.elim (fun e => e ▸ h.mem_openReplicas hl) id⟩) hpos
    (hcap ▸ h.stored ns st₀ hl)

/-- The store forgets a replica that the actor does not hold. -/
theorem Inv.closeReplica (h : a.Inv) (hl : a.states.lookup ns = none) :
    { a with store := a.store.closeReplica ns }.Inv where
  tables := h.tables
  open_iff x := by
    show x ∈ a.store.openReplicas.filter (· ≠ ns) ↔ x ∈ a.states
    have hns : ns ∉ a.states := AList.lookup_eq_none.mp hl
    rw [List.mem_filter, h.open_iff]
    constructor
    · exact fun hx => hx.1
    · intro hx
      exact ⟨hx, decide_eq_true (fun e => hns (e ▸ hx))⟩
  handles_pos := h.handles_pos
  stored := h.stored

/-- The last handle closes the replica, for the actor and for the store. -/
theorem Inv.erase (h : a.Inv) :
    { a with states := a.states.erase ns, store := a.store.closeReplica ns }.Inv where
  tables := h.tables
  open_iff x := by
    show x ∈ a.store.openReplicas.filter (· ≠ ns) ↔ x ∈ a.states.erase ns
    rw [List.mem_filter, AList.mem_erase, h.open_iff, decide_eq_true_iff, and_comm]
  handles_pos x st hst := h.handles_pos x st (AList.lookup_of_lookup_erase hst)
  stored x st hst := h.stored x st (AList.lookup_of_lookup_erase hst)

theorem Inv.open (h : a.Inv) {opts : OpenOpts} {a' : Actor P} (ho : a.open ns opts = .ok a') : a'.Inv := by
  cases hl : a.states.lookup ns with
  | some st =>
    simp only [Actor.open, OpenReplicas.openWith_of_some hl, Except.map, Except.ok.injEq] at ho
    subst ho
    exact h.replace hl (Nat.succ_pos _) rfl
  | none =>
    cases hn : a.store.tables.namespaces ns with
    | none =>
      simp [Actor.open, OpenReplicas.openWith_of_none hl, DocStore.loadReplicaInfo_of_none hn,
        Except.map] at ho
    | some c =>
      have hc : c.id = ns := h.tables.id_eq ns c hn
      simp only [Actor.open, OpenReplicas.openWith_of_none hl, DocStore.loadReplicaInfo_of_some hn, hc,
        Except.map, Except.ok.injEq] at ho
      subst ho
      have hs : a.store.tables.namespaces ns =
          some (⟨⟨c, false⟩, opts.sync, 1⟩ : OpenReplica).info.capability := hn
      exact h.insert (s := { a.store with openReplicas := a.store.openReplicas.insert ns }) rfl
        (fun x => List.mem_insert_iff) Nat.one_pos hs

theorem Inv.close (h : a.Inv) (ns : NamespaceId) : (a.close ns).1.Inv := by
  cases hl : a.states.lookup ns with
  | none =>
    rw [close_of_none hl]
    exact h.closeReplica hl
  | some st =>
    have hpos := h.handles_pos ns st hl
    rw [close_of_some hl hpos]
    split_ifs with h1
    · exact h.erase
    · exact h.replace hl (by show 0 < st.handles - 1; omega) rfl

/-- The store refuses to remove a replica exactly while the actor holds it. -/
theorem Inv.removeReplica_eq (h : a.Inv) (ns : NamespaceId) :
    a.store.removeReplica ns = if (a.states.lookup ns).isSome then .error (.store "replica is not closed")
      else .ok { a.store with
        tables := ⟨Function.update a.store.tables.namespaces ns none,
          Function.update a.store.tables.namespacePeers ns BTreeMap.empty⟩
        records := removeNamespace a.store.records ns } := by
  split_ifs with hs
  · exact DocStore.removeReplica_of_mem ((h.open_iff ns).mpr (AList.lookup_isSome.mp hs))
  · exact DocStore.removeReplica_of_not_mem fun hm => hs (AList.lookup_isSome.mpr ((h.open_iff ns).mp hm))

/-- Removing a replica the store does not count open: the actor does not hold it either. -/
theorem Inv.removeReplica (h : a.Inv) {s : DocStore P} (hr : a.store.removeReplica ns = .ok s) :
    { a with store := s }.Inv := by
  rw [h.removeReplica_eq ns] at hr
  split_ifs at hr with hs
  cases hr
  have hm : ns ∉ a.store.openReplicas := fun hm => hs (AList.lookup_isSome.mpr ((h.open_iff ns).mp hm))
  refine ⟨?_, h.open_iff, h.handles_pos, fun x st hst => ?_⟩
  · have ht : a.store.tables.removeReplica a.store.openReplicas ns =
        .ok ⟨Function.update a.store.tables.namespaces ns none,
          Function.update a.store.tables.namespacePeers ns BTreeMap.empty⟩ := by
      simp [NamespaceTables.removeReplica, hm]
    exact h.tables.removeReplica ht
  · have e : x ≠ ns := by
      rintro rfl
      simp [hst] at hs
    show Function.update a.store.tables.namespaces ns none x = _
    rw [Function.update_of_ne e]
    exact h.stored x st hst

/-- In a state where the actor and its store agree, importing a capability never fails: the
store keeps the merge of the stored and the imported capability, and the open replica of the
namespace, if there is one, holds that same capability afterwards. -/
theorem onAction_importNamespace (h : a.Inv) (capability : Capability) :
    ∃ c outcome, mergeExisting (a.store.tables.namespaces capability.id) capability = .ok (c, outcome) ∧
      ∃ states : OpenReplicas,
        a.onAction env (.importNamespace capability) =
          ({ a with
              states
              store := { a.store with tables := { a.store.tables with
                namespaces := Function.update a.store.tables.namespaces capability.id (some c) } } },
            .ok (.imported capability.id)) ∧
        ∀ ns, states.lookup ns = (a.states.lookup ns).map fun st =>
          if ns = capability.id then { st with info := { st.info with capability := c } } else st := by
  have hid : ∀ e, a.store.tables.namespaces capability.id = some e → e.id = capability.id :=
    fun e he => h.tables.id_eq _ e he
  obtain ⟨⟨c, outcome⟩, hm⟩ :
      ∃ r, mergeExisting (a.store.tables.namespaces capability.id) capability = .ok r := by
    cases he : a.store.tables.namespaces capability.id with
    | none => exact ⟨_, rfl⟩
    | some e =>
      obtain ⟨r, hr⟩ := Capability.merge_of_id_eq (hid e he).symm
      exact ⟨(r.1, if r.2 then .upgraded else .noChange), by simp [mergeExisting, hr, Except.map]⟩
  have hc : c.id = capability.id := id_of_mergeExisting hid hm
  have hstore : a.store.importNamespace capability = .ok ({ a.store with tables := { a.store.tables with
      namespaces := Function.update a.store.tables.namespaces capability.id (some c) } }, outcome) := by
    simp [DocStore.importNamespace, NamespaceTables.importNamespace, hm, Except.map, hc]
  refine ⟨c, outcome, hm, ?_⟩
  cases hl : a.states.lookup capability.id with
  | none =>
    refine ⟨a.states, ?_, fun ns => ?_⟩
    · simp only [onAction, hstore, OpenReplicas.getMut_of_none hl, ite_self]
    · by_cases e : ns = capability.id
      · subst e
        simp [hl]
      · simp [e]
  | some st =>
    rw [h.stored _ st hl] at hm
    obtain ⟨upgraded, hmerge, rfl⟩ := mergeExisting_some.mp hm
    cases upgraded with
    | true =>
      refine ⟨a.states.insert capability.id { st with info := { st.info with capability := c } }, ?_,
        fun ns => ?_⟩
      · simp [onAction, hstore, OpenReplicas.getMut_eq_ok.mpr hl, hmerge]
      · by_cases e : ns = capability.id
        · subst e
          simp [AList.lookup_insert, hl]
        · simp [AList.lookup_insert_ne e, e]
    | false =>
      have hself : c = st.info.capability := Capability.eq_self_of_merge hmerge
      refine ⟨a.states, ?_, fun ns => ?_⟩
      · simp [onAction, hstore]
      · by_cases e : ns = capability.id
        · subst e hself
          simp [hl]
        · simp [e]

theorem Inv.importNamespace (h : a.Inv) (capability : Capability) :
    (a.onAction env (.importNamespace capability)).1.Inv := by
  obtain ⟨c, outcome, hm, states, heq, hlookup⟩ := onAction_importNamespace env h capability
  rw [heq]
  have hc : c.id = capability.id := id_of_mergeExisting (fun e he => h.tables.id_eq _ e he) hm
  have hmem : ∀ ns, ns ∈ states ↔ ns ∈ a.states := fun ns => by
    rw [← AList.lookup_isSome, ← AList.lookup_isSome, hlookup, Option.isSome_map]
  refine ⟨?_, fun ns => ?_, fun ns st hst => ?_, fun ns st hst => ?_⟩
  · have ht : a.store.tables.importNamespace capability = .ok ({ a.store.tables with
        namespaces := Function.update a.store.tables.namespaces capability.id (some c) }, outcome) := by
      simp [NamespaceTables.importNamespace, hm, Except.map, hc]
    exact h.tables.importNamespace ht
  · show ns ∈ a.store.openReplicas ↔ ns ∈ states
    rw [h.open_iff, hmem]
  · rw [hlookup] at hst
    obtain ⟨st₀, h₀, rfl⟩ := Option.map_eq_some_iff.mp hst
    split_ifs <;> exact h.handles_pos ns st₀ h₀
  · rw [hlookup] at hst
    obtain ⟨st₀, h₀, rfl⟩ := Option.map_eq_some_iff.mp hst
    show Function.update a.store.tables.namespaces capability.id (some c) ns = _
    by_cases e : ns = capability.id
    · subst e
      simp
    · rw [Function.update_of_ne e, if_neg e]
      exact h.stored ns st₀ h₀

/-- At shutdown every replica is closed, for the actor and for the store. -/
theorem Inv.shutdown (h : a.Inv) : { a.closeAll with running := false }.Inv where
  tables := by
    show (a.states.keys.foldl DocStore.closeReplica a.store).tables.Inv
    rw [DocStore.foldl_closeReplica]
    exact h.tables
  open_iff ns := by
    show ns ∈ (a.states.keys.foldl DocStore.closeReplica a.store).openReplicas ↔
      ns ∈ (∅ : OpenReplicas)
    have hkeys : ns ∈ a.store.openReplicas → ns ∈ a.states.keys :=
      fun hn => AList.mem_keys.mp ((h.open_iff ns).mp hn)
    rw [DocStore.foldl_closeReplica]
    simpa [AList.notMem_empty] using hkeys
  handles_pos ns st hst := by simp [closeAll, AList.lookup_empty] at hst
  stored ns st hst := by simp [closeAll, AList.lookup_empty] at hst

theorem Inv.onReplicaAction (h : a.Inv) (ns : NamespaceId) (act : ReplicaAction P) :
    (a.onReplicaAction env ns act).1.Inv := by
  cases act with
  | «open» opts =>
    simp only [Actor.onReplicaAction]
    split
    · exact h.open ‹_›
    · exact h
  | close => exact h.close ns
  | dropReplica =>
    simp only [Actor.onReplicaAction]
    split
    · exact (h.close ns).removeReplica ‹_›
    · exact h.close ns
  | _ => exact h.keeps (keeps_onReplicaAction env a ns trivial)

theorem Inv.step (h : a.Inv) (action : Action P) : (a.step env action).1.Inv := by
  unfold Actor.step
  split
  · cases action with
    | importAuthor author => exact h.keeps (keeps_store rfl rfl)
    | exportAuthor author => exact h
    | deleteAuthor author => exact h.keeps (keeps_store rfl rfl)
    | importNamespace capability => exact h.importNamespace env capability
    | replica ns act => exact h.onReplicaAction env ns act
    | shutdown => exact h.shutdown
  · exact h

theorem Inv.run (h : a.Inv) (actions : List (Action P)) : (a.run env actions).Inv := by
  induction actions generalizing a with
  | nil => exact h
  | cons action actions ih => exact ih (h.step env action)

/-- **The actor and its store agree over every run.** From a store that counts no replica open,
after any actions the store counts a replica open exactly when the actor holds it, and each
replica the actor holds has at least one handle and the capability stored for its namespace. -/
theorem run_store_agrees {s : DocStore P} (ht : s.tables.Inv) (ho : s.openReplicas = [])
    (actions : List (Action P)) :
    let a := (Actor.new s).run env actions
    (∀ ns, ns ∈ a.store.openReplicas ↔ ns ∈ a.states) ∧
      ∀ ns st, a.states.lookup ns = some st →
        0 < st.handles ∧ a.store.tables.namespaces ns = some st.info.capability := by
  have h := (Inv.new ht ho).run env actions
  exact ⟨h.open_iff, fun ns st hst => ⟨h.handles_pos ns st hst, h.stored ns st hst⟩⟩

theorem rows_nil_sorted : ([] : List (RecordIdentifier × RecordsValue)).Pairwise fun a b => a.1 < b.1 :=
  .nil

/-- A store with no records, no namespaces and no authors. -/
def freshStore : DocStore Nat := ⟨⟨[], rows_nil_sorted⟩, NamespaceTables.empty, [], []⟩

/-- Signatures of zeros, each accepted. -/
def trivialEnv : Env := ⟨fun _ _ _ => ⟨0, 0⟩, fun _ => true, 0, fun _ => 0, none⟩

/-- Namespace 1 imported with its secret and opened by a syncing handle. -/
theorem run_store_agrees_open :
    let a := (Actor.new freshStore).run trivialEnv
      [.importNamespace (.write 1), .replica 1 (.open ⟨true⟩)]
    (∀ ns, ns ∈ a.store.openReplicas ↔ ns ∈ a.states) ∧
      ∀ ns st, a.states.lookup ns = some st →
        0 < st.handles ∧ a.store.tables.namespaces ns = some st.info.capability :=
  run_store_agrees trivialEnv NamespaceTables.Inv.empty rfl _

/-- **Importing reaches the open replica.** In every run from a store that counts no replica
open, while the actor runs, importing a capability succeeds: the store keeps the merge of the
stored and the imported capability under the namespace, and a replica of the namespace that is
open holds that same capability afterwards. -/
theorem import_reaches_open_replica {s : DocStore P} (ht : s.tables.Inv) (ho : s.openReplicas = [])
    (actions : List (Action P)) (capability : Capability) :
    let a := (Actor.new s).run env actions
    a.running = true →
      ∃ c outcome, mergeExisting (a.store.tables.namespaces capability.id) capability = .ok (c, outcome) ∧
        (a.step env (.importNamespace capability)).2 = .ok (.imported capability.id) ∧
        (a.step env (.importNamespace capability)).1.store.tables.namespaces capability.id = some c ∧
        ∀ st, (a.step env (.importNamespace capability)).1.states.lookup capability.id = some st →
          st.info.capability = c := by
  intro a hr
  have h : a.Inv := (Inv.new ht ho).run env actions
  obtain ⟨c, outcome, hm, states, heq, hlookup⟩ := onAction_importNamespace env h capability
  have hstep : a.step env (.importNamespace capability) = a.onAction env (.importNamespace capability) :=
    if_pos hr
  refine ⟨c, outcome, hm, ?_⟩
  rw [hstep, heq]
  refine ⟨rfl, by simp, fun st hst => ?_⟩
  rw [hlookup] at hst
  obtain ⟨st₀, -, rfl⟩ := Option.map_eq_some_iff.mp hst
  simp

/-- Namespace 1 imported with read access and opened, then imported with its secret: the open
replica gets the secret. -/
theorem import_reaches_open_replica_upgrade :
    let a := (Actor.new freshStore).run trivialEnv [.importNamespace (.read 1), .replica 1 (.open ⟨true⟩)]
    a.running = true ∧
      ∃ c outcome, mergeExisting (a.store.tables.namespaces (Capability.write 1).id) (.write 1) =
          .ok (c, outcome) ∧
        (a.step trivialEnv (.importNamespace (.write 1))).2 = .ok (.imported (Capability.write 1).id) ∧
        (a.step trivialEnv (.importNamespace (.write 1))).1.store.tables.namespaces (Capability.write 1).id =
          some c ∧
        ∀ st, (a.step trivialEnv (.importNamespace (.write 1))).1.states.lookup (Capability.write 1).id =
          some st → st.info.capability = c :=
  ⟨rfl, import_reaches_open_replica trivialEnv NamespaceTables.Inv.empty rfl _ _ rfl⟩

/-- **Shutting down closes every replica.** In every run from a store that counts no replica
open, `Shutdown` leaves the actor holding no replica and a store that counts none open, with its
tables as they were; no later action changes anything. -/
theorem shutdown_closes_all {s : DocStore P} (ht : s.tables.Inv) (ho : s.openReplicas = [])
    (actions : List (Action P)) :
    let a := (Actor.new s).run env actions
    a.running = true →
      let a' := (a.step env .shutdown).1
      a'.store.openReplicas = [] ∧ a'.states = ∅ ∧ a'.store.tables = a.store.tables ∧
        ∀ later, a'.run env later = a' := by
  intro a hr
  have h : a.Inv := (Inv.new ht ho).run env actions
  have hstep : (a.step env .shutdown).1 = { a.closeAll with running := false } := by
    rw [Actor.step, if_pos hr]
    rfl
  have h' := h.step env .shutdown
  rw [hstep] at h' ⊢
  refine ⟨List.eq_nil_iff_forall_not_mem.mpr fun ns hns => ?_, rfl, ?_,
    fun later => run_of_not_running env rfl later⟩
  · exact AList.notMem_empty ns ((h'.open_iff ns).mp hns)
  · show (a.states.keys.foldl DocStore.closeReplica a.store).tables = a.store.tables
    rw [DocStore.foldl_closeReplica]

/-- Namespace 1 opened, then the actor shut down. -/
theorem shutdown_closes_all_open :
    let a := (Actor.new freshStore).run trivialEnv
      [.importNamespace (.write 1), .replica 1 (.open ⟨true⟩)]
    a.running = true ∧
      let a' := (a.step trivialEnv .shutdown).1
      a'.store.openReplicas = [] ∧ a'.states = ∅ ∧ a'.store.tables = a.store.tables ∧
        ∀ later, a'.run trivialEnv later = a' :=
  ⟨rfl, shutdown_closes_all trivialEnv NamespaceTables.Inv.empty rfl _ rfl⟩

/-! ### Dropping a replica -/


/-- **`DropReplica` deletes a document only when no other handle holds it.** In a state where the
actor and its store agree, dropping releases one handle; while another handle holds the replica
the store refuses with "replica is not closed" and nothing else changes, and otherwise the
namespace's capability, its peers and its records are gone and the store no longer counts it
open. -/
theorem step_dropReplica (h : a.Inv) (hr : a.running = true) (ns : NamespaceId) :
    a.step env (.replica ns .dropReplica) =
      if (a.states.lookup ns).any (fun st => 1 < st.handles) then
        ({ a with states := (a.states.close ns).1 }, .error (.store "replica is not closed"))
      else
        ({ a with
            states := (a.states.close ns).1
            store := { a.store with
              tables := ⟨Function.update a.store.tables.namespaces ns none,
                Function.update a.store.tables.namespacePeers ns BTreeMap.empty⟩
              records := removeNamespace a.store.records ns
              openReplicas := a.store.openReplicas.filter (· ≠ ns) } }, .ok .done) := by
  have hstep : a.step env (.replica ns .dropReplica) = a.onReplicaAction env ns .dropReplica := by
    rw [Actor.step, if_pos hr]
    rfl
  have hclosed : ns ∉ (a.store.closeReplica ns).openReplicas := by simp [DocStore.closeReplica]
  rw [hstep]
  cases hl : a.states.lookup ns with
  | none =>
    simp [Actor.onReplicaAction, close_of_none hl, DocStore.removeReplica_of_not_mem hclosed,
      OpenReplicas.close_of_none hl]
    simp [DocStore.closeReplica]
  | some st =>
    have hpos := h.handles_pos ns st hl
    by_cases h1 : st.handles = 1
    · simp [Actor.onReplicaAction, close_of_some hl hpos, h1, DocStore.removeReplica_of_not_mem hclosed,
        OpenReplicas.close_of_some hl hpos]
      simp [DocStore.closeReplica]
    · -- another handle holds it, so the store still counts it open
      have hlt : 1 < st.handles := by omega
      simp [Actor.onReplicaAction, close_of_some hl hpos, h1,
        DocStore.removeReplica_of_mem (h.mem_openReplicas hl), OpenReplicas.close_of_some hl hpos, hlt]

/-- Namespace 1 held by two handles: dropping it is refused. -/
theorem step_dropReplica_held :
    let a := (Actor.new freshStore).run trivialEnv
      [.importNamespace (.write 1), .replica 1 (.open ⟨true⟩), .replica 1 (.open ⟨false⟩)]
    (a.step trivialEnv (.replica 1 .dropReplica)).2 = .error (.store "replica is not closed") := by
  intro a
  have h : a.Inv := (Inv.new NamespaceTables.Inv.empty rfl).run trivialEnv _
  rw [step_dropReplica trivialEnv h rfl 1]
  rfl

end Actor

end Iroh.Docs.Sync
