import Iroh.Gossip.Hyparview
import Iroh.Lib.Machine

/-! What a HyParView handler does to the views and to the neighbor events.

Two facts hold of every handler (`Moves`). The *view invariant* (`ViewsInv`) is
kept: the views stay disjoint, our own id stays out of both, and each stays
within its capacity, given capacities that are positive. And the *neighbor
events* mirror the active view: for every peer, the `NeighborUp`/`NeighborDown`
events the handler emits flip its membership in the active view one by one, a
switch going on (`Toggle.follow`). Both come from the few places the views
change: `add_passive` inserts into the passive view after a random eviction,
`remove_active_by_index` removes one active peer and emits `NeighborDown`, and
`add_active_unchecked` inserts one and emits `NeighborUp`. Every other step only
records data, draws random numbers or sends messages (`Quiet`).

`Moves` composes (`Moves.trans`), so each handler's lemma follows the handler's
own structure, and `handle_moves` carries it through every event. -/

namespace Iroh.Gossip.Hyparview

namespace State

variable {PI RG : Type} [DecidableEq PI] (R : Rng RG)

/-! ### Neighbor events -/

/-- A peer's neighbor events among the output, as switch events: `NeighborUp` is on. -/
def neighborFlags (p : PI) (out : Outbox PI) : List Bool :=
  out.filterMap fun
    | .emitEvent (.neighborUp q) => if q = p then some true else none
    | .emitEvent (.neighborDown q) => if q = p then some false else none
    | _ => none

/-- Events that emit nothing to the application. -/
def Quiet (out : Outbox PI) : Prop := ∀ e ∈ out, ∀ ev, e ≠ .emitEvent ev

@[simp] theorem neighborFlags_append (p : PI) (out₁ out₂ : Outbox PI) :
    neighborFlags p (out₁ ++ out₂) = neighborFlags p out₁ ++ neighborFlags p out₂ :=
  List.filterMap_append

theorem neighborFlags_of_quiet {out : Outbox PI} (h : Quiet out) (p : PI) : neighborFlags p out = [] := by
  refine List.filterMap_eq_nil_iff.mpr fun e he => ?_
  match e, h e he with
  | .sendMessage _ _, _ => rfl
  | .scheduleTimer _ _, _ => rfl
  | .disconnectPeer _, _ => rfl
  | .emitEvent ev, hq => exact absurd rfl (hq ev)
  | .peerData _ _, _ => rfl

theorem neighborFlags_up (p q : PI) :
    neighborFlags p [.emitEvent (.neighborUp q)] = if q = p then [true] else [] := by
  by_cases h : q = p <;> simp [neighborFlags, h]

theorem neighborFlags_down (p q : PI) :
    neighborFlags p [.emitEvent (.neighborDown q)] = if q = p then [false] else [] := by
  by_cases h : q = p <;> simp [neighborFlags, h]

/-! ### The view invariant -/

/-- The view invariant: disjoint views without us, each within its capacity, and
capacities that are positive. -/
structure ViewsInv (s : State PI RG) : Prop where
  disjoint : ∀ p ∈ s.activeView, p ∉ s.passiveView
  me_not_active : s.me ∉ s.activeView
  me_not_passive : s.me ∉ s.passiveView
  active_le : s.activeView.len ≤ s.config.activeViewCapacity
  passive_le : s.passiveView.len ≤ s.config.passiveViewCapacity
  active_pos : 0 < s.config.activeViewCapacity
  passive_pos : 0 < s.config.passiveViewCapacity

variable {R}

omit [DecidableEq PI] in
/-- Taking peers out of either view keeps the invariant. -/
theorem ViewsInv.mono {s s' : State PI RG} (h : ViewsInv s) (hme : s'.me = s.me)
    (hc : s'.config = s.config) (ha : ∀ x ∈ s'.activeView, x ∈ s.activeView)
    (hp : ∀ x ∈ s'.passiveView, x ∈ s.passiveView) (hla : s'.activeView.len ≤ s.activeView.len)
    (hlp : s'.passiveView.len ≤ s.passiveView.len) : ViewsInv s' where
  disjoint x hx hx' := h.disjoint x (ha x hx) (hp x hx')
  me_not_active hx := h.me_not_active (hme ▸ ha _ hx)
  me_not_passive hx := h.me_not_passive (hme ▸ hp _ hx)
  active_le := hc ▸ Nat.le_trans hla h.active_le
  passive_le := hc ▸ Nat.le_trans hlp h.passive_le
  active_pos := hc ▸ h.active_pos
  passive_pos := hc ▸ h.passive_pos

omit [DecidableEq PI] in
theorem ViewsInv.of_views {s s' : State PI RG} (h : ViewsInv s) (hme : s'.me = s.me)
    (hc : s'.config = s.config) (ha : s'.activeView = s.activeView)
    (hp : s'.passiveView = s.passiveView) : ViewsInv s' :=
  h.mono hme hc (fun _ hx => ha ▸ hx) (fun _ hx => hp ▸ hx)
    (Nat.le_of_eq (congrArg _ ha)) (Nat.le_of_eq (congrArg _ hp))

/-- A peer that is neither active nor us fits into a passive view with room. -/
theorem ViewsInv.insertPassive {s : State PI RG} (h : ViewsInv s) {peer : PI}
    (hna : peer ∉ s.activeView) (hme : peer ≠ s.me)
    (hroom : s.passiveView.len < s.config.passiveViewCapacity) :
    ViewsInv { s with passiveView := s.passiveView.insert peer } where
  disjoint x hx hx' := by
    rcases IndexSet.mem_insert.mp hx' with hx' | rfl
    · exact h.disjoint x hx hx'
    · exact hna hx
  me_not_active := h.me_not_active
  me_not_passive hx := by
    rcases IndexSet.mem_insert.mp hx with hx | hx
    · exact h.me_not_passive hx
    · exact hme hx.symm
  active_le := h.active_le
  passive_le := Nat.le_trans (IndexSet.len_insert_le _ _) hroom
  active_pos := h.active_pos
  passive_pos := h.passive_pos

/-- A full passive view has room after a random eviction. -/
theorem ViewsInv.evictPassive {s : State PI RG} (h : ViewsInv s) {a : Option PI}
    {passiveView : IndexSet PI} {rng : RG}
    (hfull : s.config.passiveViewCapacity ≤ s.passiveView.len)
    (hr : s.passiveView.removeRandom R s.rng = (a, passiveView, rng)) :
    ViewsInv { s with passiveView, rng } ∧ passiveView.len < s.config.passiveViewCapacity := by
  have hne : s.passiveView.len ≠ 0 := by have := h.passive_pos; omega
  have hlen := IndexSet.len_removeRandom R s.rng hne
  have hmem := fun x => IndexSet.mem_removeRandom R (s := s.passiveView) (g := s.rng) (x := x)
  rw [hr] at hlen hmem
  dsimp only at hlen hmem
  refine ⟨h.mono rfl rfl (fun _ hx => hx) (fun x hx => ((hmem x).mp hx).1) (Nat.le_refl _) ?_, ?_⟩
  · show passiveView.len ≤ s.passiveView.len
    omega
  · have := h.passive_le
    omega

/-- A peer that is not us fits into an active view with room, leaving the passive
view. -/
theorem ViewsInv.insertActive {s : State PI RG} (h : ViewsInv s) {peer : PI}
    (hme : peer ≠ s.me) (hroom : s.activeView.len < s.config.activeViewCapacity) :
    ViewsInv { s with passiveView := (s.passiveView.remove peer).2, activeView := s.activeView.insert peer } where
  disjoint x hx hx' := by
    have ⟨hx', hne⟩ := IndexSet.mem_remove.mp hx'
    rcases IndexSet.mem_insert.mp hx with hx | rfl
    · exact h.disjoint x hx hx'
    · exact hne rfl
  me_not_active hx := by
    rcases IndexSet.mem_insert.mp hx with hx | hx
    · exact h.me_not_active hx
    · exact hme hx.symm
  me_not_passive hx := h.me_not_passive (IndexSet.mem_remove.mp hx).1
  active_le := Nat.le_trans (IndexSet.len_insert_le _ _) hroom
  passive_le := Nat.le_trans (IndexSet.len_remove_le _ _) h.passive_le
  active_pos := h.active_pos
  passive_pos := h.passive_pos

/-! ### What a handler does -/

/-- What a handler emits: our id and the configuration stay, and each peer's neighbor
events flip its membership in the active view. -/
structure Emits (s : State PI RG) (io : Outbox PI) (s' : State PI RG) (io' : Outbox PI) : Prop where
  me : s'.me = s.me
  config : s'.config = s.config
  events : ∃ new, io' = io ++ new ∧ ∀ p,
    Toggle.follow (decide (p ∈ s.activeView)) (neighborFlags p new) = some (decide (p ∈ s'.activeView))

/-- One handler's effect: what it emits, and it keeps the view invariant. -/
structure Moves (s : State PI RG) (io : Outbox PI) (s' : State PI RG) (io' : Outbox PI) : Prop
    extends Emits s io s' io' where
  viewsInv : ViewsInv s → ViewsInv s'

theorem Emits.trans {s₁ s₂ s₃ : State PI RG} {io₁ io₂ io₃ : Outbox PI} (h₁ : Emits s₁ io₁ s₂ io₂)
    (h₂ : Emits s₂ io₂ s₃ io₃) : Emits s₁ io₁ s₃ io₃ where
  me := h₂.me.trans h₁.me
  config := h₂.config.trans h₁.config
  events := by
    obtain ⟨new₁, rfl, hf₁⟩ := h₁.events
    obtain ⟨new₂, rfl, hf₂⟩ := h₂.events
    refine ⟨new₁ ++ new₂, List.append_assoc _ _ _, fun p => ?_⟩
    rw [neighborFlags_append]
    exact Toggle.follow_trans (hf₁ p) (hf₂ p)

theorem Moves.refl (s : State PI RG) (io : Outbox PI) : Moves s io s io where
  me := rfl
  config := rfl
  events := ⟨[], by simp, fun _ => rfl⟩
  viewsInv := id

theorem Moves.trans {s₁ s₂ s₃ : State PI RG} {io₁ io₂ io₃ : Outbox PI} (h₁ : Moves s₁ io₁ s₂ io₂)
    (h₂ : Moves s₂ io₂ s₃ io₃) : Moves s₁ io₁ s₃ io₃ :=
  { h₁.toEmits.trans h₂.toEmits with viewsInv := fun h => h₂.viewsInv (h₁.viewsInv h) }

/-- A step that leaves the views alone and emits nothing to the application. -/
theorem Moves.quiet {s s' : State PI RG} {io : Outbox PI} {new : Outbox PI} (hme : s'.me = s.me)
    (hc : s'.config = s.config) (ha : s'.activeView = s.activeView)
    (hp : s'.passiveView = s.passiveView) (hq : Quiet new) : Moves s io s' (io ++ new) where
  viewsInv h := h.of_views hme hc ha hp
  me := hme
  config := hc
  events := ⟨new, rfl, fun p => by rw [neighborFlags_of_quiet hq, ha]; rfl⟩

/-- A step that only changes the passive view, and keeps the invariant. -/
theorem Moves.passive {s s' : State PI RG} {io : Outbox PI} (hv : ViewsInv s → ViewsInv s')
    (hme : s'.me = s.me) (hc : s'.config = s.config) (ha : s'.activeView = s.activeView) :
    Moves s io s' io where
  me := hme
  config := hc
  events := ⟨[], by simp, fun p => by rw [ha]; rfl⟩
  viewsInv := hv

/-- A step that changes neither our id, the configuration nor the views. -/
theorem Moves.frame {s s' : State PI RG} {io : Outbox PI} (hme : s'.me = s.me)
    (hc : s'.config = s.config) (ha : s'.activeView = s.activeView)
    (hp : s'.passiveView = s.passiveView) : Moves s io s' io := by
  have : Moves s io s' (io ++ []) := Moves.quiet hme hc ha hp (fun _ h => absurd h List.not_mem_nil)
  rwa [List.append_nil] at this

/-- A step that changes neither our id, the configuration nor the views, before a move. -/
theorem Moves.of_frame {s s₁ s' : State PI RG} {io io' : Outbox PI} (h : Moves s₁ io s' io')
    (hme : s₁.me = s.me) (hc : s₁.config = s.config) (ha : s₁.activeView = s.activeView)
    (hp : s₁.passiveView = s.passiveView) : Moves s io s' io' :=
  (Moves.frame hme hc ha hp).trans h

omit [DecidableEq PI] in
theorem quiet_sendMessage (peer : PI) (m : Message PI) : Quiet [.sendMessage peer m] := by
  simp [Quiet]

/-! ### The moves -/

theorem insertPeerInfo_moves {s s' : State PI RG} {info : PeerInfo PI} {io io' : Outbox PI}
    (hr : s.insertPeerInfo info io = (s', io')) :
    Moves s io s' io' ∧ s'.activeView = s.activeView := by
  unfold insertPeerInfo at hr
  split at hr
  · cases hr
    exact ⟨.refl s io, rfl⟩
  · cases hr
    refine ⟨?_, rfl⟩
    split
    · exact .frame rfl rfl rfl rfl
    · exact .quiet rfl rfl rfl rfl (by simp [Quiet])

/-- `add_passive` leaves the active view alone. -/
theorem addPassive_moves {s s' : State PI RG} {peer : PI} {data : Option PeerData}
    {io io' : Outbox PI} (hr : s.addPassive R peer data io = (s', io')) :
    Moves s io s' io' ∧ s'.activeView = s.activeView := by
  unfold State.addPassive at hr
  split at hr
  rename_i s₁ io₁ h₁
  obtain ⟨hm₁, ha₁⟩ := insertPeerInfo_moves h₁
  split at hr
  · cases hr
    exact ⟨hm₁, ha₁⟩
  · rename_i hnew
    simp only [Bool.or_eq_true, IndexSet.contains_iff, beq_iff_eq, not_or] at hnew
    obtain ⟨⟨hna, -⟩, hme⟩ := hnew
    refine ⟨hm₁.trans ?_, ?_⟩
    · split at hr
      · -- a full view: evict a random peer first
        rename_i hfull
        split at hr
        rename_i a passiveView rng hrr
        cases hr
        refine .passive (fun h => ?_) rfl rfl rfl
        obtain ⟨h₂, hroom⟩ := h.evictPassive (by simpa [passiveIsFull] using hfull) hrr
        exact h₂.insertPassive hna hme hroom
      · rename_i hfull
        cases hr
        exact .passive (fun h => h.insertPassive hna hme (by simpa [passiveIsFull] using hfull))
          rfl rfl rfl
    · split at hr
      · split at hr
        cases hr
        exact ha₁
      · cases hr
        exact ha₁

/-- Removing one active peer, announced by a `NeighborDown` among quiet events. -/
theorem Moves.removeOne {s s' : State PI RG} {io : Outbox PI} {q : PI} {pre : Outbox PI}
    (hq : q ∈ s.activeView) (hmem : ∀ x, x ∈ s'.activeView ↔ x ∈ s.activeView ∧ x ≠ q)
    (hlen : s'.activeView.len ≤ s.activeView.len) (hme : s'.me = s.me)
    (hc : s'.config = s.config) (hp : s'.passiveView = s.passiveView) (hpre : Quiet pre) :
    Moves s io s' (io ++ (pre ++ [.disconnectPeer q, .emitEvent (.neighborDown q)])) where
  viewsInv h := h.mono hme hc (fun x hx => ((hmem x).mp hx).1) (fun _ hx => hp ▸ hx) hlen
    (Nat.le_of_eq (congrArg _ hp))
  me := hme
  config := hc
  events := by
    refine ⟨_, rfl, fun p => ?_⟩
    have hd : neighborFlags p [.disconnectPeer q] = [] := rfl
    rw [neighborFlags_append, neighborFlags_of_quiet hpre,
      show [OutEvent.disconnectPeer q, .emitEvent (.neighborDown q)] =
        [.disconnectPeer q] ++ [.emitEvent (.neighborDown q)] from rfl,
      neighborFlags_append, hd, neighborFlags_down]
    by_cases hqp : q = p
    · subst hqp
      simp [hq, hmem]
      rfl
    · simp [hqp, hmem, Ne.symm hqp]

/-- `remove_active_by_index` removes the peer at the index, if there is one. -/
theorem removeActiveByIndex_moves {s s' : State PI RG} {i : Nat} {respond : Bool}
    {io io' : Outbox PI} {removed : Option PI}
    (hr : s.removeActiveByIndex R i respond io = (s', io', removed)) :
    Moves s io s' io' ∧ s'.activeView = (s.activeView.swapRemoveIndex i).2 ∧
      removed = (s.activeView.swapRemoveIndex i).1 := by
  unfold removeActiveByIndex at hr
  split at hr
  · rename_i peer activeView hsw
    generalize hio : (if respond = true then io ++ [OutEvent.sendMessage peer (.disconnect true false)]
      else io) = io₁ at hr
    dsimp -iota only at hr
    split at hr
    rename_i s₂ io₂ hp
    cases hr
    obtain ⟨hm₂, ha₂⟩ := addPassive_moves hp
    have hmem := fun x => IndexSet.mem_swapRemoveIndex (s := s.activeView) (i := i) (x := x)
    have hlen := IndexSet.len_swapRemoveIndex s.activeView i
    rw [hsw] at hmem hlen
    have hpeer : peer ∈ s.activeView := IndexSet.swapRemoveIndex_fst_mem (by rw [hsw])
    refine ⟨Moves.trans ?_ hm₂, by rw [ha₂, hsw], by rw [hsw]⟩
    have hq : Quiet (if respond then [OutEvent.sendMessage peer (.disconnect true false)] else []) := by
      split <;> simp [Quiet]
    have : Moves s io { s with activeView, peerData := Function.update s.peerData peer none } _ :=
      Moves.removeOne (q := peer)
      hpeer (fun x => by simpa [eq_comm] using hmem x) (by dsimp only at hlen ⊢; split at hlen <;> omega)
      rfl rfl rfl hq
    convert this using 1
    subst hio
    split <;> simp
  · rename_i a activeView hsw
    cases hr
    have hnone : (s.activeView.swapRemoveIndex i).1 = none := by rw [hsw]
    exact ⟨.refl s io, (IndexSet.swapRemoveIndex_of_fst_eq_none hnone).symm, hnone.symm⟩

theorem refillActiveFromPassive_moves {s s' : State PI RG} {skipPeers : List PI}
    {io io' : Outbox PI} (hr : s.refillActiveFromPassive R skipPeers io = (s', io')) :
    Moves s io s' io' ∧ s'.activeView = s.activeView := by
  unfold refillActiveFromPassive at hr
  split at hr
  · cases hr
    exact ⟨.refl s io, rfl⟩
  · dsimp -iota only at hr
    rcases hpick : IndexSet.pickRandomWithout R s.passiveView
      (skipPeers ++ s.pendingNeighborRequests.toList) s.rng with ⟨_ | node, rng⟩ <;>
      rw [hpick] at hr <;> cases hr
    · exact ⟨.frame rfl rfl rfl rfl, rfl⟩
    · exact ⟨.quiet rfl rfl rfl rfl (by simp [Quiet]), rfl⟩

/-- `remove_active` leaves the peer out of the active view. -/
theorem removeActive_moves {s s' : State PI RG} {peer : PI} {respond : Bool} {io io' : Outbox PI}
    {removed : Option PI} (hr : s.removeActive R peer respond io = (s', io', removed)) :
    Moves s io s' io' ∧ peer ∉ s'.activeView := by
  unfold removeActive at hr
  split at hr
  · rename_i idx hidx
    obtain ⟨hlt, hget⟩ := IndexSet.getIndexOf_eq_some hidx
    split at hr
    · rename_i s₂ io₂ removedPeer h₂
      split at hr
      rename_i s₃ io₃ h₃
      cases hr
      obtain ⟨hm₂, ha₂, -⟩ := removeActiveByIndex_moves h₂
      obtain ⟨hm₃, ha₃⟩ := refillActiveFromPassive_moves h₃
      refine ⟨hm₂.trans hm₃, ?_⟩
      rw [ha₃, ha₂, IndexSet.mem_swapRemoveIndex]
      simp [IndexSet.swapRemoveIndex, hlt, hget]
    · -- the removal cannot fail at an index just looked up
      rename_i s₂ io₂ h₂
      obtain ⟨-, -, hnone⟩ := removeActiveByIndex_moves h₂
      simp [IndexSet.swapRemoveIndex, hlt] at hnone
  · rename_i hnone
    cases hr
    exact ⟨.refl s io, IndexSet.getIndexOf_eq_none.mp hnone⟩

/-- `free_random_slot_in_active_view` removes one peer from an active view that has one. -/
theorem freeRandomSlotInActiveView_moves {s s' : State PI RG} {io io' : Outbox PI}
    (hr : s.freeRandomSlotInActiveView R io = (s', io')) :
    Moves s io s' io' ∧ (∀ x ∈ s'.activeView, x ∈ s.activeView) ∧
      (s.activeView.len ≠ 0 → s'.activeView.len = s.activeView.len - 1) := by
  unfold freeRandomSlotInActiveView at hr
  split at hr
  · rename_i idx rng hpick
    split at hr
    rename_i s₂ io₂ r h₂
    cases hr
    obtain ⟨hm, ha, -⟩ := removeActiveByIndex_moves h₂
    have hlt := IndexSet.pickRandomIndex_lt R hpick
    have hf : Moves s io { s with rng } io := .frame rfl rfl rfl rfl
    refine ⟨hf.trans hm, fun x hx => ?_, fun _ => ?_⟩
    · rw [ha] at hx
      exact (IndexSet.mem_swapRemoveIndex.mp hx).1
    · rw [ha, IndexSet.len_swapRemoveIndex, if_pos hlt]
  · rename_i rng hpick
    cases hr
    refine ⟨.frame rfl rfl rfl rfl, fun _ hx => hx, fun hne => ?_⟩
    have := IndexSet.pickRandomIndex_isSome R s.rng hne
    rw [hpick] at this
    cases this

/-- Adding one peer to the active view, announced by a `NeighborUp` after quiet events. -/
theorem Emits.addOne {s s' : State PI RG} {io : Outbox PI} {q : PI} {pre : Outbox PI}
    (hq : q ∉ s.activeView) (hmem : ∀ x, x ∈ s'.activeView ↔ x ∈ s.activeView ∨ x = q)
    (hme : s'.me = s.me) (hc : s'.config = s.config)
    (hpre : Quiet pre) : Emits s io s' (io ++ (pre ++ [.emitEvent (.neighborUp q)])) where
  me := hme
  config := hc
  events := by
    refine ⟨_, rfl, fun p => ?_⟩
    rw [neighborFlags_append, neighborFlags_of_quiet hpre, neighborFlags_up]
    by_cases hqp : q = p
    · subst hqp
      simp [hq, hmem]
      rfl
    · simp [hqp, hmem, Ne.symm hqp]

/-- `add_active_unchecked` on a peer that is not active emits its `NeighborUp`. -/
theorem addActiveUnchecked_emits {s : State PI RG} {peer : PI} {priority : Priority}
    {io : Outbox PI} (hna : peer ∉ s.activeView) :
    Emits s io (s.addActiveUnchecked peer priority io).1 (s.addActiveUnchecked peer priority io).2 :=
  show Emits s io (s.addActiveUnchecked peer priority io).1
      (io ++ ([.sendMessage peer (.neighbor priority s.meData)] ++ [.emitEvent (.neighborUp peer)])) from
    Emits.addOne hna (fun _ => IndexSet.mem_insert) rfl rfl (quiet_sendMessage _ _)

/-- `add_active_unchecked` on a peer that is not us, into a view with room. -/
theorem ViewsInv.addActiveUnchecked {s : State PI RG} (h : ViewsInv s) {peer : PI}
    {priority : Priority} {io : Outbox PI} (hme : peer ≠ s.me)
    (hroom : s.activeView.len < s.config.activeViewCapacity) :
    ViewsInv (s.addActiveUnchecked peer priority io).1 :=
  h.insertActive hme hroom

/-- `add_active` keeps the invariant: a high-priority peer enters a full view only after
a random peer left it. -/
theorem addActive_moves {s s' : State PI RG} {peer : PI} {data : Option PeerData}
    {priority : Priority} {io io' : Outbox PI} {added : Bool}
    (hr : s.addActive R peer data priority io = (s', io', added)) : Moves s io s' io' := by
  unfold State.addActive at hr
  split at hr
  rename_i s₁ io₁ h₁
  refine (insertPeerInfo_moves h₁).1.trans ?_
  split at hr
  · cases hr
    exact .refl _ _
  · rename_i hnew
    simp only [Bool.or_eq_true, IndexSet.contains_iff, beq_iff_eq, not_or] at hnew
    obtain ⟨hna, hme⟩ := hnew
    split at hr
    · -- high priority: a full view loses a random peer first
      generalize hfree : (if s₁.activeIsFull = true then s₁.freeRandomSlotInActiveView R io₁
        else (s₁, io₁)) = q at hr
      obtain ⟨s₂, io₂⟩ := q
      dsimp only at hr
      obtain ⟨rfl, rfl, rfl⟩ := hr
      have hfree' : Moves s₁ io₁ s₂ io₂ ∧ (∀ x ∈ s₂.activeView, x ∈ s₁.activeView) ∧
          (ViewsInv s₁ → s₂.activeView.len < s₂.config.activeViewCapacity) := by
        split at hfree
        · rename_i hfull
          obtain ⟨hm, hsub, hlen⟩ := freeRandomSlotInActiveView_moves hfree
          refine ⟨hm, hsub, fun h => ?_⟩
          have := h.active_le
          have := h.active_pos
          have hfull' : s₁.config.activeViewCapacity ≤ s₁.activeView.len := by
            simpa [activeIsFull] using hfull
          rw [hlen (by omega), hm.config]
          omega
        · rename_i hfull
          cases hfree
          exact ⟨.refl s₁ io₁, fun _ hx => hx, fun _ => by simpa [activeIsFull] using hfull⟩
      obtain ⟨hm₂, hsub, hroom⟩ := hfree'
      have hna₂ : peer ∉ s₂.activeView := fun hx => hna (hsub _ hx)
      have hme₂ : peer ≠ s₂.me := by rw [hm₂.me]; exact hme
      exact { hm₂.toEmits.trans (addActiveUnchecked_emits hna₂) with
        viewsInv := fun h => (hm₂.viewsInv h).addActiveUnchecked hme₂ (hroom h) }
    · -- low priority, into a view that is not full
      rename_i _ hfull
      dsimp only at hr
      obtain ⟨rfl, rfl, rfl⟩ := hr
      exact { addActiveUnchecked_emits hna with
        viewsInv := fun h => h.addActiveUnchecked hme (by simpa [activeIsFull] using hfull) }
    · cases hr
      exact .refl _ _

/-! ### The handlers -/

theorem addPassiveAll_moves {s s' : State PI RG} {nodes : List (PeerInfo PI)} {io io' : Outbox PI}
    (hr : s.addPassiveAll R nodes io = (s', io')) :
    Moves s io s' io' ∧ s'.activeView = s.activeView := by
  induction nodes generalizing s io with
  | nil =>
    cases hr
    exact ⟨.refl _ _, rfl⟩
  | cons node nodes ih =>
    unfold addPassiveAll at hr
    split at hr
    rename_i s₁ io₁ h₁
    obtain ⟨hm₁, ha₁⟩ := addPassive_moves h₁
    obtain ⟨hm₂, ha₂⟩ := ih hr
    exact ⟨hm₁.trans hm₂, ha₂.trans ha₁⟩

omit [DecidableEq PI] in
theorem quiet_map_sendMessage (nodes : List PI) (f : PI → Message PI) :
    Quiet (nodes.map fun node => .sendMessage node (f node)) := by
  simp [Quiet]

theorem onJoin_moves {s s' : State PI RG} {peer : PI} {data : Option PeerData} {io io' : Outbox PI}
    (hr : s.onJoin R peer data io = (s', io')) : Moves s io s' io' := by
  unfold onJoin at hr
  split at hr
  · exact (insertPeerInfo_moves hr).1
  · split at hr
    rename_i s₁ io₁ added h₁
    cases hr
    exact (addActive_moves h₁).trans (.quiet rfl rfl rfl rfl (quiet_map_sendMessage _ _))

theorem onForwardJoin_moves {s s' : State PI RG} {sender : PI} {peer : PeerInfo PI} {ttl : Ttl}
    {io io' : Outbox PI} (hr : s.onForwardJoin R sender peer ttl io = .ok (s', io')) :
    Moves s io s' io' := by
  unfold onForwardJoin at hr
  split at hr
  rename_i s₁ io₁ h₁
  have hm₁ : Moves s io s₁ io₁ := by
    split at h₁
    · split at h₁
      rename_i s₂ io₂ a h₂
      cases h₁
      exact addActive_moves h₂
    · split at h₁
      · exact (addPassive_moves h₁).1
      · cases h₁
        exact .refl _ _
  split at hr
  · cases hr
    exact hm₁
  · split at hr
    · cases hr
    · cases hr
      exact hm₁.trans (.quiet rfl rfl rfl rfl (quiet_sendMessage _ _))

theorem onNeighbor_moves {s s' : State PI RG} {sender : PI} {priority : Priority}
    {data : Option PeerData} {io io' : Outbox PI}
    (hr : s.onNeighbor R sender priority data io = (s', io')) : Moves s io s' io' := by
  unfold onNeighbor at hr
  dsimp -iota only at hr
  split at hr
  · split at hr
    rename_i s₁ io₁ a h₁
    cases hr
    exact (addActive_moves h₁).of_frame rfl rfl rfl rfl
  · split at hr
    · split at hr
      rename_i s₁ io₁ a h₁
      cases hr
      exact (addActive_moves h₁).of_frame rfl rfl rfl rfl
    · cases hr
      exact .frame rfl rfl rfl rfl

theorem onShuffle_moves {s s' : State PI RG} {sender origin : PI} {nodes : List (PeerInfo PI)}
    {ttl : Ttl} {io io' : Outbox PI} (hr : s.onShuffle R sender origin nodes ttl io = (s', io')) :
    Moves s io s' io' := by
  unfold onShuffle at hr
  split at hr
  · split at hr
    rename_i s₁ io₁ h₁
    dsimp -iota only at hr
    split at hr
    rename_i ids rng h₂
    cases hr
    exact (addPassiveAll_moves h₁).1.trans (.quiet rfl rfl rfl rfl (quiet_sendMessage _ _))
  · split at hr
    · cases hr
      exact .quiet rfl rfl rfl rfl (quiet_sendMessage _ _)
    · cases hr
      exact .frame rfl rfl rfl rfl

theorem onShuffleReply_moves {s s' : State PI RG} {nodes : List (PeerInfo PI)} {io io' : Outbox PI}
    (hr : s.onShuffleReply R nodes io = (s', io')) : Moves s io s' io' :=
  (addPassiveAll_moves hr).1

/-- `on_disconnect` leaves the peer out of the active view. -/
theorem onDisconnect_moves {s s' : State PI RG} {peer : PI} {alive respond : Bool}
    {io io' : Outbox PI} (hr : s.onDisconnect R peer alive respond io = (s', io')) :
    Moves s io s' io' ∧ peer ∉ s'.activeView := by
  unfold onDisconnect at hr
  dsimp -iota only at hr
  split at hr
  rename_i s₁ io₁ removed h₁
  obtain ⟨hm₁, hout⟩ := removeActive_moves h₁
  have hm₁ : Moves s io s₁ io₁ := hm₁.of_frame rfl rfl rfl rfl
  split at hr
  · split at hr
    · obtain ⟨hm₂, ha₂⟩ := addPassive_moves hr
      refine ⟨hm₁.trans (hm₂.of_frame rfl rfl rfl rfl), ?_⟩
      rw [ha₂]
      exact hout
    · cases hr
      exact ⟨hm₁, hout⟩
  · cases hr
    refine ⟨hm₁.trans (.passive (fun h => h.mono rfl rfl (fun _ hx => hx)
      (fun x hx => (IndexSet.mem_remove.mp hx).1) (Nat.le_refl _) (IndexSet.len_remove_le _ _))
      rfl rfl rfl), hout⟩

theorem handleShuffleTimer_moves {s s' : State PI RG} {io io' : Outbox PI}
    (hr : s.handleShuffleTimer R io = (s', io')) : Moves s io s' io' := by
  unfold handleShuffleTimer at hr
  split at hr
  rename_i s₁ io₁ h₁
  cases hr
  refine Moves.trans ?_ (.quiet rfl rfl rfl rfl (by simp [Quiet]))
  split at h₁
  · rename_i node rng hpick
    split at h₁
    rename_i active rng₁ h₂
    split at h₁
    rename_i passive rng₂ h₃
    cases h₁
    exact .quiet rfl rfl rfl rfl (quiet_sendMessage _ _)
  · cases h₁
    exact .frame rfl rfl rfl rfl

theorem handlePendingNeighborTimer_moves {s s' : State PI RG} {peer : PI} {io io' : Outbox PI}
    (hr : s.handlePendingNeighborTimer R peer io = (s', io')) : Moves s io s' io' := by
  unfold handlePendingNeighborTimer at hr
  split at hr
  · -- the request failed: forget the peer, ask another
    refine Moves.trans ?_ (refillActiveFromPassive_moves hr).1
    exact .passive (fun h => h.mono rfl rfl (fun _ hx => hx)
      (fun x hx => (IndexSet.mem_remove.mp hx).1) (Nat.le_refl _) (IndexSet.len_remove_le _ _))
      rfl rfl rfl
  · cases hr
    exact .refl _ _

theorem disconnectAll_moves {s s' : State PI RG} {peers : List PI} {alive respond : Bool}
    {io io' : Outbox PI} (hr : s.disconnectAll R peers alive respond io = (s', io')) :
    Moves s io s' io' := by
  induction peers generalizing s io with
  | nil =>
    cases hr
    exact .refl _ _
  | cons peer peers ih =>
    unfold disconnectAll at hr
    split at hr
    rename_i s₁ io₁ h₁
    exact (onDisconnect_moves h₁).1.trans (ih hr)

theorem dispatchMessage_moves {s s' : State PI RG} {sender : PI} {message : Message PI}
    {io io' : Outbox PI} (hr : s.dispatchMessage R sender io message = .ok (s', io')) :
    Moves s io s' io' := by
  cases message with
  | join data => exact onJoin_moves (Except.ok.inj hr)
  | forwardJoin peer ttl => exact onForwardJoin_moves hr
  | shuffle origin nodes ttl => exact onShuffle_moves (Except.ok.inj hr)
  | shuffleReply nodes => exact onShuffleReply_moves (Except.ok.inj hr)
  | neighbor priority data => exact onNeighbor_moves (Except.ok.inj hr)
  | disconnect alive respond => exact (onDisconnect_moves (Except.ok.inj hr)).1

theorem handleMessage_moves {s s' : State PI RG} {sender : PI} {message : Message PI}
    {io io' : Outbox PI} (hr : s.handleMessage R sender message io = .ok (s', io')) :
    Moves s io s' io' := by
  unfold handleMessage at hr
  split at hr
  · cases hr
  · rename_i s₁ io₁ h₁
    split at hr <;> cases hr
    · exact (dispatchMessage_moves h₁).trans (.quiet rfl rfl rfl rfl (by simp [Quiet]))
    · exact dispatchMessage_moves h₁

theorem dispatch_moves {s s' : State PI RG} {event : InEvent PI} {io io' : Outbox PI}
    (hr : s.dispatch R io event = .ok (s', io')) : Moves s io s' io' := by
  cases event with
  | recvMessage sender message => exact handleMessage_moves hr
  | timerExpired timer =>
    cases timer with
    | doShuffle => exact handleShuffleTimer_moves (Except.ok.inj hr)
    | pendingNeighborRequest peer => exact handlePendingNeighborTimer_moves (Except.ok.inj hr)
  | peerDisconnected peer => exact (onDisconnect_moves (Except.ok.inj hr)).1
  | requestJoin peer =>
    cases hr
    exact .quiet rfl rfl rfl rfl (quiet_sendMessage _ _)
  | updatePeerData data =>
    cases hr
    exact .frame rfl rfl rfl rfl
  | quit => exact disconnectAll_moves (Except.ok.inj hr)

/-- **Every handler moves the views as `Moves` says.** -/
theorem handle_moves {s s' : State PI RG} {event : InEvent PI} {io io' : Outbox PI}
    (hr : s.handle R event io = .ok (s', io')) : Moves s io s' io' := by
  unfold handle at hr
  split at hr
  · cases hr
  · rename_i s₁ io₁ h₁
    split at hr <;> cases hr
    · exact (dispatch_moves h₁).trans (.quiet rfl rfl rfl rfl (by simp [Quiet]))
    · exact dispatch_moves h₁

omit [DecidableEq PI] in
theorem new_viewsInv (me : PI) (meData : Option PeerData) (config : Config) (rng : RG)
    (hactive : 0 < config.activeViewCapacity) (hpassive : 0 < config.passiveViewCapacity) :
    ViewsInv (new me meData config rng) where
  disjoint _ h := absurd h (IndexSet.not_mem_empty _)
  me_not_active := IndexSet.not_mem_empty _
  me_not_passive := IndexSet.not_mem_empty _
  active_le := Nat.zero_le _
  passive_le := Nat.zero_le _
  active_pos := hactive
  passive_pos := hpassive

variable (R) in
/-- **The view invariant of HyParView.** From `State::new`, with positive capacities, every
run of `handle` keeps the two views disjoint and without our own id, and each within its
capacity. -/
theorem views_invariant (me : PI) (meData : Option PeerData) (config : Config) (rng : RG)
    (hactive : 0 < config.activeViewCapacity) (hpassive : 0 < config.passiveViewCapacity)
    (events : List (InEvent PI)) {s : State PI RG} {out : Outbox PI}
    (hrun : Machine.run (fun s e => s.handle R e []) (new me meData config rng) events =
      .ok (s, out)) :
    (∀ p ∈ s.activeView, p ∉ s.passiveView) ∧ me ∉ s.activeView ∧ me ∉ s.passiveView ∧
      s.activeView.len ≤ config.activeViewCapacity ∧
      s.passiveView.len ≤ config.passiveViewCapacity := by
  have hrun := Machine.run_invariant
    (fun s : State PI RG => ViewsInv s ∧ s.me = me ∧ s.config = config)
    (fun _ _ _ _ ⟨h, hme, hc⟩ hs =>
      have hm := handle_moves hs
      ⟨hm.viewsInv h, hm.me.trans hme, hm.config.trans hc⟩)
    ⟨new_viewsInv me meData config rng hactive hpassive, rfl, rfl⟩ hrun
  obtain ⟨h, hme, hc⟩ := hrun
  subst hme hc
  exact ⟨h.disjoint, h.me_not_active, h.me_not_passive, h.active_le, h.passive_le⟩

/-- Two joins, through a `Join` and a `ForwardJoin` that ends its walk here. -/
theorem views_invariant_two_joins :
    let R : Rng Unit := ⟨fun g _ => (0, g), fun _ _ h => h⟩
    ∃ s out, Machine.run (fun s e => s.handle R e []) (new 0 none Config.default ())
        [.recvMessage 1 (.join none), .recvMessage 2 (.forwardJoin ⟨3, none⟩ ⟨0⟩)] = .ok (s, out) ∧
      ((∀ p ∈ s.activeView, p ∉ s.passiveView) ∧ 0 ∉ s.activeView ∧ 0 ∉ s.passiveView ∧
        s.activeView.len ≤ Config.default.activeViewCapacity ∧
        s.passiveView.len ≤ Config.default.passiveViewCapacity) := by
  intro R
  obtain ⟨s, out, h⟩ : ∃ s out, Machine.run (fun s e => s.handle R e []) (new 0 none Config.default ())
      [.recvMessage 1 (.join none), .recvMessage 2 (.forwardJoin ⟨3, none⟩ ⟨0⟩)] = .ok (s, out) :=
    ⟨_, _, rfl⟩
  exact ⟨s, out, h, views_invariant R 0 none Config.default () (by decide) (by decide) _ h⟩

end State

end Iroh.Gossip.Hyparview
