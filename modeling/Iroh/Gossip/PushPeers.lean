import Iroh.Gossip.Plumtree
import Iroh.Lib.Machine

/-! The peers Plumtree pushes to.

The eager and lazy push peers change in three ways only: `add_eager` and `add_lazy`
move one peer into one set and out of the other, and `on_neighbor_down` drops a
peer from both. So the two sets stay disjoint. Outside the neighbor events,
`add_eager` runs on a `Graft` for its sender and on a send-graft timer for a peer
that announced the payload, and `add_lazy` on a `Prune` and on a duplicate payload
for their sender; the peers that announced a payload are the senders of the
`IHave`s that `on_ihave` recorded among the missing messages. `Grows` says this of a
handler: the push peers only grow, and only by the sender of the message or by a
peer that announced a payload. On a neighbor event, a peer's membership is set by the
event (`handle_neighborUp`, `handle_neighborDown`). -/

namespace Iroh.Gossip.Plumtree

/-! ### Map entries -/

section Entries

variable {K V : Type} [DecidableEq K]

/-- A value of an entry after a push is the pushed one, or was in the key's entry before. -/
theorem mem_pushEntry {m : List (K × List V)} {key k : K} {value v : V} {l : List V}
    (he : (k, l) ∈ pushEntry m key value) (hv : v ∈ l) :
    (∃ l', (k, l') ∈ m ∧ v ∈ l') ∨ v = value := by
  unfold pushEntry at he
  split at he
  · obtain ⟨⟨k', l'⟩, hm, heq⟩ := List.mem_map.mp he
    split at heq
    · cases heq
      rcases List.mem_append.mp hv with hv | hv
      · exact .inl ⟨l', hm, hv⟩
      · exact .inr (List.mem_singleton.mp hv)
    · cases heq
      exact .inl ⟨l, hm, hv⟩
  · rcases List.mem_append.mp he with he | he
    · exact .inl ⟨l, he, hv⟩
    · cases List.mem_singleton.mp he
      exact .inr (List.mem_singleton.mp hv)

theorem mem_removeEntry {m : List (K × List V)} {key k : K} {l : List V}
    (he : (k, l) ∈ (removeEntry m key).2) : (k, l) ∈ m :=
  (List.mem_filter.mp he).1

/-- The value `pop_front` returns was in an entry. -/
theorem popFrontEntry_fst {m : List (K × List V)} {key : K} {v : V}
    (h : (popFrontEntry m key).1 = some v) : ∃ k l, (k, l) ∈ m ∧ v ∈ l := by
  unfold popFrontEntry at h
  split at h
  · rename_i v' rest hfind
    cases h
    obtain ⟨⟨k, l⟩, hf, rfl⟩ := Option.map_eq_some_iff.mp hfind
    exact ⟨k, v :: rest, List.mem_of_find?_eq_some hf, List.mem_cons_self⟩
  · cases h

/-- A value of an entry after `pop_front` was in the entry before. -/
theorem mem_popFrontEntry {m : List (K × List V)} {key k : K} {l : List V} {x : V}
    (he : (k, l) ∈ (popFrontEntry m key).2) (hx : x ∈ l) : ∃ l', (k, l') ∈ m ∧ x ∈ l' := by
  unfold popFrontEntry at he
  split at he
  · obtain ⟨⟨k', l'⟩, hm, heq⟩ := List.mem_map.mp he
    split at heq
    · cases heq
      exact ⟨l', hm, List.mem_of_mem_tail hx⟩
    · cases heq
      exact ⟨l, hm, hx⟩
  · exact ⟨l, he, hx⟩

end Entries

/-- The sender of a received message. -/
def InEvent.sender {PI : Type} : InEvent PI → Option PI
  | .recvMessage sender _ => some sender
  | _ => none

namespace State

variable {PI : Type} [DecidableEq PI] (fromContent : List UInt8 → MessageId)

/-- A peer Plumtree pushes to, eagerly or lazily. -/
def PushPeer (s : State PI) (p : PI) : Prop := p ∈ s.eagerPushPeers ∨ p ∈ s.lazyPushPeers

instance (s : State PI) (p : PI) : Decidable (s.PushPeer p) :=
  inferInstanceAs (Decidable (_ ∨ _))

/-- A peer that announced a payload Plumtree still misses. -/
def MissingPeer (s : State PI) (p : PI) : Prop :=
  ∃ id ihaves, (id, ihaves) ∈ s.missingMessages ∧ ∃ round, (p, round) ∈ ihaves

/-- No peer is both eager and lazy. -/
def PushDisjoint (s : State PI) : Prop := ∀ p ∈ s.eagerPushPeers, p ∉ s.lazyPushPeers

/-- A step that keeps the push peers disjoint, and adds to the push peers and to the
peers of missing messages only peers that `extra` allows. -/
structure Grows (s s' : State PI) (extra : PI → Prop) : Prop where
  disjoint : PushDisjoint s → PushDisjoint s'
  keep : ∀ p, s.PushPeer p → s'.PushPeer p
  added : ∀ p, s'.PushPeer p → s.PushPeer p ∨ extra p
  missing : ∀ p, s'.MissingPeer p → s.MissingPeer p ∨ extra p

variable {extra : PI → Prop}

omit [DecidableEq PI] in
/-- A step that leaves the push peers alone and forgets missing messages at most. -/
theorem Grows.frame {s s' : State PI} (he : s'.eagerPushPeers = s.eagerPushPeers)
    (hl : s'.lazyPushPeers = s.lazyPushPeers) (hm : ∀ p, s'.MissingPeer p → s.MissingPeer p) :
    Grows s s' extra where
  disjoint h p hp := by
    rw [hl]
    exact h p (he ▸ hp)
  keep p hp := by
    unfold PushPeer
    rw [he, hl]
    exact hp
  added p hp := by
    unfold PushPeer at hp
    rw [he, hl] at hp
    exact .inl hp
  missing p hp := .inl (hm p hp)

omit [DecidableEq PI] in
theorem Grows.refl (s : State PI) : Grows s s extra := .frame rfl rfl fun _ h => h

omit [DecidableEq PI] in
theorem Grows.trans {s₁ s₂ s₃ : State PI} (h₁ : Grows s₁ s₂ extra) (h₂ : Grows s₂ s₃ extra) :
    Grows s₁ s₃ extra where
  disjoint h := h₂.disjoint (h₁.disjoint h)
  keep p hp := h₂.keep p (h₁.keep p hp)
  added p hp := (h₂.added p hp).elim (h₁.added p) .inr
  missing p hp := (h₂.missing p hp).elim (h₁.missing p) .inr

omit [DecidableEq PI] in
theorem Grows.weaken {s s' : State PI} {extra' : PI → Prop} (h : Grows s s' extra)
    (hx : ∀ p, extra p → extra' p) : Grows s s' extra' where
  disjoint := h.disjoint
  keep := h.keep
  added p hp := (h.added p hp).imp_right (hx p)
  missing p hp := (h.missing p hp).imp_right (hx p)

/-! ### Moving one peer -/

@[simp] theorem pushPeer_addEager {s : State PI} {peer p : PI} :
    (s.addEager peer).PushPeer p ↔ s.PushPeer p ∨ p = peer := by
  unfold PushPeer addEager
  simp only [IndexSet.mem_insert, IndexSet.mem_remove]
  by_cases h : p = peer <;> simp [h]

@[simp] theorem pushPeer_addLazy {s : State PI} {peer p : PI} :
    (s.addLazy peer).PushPeer p ↔ s.PushPeer p ∨ p = peer := by
  unfold PushPeer addLazy
  simp only [IndexSet.mem_insert, IndexSet.mem_remove]
  by_cases h : p = peer <;> simp [h]

theorem addEager_grows (s : State PI) (peer : PI) : Grows s (s.addEager peer) (· = peer) where
  disjoint h p hp hl := by
    simp only [addEager, IndexSet.mem_insert, IndexSet.mem_remove] at hp hl
    rcases hp with hp | rfl
    · exact h p hp hl.1
    · exact hl.2 rfl
  keep p hp := pushPeer_addEager.mpr (.inl hp)
  added p hp := pushPeer_addEager.mp hp
  missing p hp := .inl hp

theorem addLazy_grows (s : State PI) (peer : PI) : Grows s (s.addLazy peer) (· = peer) where
  disjoint h p hp hl := by
    simp only [addLazy, IndexSet.mem_insert, IndexSet.mem_remove] at hp hl
    rcases hl with hl | rfl
    · exact h p hp.1 hl
    · exact hp.2 rfl
  keep p hp := pushPeer_addLazy.mpr (.inl hp)
  added p hp := pushPeer_addLazy.mp hp
  missing p hp := .inl hp

/-! ### The handlers -/

theorem broadcast_grows (s : State PI) (content : List UInt8) (scope : Scope) (now : Nat)
    (io : Outbox PI) : Grows s (s.broadcast fromContent content scope now io).1 extra := by
  cases scope <;> exact .frame (by simp [broadcast]) (by simp [broadcast])
    fun _ h => by simpa [MissingPeer, broadcast] using h

/-- `on_gossip` adds its sender at most, lazily on a duplicate. -/
theorem onGossip_grows {s s' : State PI} {sender : PI} {g : Gossip} {now : Nat}
    {io io' : Outbox PI} (hr : s.onGossip fromContent sender g now io = .ok (s', io')) :
    Grows s s' (· = sender) := by
  rcases onGossip_cases fromContent hr with ⟨-, rfl, -⟩ | ⟨-, -, rfl, -⟩ | ⟨-, -, -, rfl, -⟩ |
    ⟨-, -, r, m, io₁, -, -, rfl, -⟩
  · exact .refl _
  · exact addLazy_grows s sender
  · exact .refl _
  · -- the forwarding changes no push peers, and clears the payload's announcements
    have hmiss : ∀ {l : List (MessageId × List (PI × Round))} {p : PI},
        (∃ id ihaves, (id, ihaves) ∈ (removeEntry l m.id).2 ∧ ∃ round, (p, round) ∈ ihaves) →
        ∃ id ihaves, (id, ihaves) ∈ l ∧ ∃ round, (p, round) ∈ ihaves := by
      intro l p hp
      obtain ⟨id, ihaves, hm, hr⟩ := hp
      exact ⟨id, ihaves, mem_removeEntry hm, hr⟩
    exact .frame (by simp) (by simp) fun p hp => hmiss (by simpa [MissingPeer] using hp)

omit [DecidableEq PI] in
/-- `on_ihave` records its sender among the peers of missing messages. -/
theorem onIHave_grows (s : State PI) (sender : PI) (iHaves : List IHave) (io : Outbox PI) :
    Grows s (s.onIHave sender iHaves io).1 (· = sender) := by
  induction iHaves generalizing s io with
  | nil => exact .refl s
  | cons iHave iHaves ih =>
    have hone : Grows s (s.onIHaveOne sender io iHave).1 (· = sender) := by
      have hpush : Grows s { s with
          missingMessages := pushEntry s.missingMessages iHave.id (sender, iHave.round) } (· = sender) := by
        refine ⟨fun h => h, fun _ h => h, fun _ h => .inl h, ?_⟩
        rintro p ⟨id, ihaves, hm, round, hr⟩
        rcases mem_pushEntry hm hr with ⟨l', hm', hr'⟩ | heq
        · exact .inl ⟨id, l', hm', round, hr'⟩
        · exact .inr (Prod.mk.inj heq).1
      unfold onIHaveOne
      split
      · dsimp only
        split
        · exact hpush.trans (.frame rfl rfl fun _ h => h)
        · exact hpush
      · exact .refl s
    exact hone.trans (ih _ _)

/-- The send-graft timer makes eager a peer that announced the payload. -/
theorem onSendGraftTimer_grows (s : State PI) (id : MessageId) (io : Outbox PI) :
    Grows s (s.onSendGraftTimer id io).1 s.MissingPeer := by
  unfold onSendGraftTimer
  split
  · exact .refl s
  · dsimp only
    have hpop : Grows s { s with missingMessages := (popFrontEntry s.missingMessages id).2 }
        s.MissingPeer :=
      .frame rfl rfl fun p hp => by
        obtain ⟨k, l, hm, r, hr⟩ := hp
        obtain ⟨l', hm', hr'⟩ := mem_popFrontEntry hm hr
        exact ⟨k, l', hm', r, hr'⟩
    split
    · rename_i peer round hentry
      refine hpop.trans ((addEager_grows _ peer).weaken fun p hp => ?_)
      obtain ⟨k, l, hm, hl⟩ := popFrontEntry_fst hentry
      exact hp ▸ ⟨k, l, hm, round, hl⟩
    · exact hpop

theorem onGraft_grows (s : State PI) (sender : PI) (details : Graft) (io : Outbox PI) :
    Grows s (s.onGraft sender details io).1 (· = sender) := by
  unfold onGraft
  dsimp only
  split
  · split <;> exact addEager_grows s sender
  · exact addEager_grows s sender

theorem onNeighborDown_missing {s : State PI} {peer p : PI}
    (h : (s.onNeighborDown peer).MissingPeer p) : s.MissingPeer p := by
  obtain ⟨id, ihaves, hm, round, hr⟩ := h
  obtain ⟨⟨id', ihaves'⟩, hm', heq⟩ := List.mem_filterMap.mp hm
  dsimp only at heq
  split at heq
  · cases heq
  · cases heq
    exact ⟨id, ihaves', hm', round, (List.mem_filter.mp hr).1⟩

theorem pushPeer_onNeighborDown {s : State PI} {peer p : PI} :
    (s.onNeighborDown peer).PushPeer p ↔ s.PushPeer p ∧ p ≠ peer := by
  unfold PushPeer onNeighborDown
  simp only [IndexSet.mem_remove]
  constructor
  · rintro (⟨hp, hne⟩ | ⟨hp, hne⟩)
    · exact ⟨.inl hp, hne⟩
    · exact ⟨.inr hp, hne⟩
  · rintro ⟨hp | hp, hne⟩
    · exact .inl ⟨hp, hne⟩
    · exact .inr ⟨hp, hne⟩

/-! ### Every event -/

variable {fromContent}

omit [DecidableEq PI] in
/-- A handler's result, read at the state it returned. -/
theorem fst_eq_of_ok {s' : State PI} {io' : Outbox PI} {p : State PI × Outbox PI}
    (h : (Except.ok p : Except Panic _) = .ok (s', io')) : s' = p.1 :=
  (congrArg Prod.fst (Except.ok.inj h)).symm

/-- **What a handler that is no neighbor event does to the push peers.** -/
theorem handle_grows {s s' : State PI} {event : InEvent PI} {now : Nat} {io io' : Outbox PI}
    (hup : ∀ q, event ≠ .neighborUp q) (hdown : ∀ q, event ≠ .neighborDown q)
    (hr : s.handle fromContent event now io = .ok (s', io')) :
    Grows s s' fun p => event.sender = some p ∨ s.MissingPeer p := by
  have hdispatch : ∀ {s₀ io₀}, s₀.dispatch fromContent event now io₀ = .ok (s', io') →
      s₀.missingMessages = s.missingMessages →
      Grows s₀ s' fun p => event.sender = some p ∨ s.MissingPeer p := by
    intro s₀ io₀ hd hm
    have hmiss : ∀ p, s₀.MissingPeer p → s.MissingPeer p := fun p h => by
      unfold MissingPeer at h ⊢
      rwa [hm] at h
    cases event with
    | recvMessage sender message =>
      have hs : ∀ p, p = sender → InEvent.sender (.recvMessage sender message) = some p ∨
          s.MissingPeer p := fun p hp => .inl (by rw [hp]; rfl)
      cases message with
      | gossip g => exact (onGossip_grows fromContent hd).weaken hs
      | prune =>
        cases hd
        exact (addLazy_grows s₀ sender).weaken hs
      | iHave details =>
        obtain rfl := fst_eq_of_ok hd
        exact (onIHave_grows s₀ sender details io₀).weaken hs
      | graft details =>
        obtain rfl := fst_eq_of_ok hd
        exact (onGraft_grows s₀ sender details io₀).weaken hs
    | broadcast content scope =>
      cases hd
      exact broadcast_grows fromContent s₀ content scope now io₀
    | neighborUp q => exact absurd rfl (hup q)
    | neighborDown q => exact absurd rfl (hdown q)
    | timerExpired timer =>
      cases timer with
      | sendGraft id =>
        obtain rfl := fst_eq_of_ok hd
        exact (onSendGraftTimer_grows s₀ id io₀).weaken fun p hp => .inr (hmiss p hp)
      | dispatchLazyPush =>
        obtain rfl := fst_eq_of_ok hd
        exact .frame rfl rfl fun _ h => h
      | evictCache =>
        obtain rfl := fst_eq_of_ok hd
        exact .frame rfl rfl fun _ h => h
  rcases handle_cases fromContent s event now io with ⟨-, he⟩ | ⟨-, he⟩ <;> rw [he] at hr
  · have h₀ : Grows s ({ s with init := true }.onEvictCacheTimer now io).1
        fun p => event.sender = some p ∨ s.MissingPeer p := .frame rfl rfl fun _ h => h
    exact h₀.trans (hdispatch hr rfl)
  · exact hdispatch hr rfl

/-- A step that sets each peer's membership in the push peers by the switch events
`flag` gives it, keeps the sets disjoint and forgets missing messages at most. -/
structure Sets (s s' : State PI) (flag : PI → List Bool) : Prop where
  disjoint : PushDisjoint s → PushDisjoint s'
  pushPeer : ∀ p, decide (s'.PushPeer p) = Toggle.final (decide (s.PushPeer p)) (flag p)
  missing : ∀ p, s'.MissingPeer p → s.MissingPeer p

theorem Sets.frame {s s' : State PI} (h : Grows s s' fun _ => False) : Sets s s' fun _ => [] where
  disjoint := h.disjoint
  pushPeer p := by
    rw [Toggle.final_nil, decide_eq_decide]
    exact ⟨fun hp => (h.added p hp).resolve_right id, h.keep p⟩
  missing p hp := (h.missing p hp).resolve_right id

theorem Sets.trans {s₁ s₂ s₃ : State PI} {f g : PI → List Bool} (h₁ : Sets s₁ s₂ f)
    (h₂ : Sets s₂ s₃ g) : Sets s₁ s₃ fun p => f p ++ g p where
  disjoint h := h₂.disjoint (h₁.disjoint h)
  pushPeer p := by rw [h₂.pushPeer p, h₁.pushPeer p, Toggle.final_append]
  missing p hp := h₁.missing p (h₂.missing p hp)

theorem Sets.pushPeer_iff {s s' : State PI} {flag : PI → List Bool} (h : Sets s s' flag) (p : PI) :
    s'.PushPeer p ↔ Toggle.final (decide (s.PushPeer p)) (flag p) = true := by
  rw [← h.pushPeer p, decide_eq_true_iff]

/-- A peer that no event sets keeps its membership. -/
theorem Sets.pushPeer_of_nil {s s' : State PI} {flag : PI → List Bool} (h : Sets s s' flag)
    {p : PI} (hp : flag p = []) : s'.PushPeer p ↔ s.PushPeer p := by
  rw [h.pushPeer_iff, hp, Toggle.final_nil, decide_eq_true_iff]

/-- A peer whose events a switch follows ends where they leave the switch. -/
theorem Sets.pushPeer_of_follow {s s' : State PI} {flag : PI → List Bool} (h : Sets s s' flag)
    {p : PI} {a b : Bool} (hf : Toggle.follow a (flag p) = some b) (hp : flag p ≠ []) :
    s'.PushPeer p ↔ b = true := by
  rw [h.pushPeer_iff, Toggle.final_of_follow _ hf hp]

/-- On a first event, the eviction timer changes no peers before the handler. -/
theorem handle_sets_of_dispatch {s s' : State PI} {event : InEvent PI} {now : Nat}
    {io io' : Outbox PI} {flag : PI → List Bool}
    (h : ∀ {s₀ : State PI} {io₀}, s₀.dispatch fromContent event now io₀ = .ok (s', io') →
      Sets s₀ s' flag)
    (hr : s.handle fromContent event now io = .ok (s', io')) : Sets s s' flag := by
  rcases handle_cases fromContent s event now io with ⟨-, he⟩ | ⟨-, he⟩ <;> rw [he] at hr
  · have h₀ : Sets s ({ s with init := true }.onEvictCacheTimer now io).1 fun _ => [] :=
      .frame (.frame rfl rfl fun _ h => h)
    simpa using h₀.trans (h hr)
  · exact h hr

/-- A `NeighborUp` makes its peer eager. -/
theorem handle_neighborUp {s s' : State PI} {peer : PI} {now : Nat} {io io' : Outbox PI}
    (hr : s.handle fromContent (.neighborUp peer) now io = .ok (s', io')) :
    Sets s s' fun p => if peer = p then [true] else [] := by
  refine handle_sets_of_dispatch (fun {s₀ io₀} hd => ?_) hr
  cases hd
  refine ⟨(addEager_grows s₀ peer).disjoint, fun p => ?_, fun _ h => h⟩
  by_cases hp : peer = p
  · subst hp
    simp [onNeighborUp]
  · simp [onNeighborUp, hp, Ne.symm hp]

/-- A `NeighborDown` drops its peer from both sets. -/
theorem handle_neighborDown {s s' : State PI} {peer : PI} {now : Nat} {io io' : Outbox PI}
    (hr : s.handle fromContent (.neighborDown peer) now io = .ok (s', io')) :
    Sets s s' fun p => if peer = p then [false] else [] := by
  refine handle_sets_of_dispatch (fun {s₀ io₀} hd => ?_) hr
  cases hd
  refine ⟨fun h p hp hl => ?_, fun p => ?_, fun _ h => onNeighborDown_missing h⟩
  · simp only [onNeighborDown, IndexSet.mem_remove] at hp hl
    exact h p hp.1 hl.1
  · by_cases hp : peer = p
    · subst hp
      simp [pushPeer_onNeighborDown]
    · simp [pushPeer_onNeighborDown, hp, Ne.symm hp]

end State

end Iroh.Gossip.Plumtree
