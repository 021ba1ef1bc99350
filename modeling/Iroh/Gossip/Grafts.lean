import Iroh.Gossip.Delivery

/-! What one Plumtree step does to the payloads (`proto/plumtree.rs`).

Every event a step emits has a reason among a few (`Origin`): a payload goes out
when it was just received, when a graft asks for it from the cache, or when it is
broadcast; a graft that names a payload, and its timer, only when that timer fires
or an announcement arrives for a payload whose timer is not armed. The received
ids, the armed timers and the cache change only through the payload of the event
(`Traces`, `handle_traces`).

Two consequences for one payload `i`. A node that holds it (`Holds`) sends it only
to a peer that grafted it (`Traces.holds`). A node that waits for it with its timer
marked as armed (`Awaits`) stays so, and never asks for it, under every event that
brings no such payload and does not fire that timer (`Traces.awaits`): the mark
`graft_timer_scheduled` is cleared only when the payload arrives, and the timer chain
stops once the announcements of the payload in `missing_messages` are used up or
forgotten, so a later announcement arms nothing.

The retention settings bound the payload cache only: received ids, graft marks and
emptied announcement entries outlive every eviction (`retention_keeps_ids`). -/

namespace Iroh.Gossip

namespace TimeBoundCache

variable {K V : Type} [DecidableEq K]

theorem mem_insert_entries {c : TimeBoundCache K V} {key : K} {value : V} {expires : Nat}
    {x : K × Nat × V} (h : x ∈ (c.insert key value expires).entries) :
    x ∈ c.entries ∨ x = (key, expires, value) := by
  simp only [insert, remove, List.mem_append, List.mem_filter, List.mem_singleton] at h
  exact h.imp And.left id

omit [DecidableEq K] in
theorem mem_expireUntil_entries {c : TimeBoundCache K V} {instant : Nat} {x : K × Nat × V}
    (h : x ∈ (c.expireUntil instant).entries) : x ∈ c.entries :=
  (List.mem_filter.mp h).1

/-- `get` finds the entry under the key. -/
theorem mem_of_get {c : TimeBoundCache K V} {key : K} {value : V} (h : c.get key = some value) :
    ∃ expires, (key, expires, value) ∈ c.entries := by
  obtain ⟨⟨k, expires, v⟩, hfind, hv⟩ := Option.map_eq_some_iff.mp h
  have hk : k = key := by simpa using List.find?_some hfind
  subst hk hv
  exact ⟨expires, List.mem_of_find?_eq_some hfind⟩

end TimeBoundCache

namespace Plumtree

-- the source names a payload `Gossip`, as the namespace above it
set_option linter.dupNamespace false in
/-- The next round of a payload keeps its id. -/
theorem Gossip.id_of_nextRound {g m : Gossip} (h : g.nextRound = .ok (some m)) : m.id = g.id := by
  unfold Gossip.nextRound at h
  split at h
  · cases h
  · split at h
    · cases h
    · cases h
      rfl

namespace State

variable {PI : Type} [DecidableEq PI] (fromContent : List UInt8 → MessageId)

/-- Whether the event brings a payload with the id: a received one, or a broadcast. -/
def Carries (e : InEvent PI) (id : MessageId) : Prop :=
  (∃ sender g, e = .recvMessage sender (.gossip g) ∧ g.id = id) ∨
    ∃ content scope, e = .broadcast content scope ∧ fromContent content = id

/-- Why a step emits an event, read off its handlers. -/
inductive Origin (s : State PI) (e : InEvent PI) : OutEvent PI → Prop
  /-- `on_gossip` forwards a payload it had not received, one round further. -/
  | forward {sender peer : PI} {g₀ g : Gossip} : e = .recvMessage sender (.gossip g₀) →
      s.receivedMessages.containsKey g₀.id = false → g.id = g₀.id →
      Origin s e (.sendMessage peer (.gossip g))
  /-- `on_graft` answers with the cache entry under the id asked for. -/
  | answer {peer : PI} {id : MessageId} {round : Round} {expires : Nat} {g : Gossip} :
      e = .recvMessage peer (.graft ⟨some id, round⟩) → (id, expires, g) ∈ s.cache.entries →
      Origin s e (.sendMessage peer (.gossip g))
  /-- `broadcast` pushes its own payload. -/
  | own {content : List UInt8} {scope : Scope} {peer : PI} {g : Gossip} :
      e = .broadcast content scope → g.id = fromContent content →
      Origin s e (.sendMessage peer (.gossip g))
  /-- `on_send_graft_timer` asks for the payload of its timer, and arms the timer again. -/
  | request {id : MessageId} {peer : PI} {round : Round} : e = .timerExpired (.sendGraft id) →
      Origin s e (.sendMessage peer (.graft ⟨some id, round⟩))
  | rearm {id : MessageId} {delay : Nat} : e = .timerExpired (.sendGraft id) →
      Origin s e (.scheduleTimer delay (.sendGraft id))
  /-- `on_ihave` arms the graft timer of an announced payload whose timer is not armed. -/
  | arm {sender : PI} {iHaves : List IHave} {id : MessageId} {delay : Nat} :
      e = .recvMessage sender (.iHave iHaves) → id ∉ s.graftTimerScheduled →
      Origin s e (.scheduleTimer delay (.sendGraft id))
  /-- `on_gossip` delivers a valid payload. -/
  | deliver {sender : PI} {g : Gossip} : e = .recvMessage sender (.gossip g) →
      g.validate fromContent = true → Origin s e (.emitEvent (.received (.fromMessage g sender)))
  /-- Prunes, announcements, grafts without an id, and the other two timers. -/
  | prune {peer : PI} : Origin s e (.sendMessage peer .prune)
  | iHave {peer : PI} {iHaves : List IHave} : Origin s e (.sendMessage peer (.iHave iHaves))
  | optimize {peer : PI} {round : Round} : Origin s e (.sendMessage peer (.graft ⟨none, round⟩))
  | dispatch {delay : Nat} : Origin s e (.scheduleTimer delay .dispatchLazyPush)
  | evict {delay : Nat} : Origin s e (.scheduleTimer delay .evictCache)

/-- What one step does to the payloads: the received ids, the armed graft timers and
the cache change only by the event's payload, which the cache keys by its id; every
event emitted has its `Origin`. -/
structure Traces (s : State PI) (e : InEvent PI) (io : Outbox PI) (s' : State PI)
    (io' : Outbox PI) : Prop where
  received : ∀ id, s'.receivedMessages.containsKey id = true →
    s.receivedMessages.containsKey id = true ∨ Carries fromContent e id
  scheduled : ∀ id ∈ s.graftTimerScheduled, id ∈ s'.graftTimerScheduled ∨ Carries fromContent e id
  cached : ∀ x ∈ s'.cache.entries, x ∈ s.cache.entries ∨ x.2.2.id = x.1 ∧ Carries fromContent e x.1
  out : ∀ x ∈ io', x ∈ io ∨ Origin fromContent s e x

variable {fromContent}

omit [DecidableEq PI] in
/-- A step that leaves the received ids, the armed timers and the cache alone. -/
theorem Traces.frame {s s' : State PI} {e : InEvent PI} {io io' : Outbox PI}
    (hr : s'.receivedMessages = s.receivedMessages)
    (hg : s'.graftTimerScheduled = s.graftTimerScheduled) (hc : s'.cache = s.cache)
    (ho : ∀ x ∈ io', x ∈ io ∨ Origin fromContent s e x) : Traces fromContent s e io s' io' where
  received _ h := .inl (hr ▸ h)
  scheduled _ h := .inl (hg ▸ h)
  cached _ h := .inl (hc ▸ h)
  out := ho

omit [DecidableEq PI] in
/-- A handler's lemma, read at the state and events it returned. -/
theorem Traces.of_eq {s s' : State PI} {e : InEvent PI} {io io' : Outbox PI}
    {p : State PI × Outbox PI} (h : Traces fromContent s e io p.1 p.2) (hp : p = (s', io')) :
    Traces fromContent s e io s' io' := by
  subst hp
  exact h

/-! ### The pushes and the tree optimisation -/

theorem mem_eagerPush {s : State PI} {g : Gossip} {sender : PI} {io : Outbox PI}
    {x : OutEvent PI} (h : x ∈ s.eagerPush g sender io) :
    x ∈ io ∨ ∃ peer, x = .sendMessage peer (.gossip g) := by
  simp only [eagerPush, List.mem_append, List.mem_map] at h
  rcases h with h | ⟨peer, -, rfl⟩
  · exact .inl h
  · exact .inr ⟨peer, rfl⟩

theorem mem_lazyPush {s s₀ : State PI} {e : InEvent PI} {g : Gossip} {sender : PI}
    {io : Outbox PI} {x : OutEvent PI} (h : x ∈ (s.lazyPush g sender io).2) :
    x ∈ io ∨ Origin fromContent s₀ e x := by
  unfold lazyPush at h
  split at h
  · exact .inl h
  · dsimp only at h
    split at h
    · rcases List.mem_append.mp h with h | h
      · exact .inl h
      · rw [List.mem_singleton.mp h]
        exact .inr .dispatch
    · exact .inl h

/-- `optimize_tree` adds a graft without an id and a prune. -/
theorem mem_optimizeTree {s s₀ : State PI} {e : InEvent PI} {sender : PI} {message : Gossip}
    {previousIhaves : List (PI × Round)} {io io' : Outbox PI} {x : OutEvent PI}
    (h : s.optimizeTree sender message previousIhaves io = .ok io') (hx : x ∈ io') :
    x ∈ io ∨ Origin fromContent s₀ e x := by
  unfold optimizeTree at h
  split at h
  · cases h
  · split at h
    · cases h
      exact .inl hx
    · split at h
      · split at h
        · cases h
        · split at h
          · -- an announcement came over far fewer hops: graft its sender, prune the payload's
            cases h
            rcases List.mem_append.mp hx with hx | hx
            · split at hx
              · rcases List.mem_append.mp hx with hx | hx
                · exact .inl hx
                · rw [List.mem_singleton.mp hx]
                  exact .inr .optimize
              · exact .inl hx
            · rw [List.mem_singleton.mp hx]
              exact .inr .prune
          · cases h
            exact .inl hx
      · cases h
        exact .inl hx

/-! ### The handlers -/

omit [DecidableEq PI] in
theorem onDispatchTimer_traces (s : State PI) (io : Outbox PI) :
    Traces fromContent s (.timerExpired .dispatchLazyPush) io (s.onDispatchTimer io).1
      (s.onDispatchTimer io).2 := by
  refine .frame rfl rfl rfl fun x hx => ?_
  simp only [onDispatchTimer, List.mem_append, List.mem_map] at hx
  rcases hx with hx | ⟨_, -, rfl⟩
  · exact .inl hx
  · exact .inr .iHave

omit [DecidableEq PI] in
/-- The eviction timer only shrinks the cache; it is also what the first event runs. -/
theorem onEvictCacheTimer_traces {e : InEvent PI} (s : State PI) (now : Nat) (io : Outbox PI) :
    Traces fromContent s e io (s.onEvictCacheTimer now io).1 (s.onEvictCacheTimer now io).2 where
  received _ h := .inl h
  scheduled _ h := .inl h
  cached _ h := .inl (TimeBoundCache.mem_expireUntil_entries h)
  out x hx := by
    simp only [onEvictCacheTimer, List.mem_append, List.mem_singleton] at hx
    rcases hx with hx | rfl
    · exact .inl hx
    · exact .inr .evict

omit [DecidableEq PI] in
/-- An origin under a state whose received ids and timers are those of another, and
whose cache holds no more, is one under the other. -/
theorem Origin.mono {s₀ s : State PI} {e : InEvent PI} {x : OutEvent PI}
    (h : Origin fromContent s₀ e x) (hr : s₀.receivedMessages = s.receivedMessages)
    (hg : s₀.graftTimerScheduled = s.graftTimerScheduled)
    (hc : ∀ y ∈ s₀.cache.entries, y ∈ s.cache.entries) : Origin fromContent s e x := by
  cases h with
  | forward he hn hid => exact .forward he (hr ▸ hn) hid
  | answer he hm => exact .answer he (hc _ hm)
  | own he hid => exact .own he hid
  | request he => exact .request he
  | rearm he => exact .rearm he
  | arm he hn => exact .arm he (hg ▸ hn)
  | deliver he hv => exact .deliver he hv
  | prune => exact .prune
  | iHave => exact .iHave
  | optimize => exact .optimize
  | dispatch => exact .dispatch
  | evict => exact .evict

theorem onGraft_traces (s : State PI) (sender : PI) (details : Graft) (io : Outbox PI) :
    Traces fromContent s (.recvMessage sender (.graft details)) io (s.onGraft sender details io).1
      (s.onGraft sender details io).2 := by
  unfold onGraft
  dsimp only
  split
  · rename_i id hid
    split
    · rename_i message hget
      refine .frame rfl rfl rfl fun x hx => ?_
      rcases List.mem_append.mp hx with hx | hx
      · exact .inl hx
      · rw [List.mem_singleton.mp hx]
        obtain ⟨expires, hmem⟩ := TimeBoundCache.mem_of_get hget
        obtain ⟨_, round⟩ := details
        subst hid
        exact .inr (.answer rfl hmem)
    · exact .frame rfl rfl rfl fun x hx => .inl hx
  · exact .frame rfl rfl rfl fun x hx => .inl hx

theorem onSendGraftTimer_traces (s : State PI) (id : MessageId) (io : Outbox PI) :
    Traces fromContent s (.timerExpired (.sendGraft id)) io (s.onSendGraftTimer id io).1
      (s.onSendGraftTimer id io).2 := by
  unfold onSendGraftTimer
  split
  · exact .frame rfl rfl rfl fun x hx => .inl hx
  · dsimp only
    split
    · refine .frame rfl rfl rfl fun x hx => ?_
      simp only [List.mem_append, List.mem_cons, List.not_mem_nil, or_false] at hx
      rcases hx with hx | rfl | rfl
      · exact .inl hx
      · exact .inr (.request rfl)
      · exact .inr (.rearm rfl)
    · exact .frame rfl rfl rfl fun x hx => .inl hx

omit [DecidableEq PI] in
/-- `on_ihave` arms timers only for payloads whose timer was not armed before, and keeps
every armed timer armed. -/
theorem onIHave_traces (s : State PI) (sender : PI) (iHaves : List IHave) (io : Outbox PI) :
    Traces fromContent s (.recvMessage sender (.iHave iHaves)) io (s.onIHave sender iHaves io).1
      (s.onIHave sender iHaves io).2 := by
  -- the loop is traced against the state it started from, whose armed timers it keeps
  suffices h : ∀ (s₁ : State PI) (rest : List IHave) (io₁ : Outbox PI),
      s₁.receivedMessages = s.receivedMessages → s₁.cache = s.cache →
      (∀ id ∈ s.graftTimerScheduled, id ∈ s₁.graftTimerScheduled) →
      (∀ x ∈ io₁, x ∈ io ∨ Origin fromContent s (.recvMessage sender (.iHave iHaves)) x) →
      Traces fromContent s (.recvMessage sender (.iHave iHaves)) io (s₁.onIHave sender rest io₁).1
        (s₁.onIHave sender rest io₁).2 from
    h s iHaves io rfl rfl (fun _ h => h) fun x hx => .inl hx
  intro s₁ rest
  induction rest generalizing s₁ with
  | nil =>
    intro io₁ hr hc hg ho
    exact ⟨fun _ h => .inl (hr ▸ h), fun id h => .inl (hg id h), fun _ h => .inl (hc ▸ h), ho⟩
  | cons iHave rest ih =>
    intro io₁ hr hc hg ho
    unfold onIHave
    dsimp only
    apply ih
    all_goals unfold onIHaveOne
    · split
      · dsimp only
        split <;> exact hr
      · exact hr
    · split
      · dsimp only
        split <;> exact hc
      · exact hc
    · intro id hid
      split
      · dsimp only
        split
        · exact IndexSet.mem_insert.mpr (.inl (hg id hid))
        · exact hg id hid
      · exact hg id hid
    · intro x hx
      split at hx
      · dsimp only at hx
        split at hx
        · rename_i hnot
          rcases List.mem_append.mp hx with hx | hx
          · exact ho x hx
          · rw [List.mem_singleton.mp hx]
            have hn : iHave.id ∉ s₁.graftTimerScheduled := fun h => by
              simp [IndexSet.contains_iff.mpr h] at hnot
            exact .inr (.arm rfl fun h => hn (hg _ h))
        · exact ho x hx
      · exact ho x hx

/-- `on_gossip`: a new swarm payload is recorded, cached under its id, forwarded and
delivered; a duplicate prunes its sender. -/
theorem onGossip_traces {s s' : State PI} {sender : PI} {g : Gossip} {now : Nat}
    {io io' : Outbox PI} (hr : s.onGossip fromContent sender g now io = .ok (s', io')) :
    Traces fromContent s (.recvMessage sender (.gossip g)) io s' io' := by
  have hcarries : Carries fromContent (.recvMessage sender (.gossip g)) g.id :=
    .inl ⟨sender, g, rfl, rfl⟩
  have hdeliver : g.validate fromContent = true → ∀ {io₁ : Outbox PI}, (∀ x ∈ io₁, x ∈ io ∨
      Origin fromContent s (.recvMessage sender (.gossip g)) x) →
      ∀ x ∈ io₁ ++ [.emitEvent (.received (.fromMessage g sender))],
        x ∈ io ∨ Origin fromContent s (.recvMessage sender (.gossip g)) x := by
    intro hv io₁ h₁ x hx
    rcases List.mem_append.mp hx with hx | hx
    · exact h₁ x hx
    · rw [List.mem_singleton.mp hx]
      exact .inr (.deliver rfl hv)
  rcases onGossip_cases fromContent hr with ⟨-, rfl, rfl⟩ | ⟨-, -, rfl, rfl⟩ |
    ⟨hv, -, -, rfl, rfl⟩ | ⟨hv, hc, r, m, io₁, -, hn, rfl, rfl, hio⟩
  · exact .frame rfl rfl rfl fun x hx => .inl hx
  · refine .frame rfl rfl rfl fun x hx => ?_
    rcases List.mem_append.mp hx with hx | hx
    · exact .inl hx
    · rw [List.mem_singleton.mp hx]
      exact .inr .prune
  · exact .frame rfl rfl rfl (hdeliver hv fun x hx => .inl hx)
  · have hid := Gossip.id_of_nextRound hn
    have hpush : ∀ (t : State PI) x, x ∈ (t.lazyPush m sender (t.eagerPush m sender io)).2 →
        x ∈ io ∨ Origin fromContent s (.recvMessage sender (.gossip g)) x := by
      intro t x hx
      rcases mem_lazyPush hx with hx | hx
      · rcases mem_eagerPush hx with hx | ⟨peer, rfl⟩
        · exact .inl hx
        · exact .inr (.forward rfl hc hid)
      · exact .inr hx
    have hout : ∀ x ∈ io₁, x ∈ io ∨ Origin fromContent s (.recvMessage sender (.gossip g)) x := by
      rcases hio with ⟨-, rfl⟩ | ⟨_, -, hopt⟩
      · exact hpush _
      · intro x hx
        rcases mem_optimizeTree hopt hx with hx | hx
        · exact hpush _ x hx
        · exact .inr hx
    refine ⟨fun id h => ?_, fun id h => ?_, fun x h => ?_, hdeliver hv hout⟩
    · simp only [lazyPush_receivedMessages] at h
      rcases TimeBoundCache.containsKey_insert.mp h with rfl | h
      · exact .inr hcarries
      · exact .inl h
    · simp only [lazyPush_graftTimerScheduled, hid]
      by_cases he : id = g.id
      · exact .inr (he ▸ hcarries)
      · exact .inl (IndexSet.mem_remove.mpr ⟨h, he⟩)
    · simp only [lazyPush_cache] at h
      rcases TimeBoundCache.mem_insert_entries h with h | rfl
      · exact .inl h
      · exact .inr ⟨rfl, hid ▸ hcarries⟩

theorem broadcast_traces (s : State PI) (content : List UInt8) (scope : Scope) (now : Nat)
    (io : Outbox PI) :
    Traces fromContent s (.broadcast content scope) io (s.broadcast fromContent content scope now io).1
      (s.broadcast fromContent content scope now io).2 := by
  have hcarries : Carries fromContent (.broadcast content scope : InEvent PI) (fromContent content) :=
    .inr ⟨content, scope, rfl, rfl⟩
  have hpush : ∀ (t : State PI) (g : Gossip) io₁, g.id = fromContent content →
      (∀ x ∈ io₁, x ∈ io ∨ Origin fromContent s (.broadcast content scope) x) →
      ∀ x ∈ t.eagerPush g s.me io₁, x ∈ io ∨ Origin fromContent s (.broadcast content scope) x := by
    intro t g io₁ hg h₁ x hx
    rcases mem_eagerPush hx with hx | ⟨peer, rfl⟩
    · exact h₁ x hx
    · exact .inr (.own rfl hg)
  cases scope with
  | neighbors => exact .frame rfl rfl rfl (hpush _ _ io rfl fun x hx => .inl hx)
  | swarm =>
    simp only [broadcast]
    refine ⟨fun id h => ?_, fun id h => .inl (by simpa using h), fun x h => ?_,
      hpush _ _ _ rfl fun x hx => mem_lazyPush hx⟩
    · simp only [lazyPush_receivedMessages] at h
      rcases TimeBoundCache.containsKey_insert.mp h with rfl | h
      · exact .inr hcarries
      · exact .inl h
    · simp only [lazyPush_cache] at h
      rcases TimeBoundCache.mem_insert_entries h with h | rfl
      · exact .inl h
      · exact .inr ⟨rfl, hcarries⟩

theorem dispatch_traces {s s' : State PI} {e : InEvent PI} {now : Nat} {io io' : Outbox PI}
    (hr : s.dispatch fromContent e now io = .ok (s', io')) : Traces fromContent s e io s' io' := by
  cases e with
  | recvMessage sender message =>
    cases message with
    | gossip g => exact onGossip_traces hr
    | prune =>
      cases hr
      exact .frame rfl rfl rfl fun x hx => .inl hx
    | iHave iHaves => exact (onIHave_traces s sender iHaves io).of_eq (Except.ok.inj hr)
    | graft details => exact (onGraft_traces s sender details io).of_eq (Except.ok.inj hr)
  | broadcast content scope =>
    cases hr
    exact broadcast_traces s content scope now io
  | neighborUp peer =>
    cases hr
    exact .frame rfl rfl rfl fun x hx => .inl hx
  | neighborDown peer =>
    cases hr
    exact .frame rfl rfl rfl fun x hx => .inl hx
  | timerExpired timer =>
    cases timer with
    | sendGraft id => exact (onSendGraftTimer_traces s id io).of_eq (Except.ok.inj hr)
    | dispatchLazyPush => exact (onDispatchTimer_traces s io).of_eq (Except.ok.inj hr)
    | evictCache => exact (onEvictCacheTimer_traces s now io).of_eq (Except.ok.inj hr)

/-- **What every event does to the payloads.** -/
theorem handle_traces {s s' : State PI} {e : InEvent PI} {now : Nat} {io io' : Outbox PI}
    (hr : s.handle fromContent e now io = .ok (s', io')) : Traces fromContent s e io s' io' := by
  rcases handle_cases fromContent s e now io with ⟨-, he⟩ | ⟨-, he⟩ <;> rw [he] at hr
  · -- the first event starts the eviction timer, which only shrinks the cache
    have h₀ : Traces fromContent { s with init := true } e io _ _ :=
      onEvictCacheTimer_traces _ now io
    have h := dispatch_traces hr
    refine ⟨h.received, h.scheduled, fun x hx => ?_, fun x hx => ?_⟩
    · rcases h.cached x hx with hx | hx
      · exact h₀.cached x hx
      · exact .inr hx
    · rcases h.out x hx with hx | hx
      · exact (h₀.out x hx).imp_right fun ho => ho.mono rfl rfl fun _ hy => hy
      · exact .inr (hx.mono rfl rfl fun y hy => TimeBoundCache.mem_expireUntil_entries hy)
  · exact dispatch_traces hr

/-! ### One payload -/

/-- A node that waits for payload `i` and will not ask for it: not received, its graft
timer marked as armed, and no payload with the id in its cache. -/
structure Awaits (i : MessageId) (s : State PI) : Prop where
  notReceived : s.receivedMessages.containsKey i = false
  armed : i ∈ s.graftTimerScheduled
  uncached : ∀ x ∈ s.cache.entries, x.2.2.id ≠ i

instance (i : MessageId) (s : State PI) : Decidable (Awaits i s) :=
  decidable_of_iff (_ ∧ _ ∧ _) ⟨fun ⟨h₁, h₂, h₃⟩ => ⟨h₁, h₂, h₃⟩, fun ⟨h₁, h₂, h₃⟩ => ⟨h₁, h₂, h₃⟩⟩

/-- A node that has payload `i`, with a cache that keys every payload by its id. -/
structure Holds (i : MessageId) (s : State PI) : Prop where
  received : s.receivedMessages.containsKey i = true
  keyed : ∀ x ∈ s.cache.entries, x.2.2.id = x.1

instance (i : MessageId) (s : State PI) : Decidable (Holds i s) :=
  decidable_of_iff (_ ∧ _) ⟨fun ⟨h₁, h₂⟩ => ⟨h₁, h₂⟩, fun ⟨h₁, h₂⟩ => ⟨h₁, h₂⟩⟩

/-- An event that brings no payload with id `i` and does not fire its graft timer. -/
def Spares (i : MessageId) : InEvent PI → Prop
  | .recvMessage _ (.gossip g) => g.id ≠ i
  | .broadcast _ _ => False
  | .timerExpired (.sendGraft id) => id ≠ i
  | _ => True

variable (fromContent) in
/-- An event emitted about payload `i`: the payload sent, a graft that names it, its
graft timer, or its delivery. -/
def Touches (i : MessageId) : OutEvent PI → Prop
  | .sendMessage _ (.gossip g) => g.id = i
  | .sendMessage _ (.graft ⟨some id, _⟩) => id = i
  | .scheduleTimer _ (.sendGraft id) => id = i
  | .emitEvent (.received ev) => fromContent ev.content = i
  | _ => False

omit [DecidableEq PI] in
theorem Spares.not_carries {i : MessageId} {e : InEvent PI} (h : Spares i e) :
    ¬ Carries fromContent e i := by
  rintro (⟨sender, g, rfl, rfl⟩ | ⟨content, scope, rfl, -⟩)
  · exact h rfl
  · exact h

omit [DecidableEq PI] in
/-- **A waiting node keeps waiting**, and emits nothing about the payload, under every
event that spares it. -/
theorem Traces.awaits {i : MessageId} {s s' : State PI} {e : InEvent PI} {io io' : Outbox PI}
    (h : Traces fromContent s e io s' io') (ha : Awaits i s) (he : Spares i e) :
    Awaits i s' ∧ ∀ x ∈ io', x ∈ io ∨ ¬ Touches fromContent i x := by
  have hnc : ¬ Carries fromContent e i := he.not_carries
  refine ⟨⟨?_, (h.scheduled i ha.armed).resolve_right hnc, fun x hx => ?_⟩, fun x hx => ?_⟩
  · cases hr : s'.receivedMessages.containsKey i
    · rfl
    · rcases h.received i hr with hi | hi
      · rw [ha.notReceived] at hi
        cases hi
      · exact absurd hi hnc
  · rcases h.cached x hx with hx | ⟨hk, hc⟩
    · exact ha.uncached x hx
    · intro hi
      rw [hk] at hi
      exact hnc (hi ▸ hc)
  · refine (h.out x hx).imp_right fun ho => ?_
    -- each reason to emit something about the payload is ruled out by the event or the state
    cases ho with
    | forward he' _ hid =>
      subst he'
      show ¬ _ = i
      rw [hid]
      exact he
    | answer _ hm => exact ha.uncached _ hm
    | own he' => subst he'; exact he.elim
    | request he' => subst he'; exact he
    | rearm he' => subst he'; exact he
    | arm _ hn => exact fun hid => hn (hid ▸ ha.armed)
    | deliver he' hv =>
      subst he'
      exact fun hi => he ((beq_iff_eq.mp hv).symm.trans hi)
    | prune => exact id
    | iHave => exact id
    | optimize => exact id
    | dispatch => exact id
    | evict => exact id

omit [DecidableEq PI] in
/-- **A holder sends the payload only to a peer that grafted it.** -/
theorem Traces.holds {i : MessageId} {s s' : State PI} {e : InEvent PI} {io io' : Outbox PI}
    (h : Traces fromContent s e io s' io') (hh : Holds i s)
    (hmono : s.receivedMessages.containsKey i = true → s'.receivedMessages.containsKey i = true)
    (hb : ∀ content scope, e ≠ .broadcast content scope) :
    Holds i s' ∧ ∀ x ∈ io', x ∈ io ∨ ∀ peer g, x = .sendMessage peer (.gossip g) → g.id = i →
      ∃ round, e = .recvMessage peer (.graft ⟨some i, round⟩) := by
  refine ⟨⟨hmono hh.received, fun x hx => ?_⟩, fun x hx => ?_⟩
  · rcases h.cached x hx with hx | ⟨hk, -⟩
    · exact hh.keyed x hx
    · exact hk
  · refine (h.out x hx).imp_right fun ho peer g hx hg => ?_
    cases ho with
    | forward _ hn hid =>
      cases hx
      rw [← hid, hg, hh.received] at hn
      cases hn
    | answer he hm =>
      cases hx
      have hk := hh.keyed _ hm
      rw [hg] at hk
      subst hk
      exact ⟨_, he⟩
    | own he => exact absurd he (hb _ _)
    | request => cases hx
    | rearm => cases hx
    | arm => cases hx
    | deliver => cases hx
    | prune => cases hx
    | iHave => cases hx
    | optimize => cases hx
    | dispatch => cases hx
    | evict => cases hx

/-- What every event does to a waiting node. -/
theorem handle_awaits {i : MessageId} {s s' : State PI} {e : InEvent PI} {now : Nat}
    {io io' : Outbox PI} (hr : s.handle fromContent e now io = .ok (s', io')) (ha : Awaits i s)
    (he : Spares i e) : Awaits i s' ∧ ∀ x ∈ io', x ∈ io ∨ ¬ Touches fromContent i x :=
  (handle_traces hr).awaits ha he

/-- What every event but a broadcast does to a holder. -/
theorem handle_holds {i : MessageId} {s s' : State PI} {e : InEvent PI} {now : Nat}
    {io io' : Outbox PI} (hr : s.handle fromContent e now io = .ok (s', io')) (hh : Holds i s)
    (hb : ∀ content scope, e ≠ .broadcast content scope) :
    Holds i s' ∧ ∀ x ∈ io', x ∈ io ∨ ∀ peer g, x = .sendMessage peer (.gossip g) → g.id = i →
      ∃ round, e = .recvMessage peer (.graft ⟨some i, round⟩) :=
  (handle_traces hr).holds hh ((handle_delivery hr).mono i) hb

/-! ### What the retention settings bound

`message_id_retention` goes into each received id's expiry, which nothing reads: no
handler removes a received id (`received_persists`), so the ids grow with every
payload seen. The eviction timer expires the payload cache alone
(`handle_evictCache_cache`). A node waiting for a payload stays so under every event
that spares it (`Awaits.persists`), also once the announcements are used up and no graft
timer is left to fire, with the emptied entry of `missing_messages` kept
(`retention_keeps_ids`). -/

/-- **A received id stays received along every run.** -/
theorem received_persists {s s' : State PI} {inputs : List (InEvent PI × Nat)} {out : Outbox PI}
    {i : MessageId} (hi : s.receivedMessages.containsKey i = true)
    (hrun : Machine.run (fun s e => s.handle fromContent e.1 e.2 []) s inputs = .ok (s', out)) :
    s'.receivedMessages.containsKey i = true :=
  Machine.run_invariant (fun s => s.receivedMessages.containsKey i = true)
    (fun _ _ _ _ h hs => (handle_delivery hs).mono i h) hi hrun

/-- A payload broadcast at time 0 stays received past the eviction timer at 1000000. -/
theorem received_persists_broadcast :
    let fromContent : List UInt8 → MessageId := fun _ => 0
    let step := fun (s : State Nat) (e : InEvent Nat × Nat) => s.handle fromContent e.1 e.2 []
    ∃ s₁ o₁ s₂ o₂, Machine.run step (new 0 Config.default) [(.broadcast [1] .swarm, 0)] = .ok (s₁, o₁) ∧
      s₁.receivedMessages.containsKey 0 = true ∧
      Machine.run step s₁ [(.timerExpired .evictCache, 1000000)] = .ok (s₂, o₂) ∧
      s₂.receivedMessages.containsKey 0 = true := by
  intro fromContent step
  obtain ⟨s₁, o₁, s₂, o₂, h₁, hi, h₂⟩ : ∃ s₁ o₁ s₂ o₂,
      Machine.run step (new 0 Config.default) [(.broadcast [1] .swarm, 0)] = .ok (s₁, o₁) ∧
      s₁.receivedMessages.containsKey 0 = true ∧
      Machine.run step s₁ [(.timerExpired .evictCache, 1000000)] = .ok (s₂, o₂) :=
    ⟨_, _, _, _, rfl, by decide, rfl⟩
  exact ⟨s₁, o₁, s₂, o₂, h₁, hi, h₂, received_persists hi h₂⟩

/-- After the eviction timer, every cached payload expires later. -/
theorem handle_evictCache_cache {s s' : State PI} {now : Nat} {io io' : Outbox PI}
    (hr : s.handle fromContent (.timerExpired .evictCache) now io = .ok (s', io')) :
    ∀ x ∈ s'.cache.entries, now < x.2.1 := by
  intro x hx
  -- the handler's own eviction runs last, whether or not the first event's ran before it
  have hcache : ∃ c : TimeBoundCache MessageId Gossip, s'.cache = c.expireUntil now := by
    rcases handle_cases fromContent s (.timerExpired .evictCache) now io with ⟨-, he⟩ | ⟨-, he⟩ <;>
      simp only [he, dispatch, Except.ok.injEq] at hr <;>
      exact ⟨_, (congrArg (fun p => p.1.cache) hr).symm⟩
  obtain ⟨c, hc⟩ := hcache
  rw [hc] at hx
  exact of_decide_eq_true (List.mem_filter.mp hx).2

/-- A payload broadcast at time 0: the eviction timer at 5 keeps it, its expiry being later. -/
theorem handle_evictCache_cache_broadcast :
    let fromContent : List UInt8 → MessageId := fun _ => 0
    ∃ s₁ o₁ s₂ o₂, (new 0 Config.default : State Nat).handle fromContent (.broadcast [1] .swarm) 0 [] =
        .ok (s₁, o₁) ∧ s₁.handle fromContent (.timerExpired .evictCache) 5 [] = .ok (s₂, o₂) ∧
      s₂.cache.entries ≠ [] ∧ ∀ x ∈ s₂.cache.entries, 5 < x.2.1 := by
  intro fromContent
  obtain ⟨s₁, o₁, s₂, o₂, h₁, h₂, hne⟩ : ∃ s₁ o₁ s₂ o₂,
      (new 0 Config.default : State Nat).handle fromContent (.broadcast [1] .swarm) 0 [] = .ok (s₁, o₁) ∧
      s₁.handle fromContent (.timerExpired .evictCache) 5 [] = .ok (s₂, o₂) ∧ s₂.cache.entries ≠ [] :=
    ⟨_, _, _, _, rfl, rfl, by decide⟩
  exact ⟨s₁, o₁, s₂, o₂, h₁, h₂, hne, handle_evictCache_cache h₂⟩

/-- **A waiting node keeps waiting along every run** of events that spare the payload. -/
theorem Awaits.persists {i : MessageId} {s s' : State PI} {inputs : List (InEvent PI × Nat)}
    {out : Outbox PI} (ha : Awaits i s) (hs : ∀ e ∈ inputs, Spares i e.1)
    (hrun : Machine.run (fun s e => s.handle fromContent e.1 e.2 []) s inputs = .ok (s', out)) :
    Awaits i s' := by
  induction inputs generalizing s out with
  | nil =>
    simp only [Machine.run_nil, Except.ok.injEq, Prod.mk.injEq] at hrun
    exact hrun.1 ▸ ha
  | cons e inputs ih =>
    obtain ⟨s₁, o₁, o₂, hstep, hrest, -⟩ := Machine.run_cons_eq_ok hrun
    exact ih (handle_awaits hstep ha (hs e (List.mem_cons_self ..))).1
      (fun e he => hs e (List.mem_cons_of_mem _ he)) hrest

/-- A node told of payload 7 at time 0 waits for it past the eviction timer at 5. -/
theorem awaits_persists_evictCache :
    let fromContent : List UInt8 → MessageId := fun _ => 0
    let step := fun (s : State Nat) (e : InEvent Nat × Nat) => s.handle fromContent e.1 e.2 []
    ∃ s₁ o₁ s₂ o₂, Machine.run step (new 0 Config.default) [(.recvMessage 1 (.iHave [⟨7, ⟨0⟩⟩]), 0)] =
        .ok (s₁, o₁) ∧ Awaits 7 s₁ ∧ Machine.run step s₁ [(.timerExpired .evictCache, 5)] = .ok (s₂, o₂) ∧
      Awaits 7 s₂ := by
  intro fromContent step
  obtain ⟨s₁, o₁, s₂, o₂, h₁, ha, h₂⟩ : ∃ s₁ o₁ s₂ o₂,
      Machine.run step (new 0 Config.default) [(.recvMessage 1 (.iHave [⟨7, ⟨0⟩⟩]), 0)] = .ok (s₁, o₁) ∧
      Awaits 7 s₁ ∧ Machine.run step s₁ [(.timerExpired .evictCache, 5)] = .ok (s₂, o₂) :=
    ⟨_, _, _, _, rfl, by decide, rfl⟩
  have hs : ∀ e ∈ [((.timerExpired .evictCache : InEvent Nat), 5)], Spares 7 e.1 := by
    intro e he
    rw [List.mem_singleton.mp he]
    trivial
  exact ⟨s₁, o₁, s₂, o₂, h₁, ha, h₂, Awaits.persists ha hs h₂⟩

omit [DecidableEq PI] in
/-- **Ids outlive their retention**: a payload broadcast at time 0, and another
announced at time 0 by its only announcer, grafted from it at 80 and due again at 120
with no announcer left; at the eviction timer at 1000000, past every retention and
timeout, the cache is empty, but the broadcast id is still received, and the node
still waits for the other payload, with its graft mark and its emptied entry of
`missing_messages`. -/
theorem retention_keeps_ids :
    let fromContent : List UInt8 → MessageId := fun _ => 0
    let inputs : List (InEvent Nat × Nat) :=
      [(.broadcast [1] .swarm, 0), (.recvMessage 1 (.iHave [⟨7, ⟨0⟩⟩]), 0),
        (.timerExpired (.sendGraft 7), 80), (.timerExpired (.sendGraft 7), 120),
        (.timerExpired .evictCache, 1000000)]
    ∃ s out, Machine.run (fun s e => s.handle fromContent e.1 e.2 []) (new 0 Config.default) inputs =
        .ok (s, out) ∧
      s.cache.entries = [] ∧ s.receivedMessages.containsKey 0 = true ∧ Awaits 7 s ∧
      s.missingMessages = [(7, [])] := by
  intro fromContent inputs
  exact ⟨_, _, rfl, by decide⟩

end State

end Plumtree

end Iroh.Gossip
