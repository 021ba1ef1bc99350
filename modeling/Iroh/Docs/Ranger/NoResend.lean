import Iroh.Docs.Ranger.Exchange
import Iroh.Docs.Ranger.SimpleStore

/-! No key is sent twice: the duplicate check of `sync_with_validate_cb_and_assert`.

The ranges the exchange works on form a tree: a fingerprint part is answered inside
its own range, by its pieces or by our entries, and entries asked for are answered
in the asking part's range. The invariant `NoResend` of the message in flight says
that its parts do not meet (`apart`), that every part asking for an answer lies
away from every key the receiver already sent (`fresh_receiver`), and that every
fingerprint part lies away from every key the sender sent, this message included
(`fresh_sender`). A turn keeps it (`NoResend.turn`) for any store that reads its
ranges in key order (`Store.OrderedRanges`), and at the end of the exchange it says
that each side's keys are distinct (`sync_sends_no_key_twice`). -/
namespace Iroh.Docs.Ranger

variable {σ E K V : Type} [LinearOrder K]

namespace MessagePart

/-- Two parts whose ranges do not meet. -/
def Apart (a b : MessagePart E K) : Prop := Disjoint a.range.toSet b.range.toSet

instance : Std.Symm (Apart (E := E) (K := K)) := ⟨fun _ _ h => h.symm⟩

/-- The keys of the entries a part carries. -/
def keys (R : RangeEntry E K V) (P : MessagePart E K) : List K :=
  (P.values.getD []).map fun v => R.key v.1

/-- A part's keys are distinct and inside its range. -/
def WellKeyed (R : RangeEntry E K V) (P : MessagePart E K) : Prop :=
  (P.keys R).Nodup ∧ ∀ k ∈ P.keys R, k ∈ P.range.toSet

omit [LinearOrder K] in
theorem keys_rangeFingerprint (R : RangeEntry E K V) (f : RangeFingerprint K) :
    (rangeFingerprint f : MessagePart E K).keys R = [] := rfl

end MessagePart

/-- The keys of every entry a list of messages carried. -/
def sentKeys (R : RangeEntry E K V) (log : List (Message E K)) : List K :=
  (log.flatMap Message.values).map fun v => R.key v.1

omit [LinearOrder K] in
theorem sentKeys_nil (R : RangeEntry E K V) : sentKeys R ([] : List (Message E K)) = [] := rfl

omit [LinearOrder K] in
theorem sentKeys_append_singleton (R : RangeEntry E K V) (log : List (Message E K))
    (m : Message E K) :
    sentKeys R (log ++ [m]) = sentKeys R log ++ m.parts.flatMap (MessagePart.keys R) := by
  simp [sentKeys, Message.values, List.map_flatMap]
  rfl

/-- Parts that do not meet, each with distinct keys inside its range, carry distinct
keys. -/
theorem nodup_flatMap_keys {R : RangeEntry E K V} {parts : List (MessagePart E K)}
    (hwk : ∀ P ∈ parts, P.WellKeyed R) (hap : parts.Pairwise MessagePart.Apart) :
    (parts.flatMap (MessagePart.keys R)).Nodup := by
  refine List.nodup_flatMap.mpr ⟨fun P hP => (hwk P hP).1, hap.imp_of_mem ?_⟩
  intro a b ha hb hab k hka hkb
  exact Set.disjoint_left.mp hab ((hwk a ha).2 k hka) ((hwk b hb).2 k hkb)

/-- The invariant of the exchange: `ls` the sender's earlier messages, `lr` the
receiver's, `parts` the message in flight. -/
structure NoResend (R : RangeEntry E K V) (ls lr : List (Message E K))
    (parts : List (MessagePart E K)) : Prop where
  sender : (sentKeys R ls ++ parts.flatMap (MessagePart.keys R)).Nodup
  receiver : (sentKeys R lr).Nodup
  apart : parts.Pairwise MessagePart.Apart
  fresh_receiver : ∀ P ∈ parts, P.asksAnswer = true → ∀ k ∈ sentKeys R lr, k ∉ P.range.toSet
  fresh_sender : ∀ f, .rangeFingerprint f ∈ parts →
    ∀ k ∈ sentKeys R ls ++ parts.flatMap (MessagePart.keys R), k ∉ f.range.toSet

section Reply
variable [LE V] [DecidableRel (α := V) (· ≤ ·)]
variable {S : Store σ E K V} {R : RangeEntry E K V} (hS : S.OrderedRanges R)
variable (cb : Callbacks σ E) (empty : Fingerprint)
include hS

omit [LE V] [DecidableRel (α := V) (· ≤ ·)] in
/-- Our entries of a range, as sent, are well keyed. -/
theorem wellKeyed_getRange (s : σ) (r : Range K) (haveLocal : Bool) :
    (MessagePart.rangeItem ⟨r, withStatus cb s (S.getRange s r), haveLocal⟩).WellKeyed R := by
  have hkeys : (MessagePart.rangeItem ⟨r, withStatus cb s (S.getRange s r), haveLocal⟩).keys R =
      (S.getRange s r).map R.key := by
    simp [MessagePart.keys, MessagePart.values, withStatus]
  rw [MessagePart.WellKeyed, hkeys]
  refine ⟨(hS.sorted s r).imp ne_of_lt, fun k hk => ?_⟩
  obtain ⟨e, he, rfl⟩ := List.mem_map.mp hk
  exact hS.contains s r e he

/-- An item reply carries part of our entries of the item's range. -/
theorem wellKeyed_itemReply {s : σ} {item : RangeItem E K} {P : MessagePart E K}
    (h : P ∈ itemReply S R cb s item) : P.WellKeyed R := by
  obtain ⟨-, rfl⟩ := mem_itemReply S R cb h
  have hsub : ((MessagePart.rangeItem ⟨item.range, itemDiff S R cb s item, true⟩ :
      MessagePart E K).keys R).Sublist ((S.getRange s item.range).map R.key) := by
    simp only [MessagePart.keys, MessagePart.values, Option.getD_some, itemDiff, List.map_map]
    exact (List.filter_sublist).map R.key
  refine ⟨((hS.sorted s item.range).imp ne_of_lt).sublist hsub, fun k hk => ?_⟩
  obtain ⟨e, he, rfl⟩ := List.mem_map.mp (hsub.subset hk)
  exact hS.contains s item.range e he

omit [LE V] [DecidableRel (α := V) (· ≤ ·)] in
theorem wellKeyed_processFingerprint {s : σ} {fp : RangeFingerprint K} {P : MessagePart E K}
    (h : P ∈ processFingerprint S R cb SyncConfig.default empty s fp) : P.WellKeyed R := by
  obtain ⟨-, rfl | ⟨-, q, -, rfl⟩⟩ := mem_processFingerprint S R cb SyncConfig.default empty h
  · exact wellKeyed_getRange hS cb s fp.range false
  · rcases splitPart_cases S cb SyncConfig.default s q with h | h <;> rw [h]
    · exact ⟨List.nodup_nil, fun k hk => absurd hk List.not_mem_nil⟩
    · exact wellKeyed_getRange hS cb s q false

theorem wellKeyed_replyParts {s : σ} {msg : Message E K} {P : MessagePart E K}
    (h : P ∈ replyParts S R cb SyncConfig.default empty s msg) : P.WellKeyed R := by
  rcases mem_replyParts S R cb SyncConfig.default empty h with ⟨item, -, si, hP⟩ | ⟨f, -, hP⟩
  · exact wellKeyed_itemReply hS cb hP
  · exact wellKeyed_processFingerprint hS cb empty hP

/-- Every reply part lies in the part it answers, which asked for an answer; a reply
that asks in turn answers a fingerprint part. -/
theorem replyParts_origin {s : σ} {msg : Message E K} {P : MessagePart E K}
    (h : P ∈ replyParts S R cb SyncConfig.default empty s msg) :
    ∃ O ∈ msg.parts, P.range.toSet ⊆ O.range.toSet ∧ O.asksAnswer = true ∧
      (P.asksAnswer = true → ∃ f, O = .rangeFingerprint f) := by
  rcases mem_replyParts S R cb SyncConfig.default empty h with ⟨item, hitem, si, hP⟩ | ⟨f, hf, hP⟩
  · -- our entries, answering items the peer sent without having ours
    obtain ⟨hl, rfl⟩ := mem_itemReply S R cb hP
    refine ⟨.rangeItem item, Message.mem_items.mp hitem, subset_rfl, by simp [MessagePart.asksAnswer, hl],
      fun hask => absurd hask (by simp [MessagePart.asksAnswer])⟩
  · obtain ⟨hsub, -⟩ := processFingerprint_sub hS cb empty hP
    exact ⟨.rangeFingerprint f, Message.mem_fingerprints.mp hf, hsub, rfl, fun _ => ⟨f, rfl⟩⟩

omit [LE V] [DecidableRel (α := V) (· ≤ ·)] in
/-- The answers to one fingerprint part do not meet. -/
theorem processFingerprint_apart (s : σ) (fp : RangeFingerprint K) :
    (processFingerprint S R cb SyncConfig.default empty s fp).Pairwise MessagePart.Apart := by
  rcases processFingerprint_cases S R cb SyncConfig.default empty s fp with
    ⟨-, hnil⟩ | ⟨-, hanchor | ⟨hn, hsplit⟩⟩
  · rw [hnil]
    exact List.Pairwise.nil
  · rw [hanchor]
    exact List.pairwise_singleton _ _
  · -- the pieces of a split partition the range
    rw [hsplit, List.pairwise_map]
    refine (hS.partition s fp.range hn).disjoint.imp fun {a b} hab => ?_
    rw [MessagePart.Apart, splitPart_range, splitPart_range]
    exact hab

/-- A reply's parts do not meet when the message's parts do not. -/
theorem replyParts_apart {s : σ} {msg : Message E K} (hap : msg.parts.Pairwise MessagePart.Apart) :
    (replyParts S R cb SyncConfig.default empty s msg).Pairwise MessagePart.Apart := by
  obtain ⟨-, -, new, hnew, hsub, hparts⟩ := foldl_processItem S R cb (fun _ _ => True)
    (fun _ => trivial) (fun _ _ _ _ _ => trivial) msg.items (fun _ _ _ => trivial) s [] []
  have hranges : (msg.parts.map MessagePart.range).Pairwise fun a b => Disjoint a.toSet b.toSet :=
    List.pairwise_map.mpr hap
  have hitems : (msg.items.map (·.range)).Sublist (msg.parts.map MessagePart.range) := by
    have := msg.items_sublist.map MessagePart.range
    rwa [List.map_map] at this
  have hfps : msg.fingerprints.Pairwise fun a b => Disjoint a.range.toSet b.range.toSet := by
    have := hap.sublist msg.fingerprints_sublist
    exact (List.pairwise_map (f := MessagePart.rangeFingerprint)).mp this
  unfold replyParts
  dsimp only
  rw [hnew, List.nil_append, List.pairwise_append]
  refine ⟨?_, ?_, ?_⟩
  · -- item replies: their ranges are ranges of distinct items
    have := hranges.sublist (hsub.trans ((List.filter_sublist.map _).trans hitems))
    exact (List.pairwise_map (f := MessagePart.range)).mp this
  · -- fingerprint answers: inside ranges that do not meet
    refine List.pairwise_flatMap.mpr ⟨fun f _ => processFingerprint_apart hS cb empty _ f, ?_⟩
    refine hfps.imp fun {f₁ f₂} h₁₂ a ha b hb => ?_
    exact h₁₂.mono (processFingerprint_sub hS cb empty ha).1 (processFingerprint_sub hS cb empty hb).1
  · -- an item reply and a fingerprint answer: an item and a fingerprint part do not meet
    intro a ha b hb
    obtain ⟨item, hitem, si, -, -, haP⟩ := hparts a ha
    obtain ⟨f, hf, hbP⟩ := List.mem_flatMap.mp hb
    obtain ⟨-, rfl⟩ := mem_itemReply S R cb haP
    have hif : MessagePart.Apart (.rangeItem item) (.rangeFingerprint f) :=
      hap.forall (Message.mem_items.mp hitem) (Message.mem_fingerprints.mp hf) (by simp)
    exact hif.mono_right (processFingerprint_sub hS cb empty hbP).1

/-- One turn keeps the invariant: the receiver's reply is the new message in flight,
the old message joins the old sender's log. -/
theorem NoResend.turn {ls lr : List (Message E K)} {r : σ} {msg : Message E K}
    (h : NoResend R ls lr msg.parts) :
    NoResend R lr (ls ++ [msg]) (replyParts S R cb SyncConfig.default empty r msg) := by
  set reply := replyParts S R cb SyncConfig.default empty r msg
  have hwk : ∀ P ∈ reply, P.WellKeyed R := fun P hP => wellKeyed_replyParts hS cb empty hP
  have hap : reply.Pairwise MessagePart.Apart := replyParts_apart hS cb empty h.apart
  have hkey : ∀ k ∈ reply.flatMap (MessagePart.keys R), ∃ P ∈ reply, k ∈ P.keys R ∧
      k ∈ P.range.toSet := by
    intro k hk
    obtain ⟨P, hP, hkP⟩ := List.mem_flatMap.mp hk
    exact ⟨P, hP, hkP, (hwk P hP).2 k hkP⟩
  refine ⟨?_, ?_, hap, ?_, ?_⟩
  · -- the reply's keys are new to its sender
    refine List.nodup_append.mpr ⟨h.receiver, nodup_flatMap_keys hwk hap, ?_⟩
    rintro k hk _ hk' rfl
    obtain ⟨P, hP, -, hkP⟩ := hkey k hk'
    obtain ⟨O, hO, hsub, hask, -⟩ := replyParts_origin hS cb empty hP
    exact h.fresh_receiver O hO hask k hk (hsub hkP)
  · rw [sentKeys_append_singleton]
    exact h.sender
  · -- what asks now answers a fingerprint part, which lay away from the old sender's keys
    intro P hP hask k hk
    obtain ⟨O, hO, hsub, -, hfp⟩ := replyParts_origin hS cb empty hP
    obtain ⟨f, rfl⟩ := hfp hask
    rw [sentKeys_append_singleton] at hk
    exact fun hkP => h.fresh_sender f hO k hk (hsub hkP)
  · intro f' hf' k hk
    obtain ⟨O, hO, hsub, -, hfp⟩ := replyParts_origin hS cb empty hf'
    obtain ⟨f, rfl⟩ := hfp rfl
    rcases List.mem_append.mp hk with hk | hk
    · exact fun hkf => h.fresh_receiver _ hO rfl k hk (hsub hkf)
    · obtain ⟨P, hP, hkP, hkr⟩ := hkey k hk
      have hne : P ≠ .rangeFingerprint f' := by
        rintro rfl
        simp [MessagePart.keys_rangeFingerprint] at hkP
      exact Set.disjoint_left.mp (hap.forall hP hf' hne) hkr

end Reply

/-! ### The exchange -/

section Exchange
variable [LE V] [DecidableRel (α := V) (· ≤ ·)]
variable {S : Store σ E K V} {R : RangeEntry E K V} (hS : S.OrderedRanges R)
variable (empty : Fingerprint) (cbA cbB : Callbacks σ E)
include hS

omit hS [LE V] [DecidableRel (α := V) (· ≤ ·)] in
/-- The initial message is a single fingerprint part and nothing was sent yet. -/
theorem noResend_initialMessage (s : σ) :
    NoResend R [] [] (initialMessage S s).parts := by
  refine ⟨by simp [sentKeys_nil, initialMessage, MessagePart.keys_rangeFingerprint],
    by simp [sentKeys_nil], List.pairwise_singleton _ _, ?_, ?_⟩
  · intro P _ _ k hk
    simp [sentKeys_nil] at hk
  · intro f _ k hk
    simp [sentKeys_nil, initialMessage, MessagePart.keys_rangeFingerprint] at hk

/-- In every finished exchange, neither side sent a key twice. -/
theorem exchange_noResend (alice bob : σ) (maxRounds : Nat) (res : SyncResult σ E K)
    (hres : syncExchangeMessages S R empty cbA cbB alice bob maxRounds = some res) :
    (sentKeys R res.aliceToBob).Nodup ∧ (sentKeys R res.bobToAlice).Nodup := by
  let Inv : σ → σ → Option (Message E K) → List (Message E K) → List (Message E K) → Prop :=
    fun _ _ msg ls lr => NoResend R ls lr (Message.partsOf msg)
  have hturn : ∀ cb, TurnPreserves S R empty Inv cb := by
    intro cb s r msg ls lr hinv
    show NoResend R lr (ls ++ [msg]) (Message.partsOf _)
    rw [partsOf_processMessage]
    exact NoResend.turn hS cb empty hinv
  have hinit : Inv alice bob (some (initialMessage S alice)) [] [] :=
    noResend_initialMessage alice
  rcases exchangeLoop_inv (hturn cbA) (hturn cbB) maxRounds alice bob _ [] [] hinit res hres
    with h | h
  · exact ⟨by simpa [Message.partsOf] using h.sender, h.receiver⟩
  · exact ⟨h.receiver, by simpa [Message.partsOf] using h.sender⟩

end Exchange

/-! ### The tests' store -/

namespace SimpleStore
variable [RangeKey K] [Inhabited K]

/-- `SimpleStore::get_range` reads in key order and inside the range. -/
theorem orderedRanges (empty : Fingerprint) (h : K × V → Fingerprint) :
    (store empty h).OrderedRanges (entry h) where
  sorted s r := List.pairwise_map.mpr (getRange_sorted s r)
  contains _ _ _ he := (mem_getRange.mp he).2

end SimpleStore

theorem sync_sends_no_key_twice [RangeKey K] [Inhabited K] [LinearOrder V]
    (empty : Fingerprint) (h : K × V → Fingerprint)
    (cbA cbB : Callbacks (SimpleStore K V) (K × V)) (alice bob : SimpleStore K V)
    (maxRounds : Nat) (res : SyncResult (SimpleStore K V) (K × V) K)
    (hres : syncExchangeMessages (SimpleStore.store empty h) (SimpleStore.entry h) empty cbA cbB
      alice bob maxRounds = some res) :
    ((res.aliceToBob.flatMap Message.values).map fun v => v.1.1).Nodup ∧
      ((res.bobToAlice.flatMap Message.values).map fun v => v.1.1).Nodup :=
  exchange_noResend (SimpleStore.orderedRanges empty h) empty cbA cbB alice bob maxRounds res hres

/-- Alice with `[1] ↦ 5` and Bob with `[2] ↦ 3` reconcile without resending a key. -/
theorem sync_sends_no_key_twice_two_stores :
    let h : List Nat × Nat → Fingerprint := fun e => BitVec.ofNat 256 (e.2 + 1)
    let cb : Callbacks (SimpleStore (List Nat) Nat) (List Nat × Nat) :=
      ⟨fun _ _ _ => true, fun _ _ => .complete⟩
    let alice : SimpleStore (List Nat) Nat := ⟨[([1], 5)], by decide⟩
    let bob : SimpleStore (List Nat) Nat := ⟨[([2], 3)], by decide⟩
    ∃ res, syncExchangeMessages (SimpleStore.store 0 h) (SimpleStore.entry h) 0 cb cb alice bob 10 =
      some res ∧
      ((res.aliceToBob.flatMap Message.values).map fun v => v.1.1).Nodup ∧
        ((res.bobToAlice.flatMap Message.values).map fun v => v.1.1).Nodup :=
  ⟨_, Option.eq_some_of_isSome (by decide),
    sync_sends_no_key_twice 0 _ _ _ _ _ 10 _ (Option.eq_some_of_isSome (by decide))⟩

end Iroh.Docs.Ranger
