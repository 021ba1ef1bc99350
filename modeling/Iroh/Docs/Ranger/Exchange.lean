import Iroh.Docs.Ranger.Split

/-! The reconciliation as the tests run it, and what one `process_message` answers.

`sync_exchange_messages` starts from Alice's initial message and lets Bob and Alice
answer each other with the default `SyncConfig` until one of them has nothing to
say, failing after `max_rounds` rounds. `exchangeLoop_inv` and
`exchangeLoop_terminates` are its two induction rules: an invariant of the party
that sends, the party that receives and the message between them that each turn
keeps holds when the exchange ends, and a measure of the message that each turn
lowers bounds the rounds. `Turn` names the turns a run passes through, so that what
a run needs of each turn can be assumed of those turns only.

A turn's answer is assembled from its parts (`partsOf_processMessage`): the item
phase answers, in order, the items that ask for one, each at a state the phase
passes through (`foldl_processItem`), and every fingerprint part is then answered
against the store the items left (`mem_processFingerprint`). -/
namespace Iroh.Docs.Ranger

/-- The parts of a message that may be absent: none for no message. -/
def Message.partsOf {E K : Type} : Option (Message E K) → List (MessagePart E K)
  | none => []
  | some m => m.parts

namespace Message
variable {E K : Type}

theorem mem_items {m : Message E K} {i : RangeItem E K} :
    i ∈ m.items ↔ .rangeItem i ∈ m.parts := by
  simp only [items, List.mem_filterMap]
  constructor
  · rintro ⟨P, hP, hi⟩
    cases P <;> simp_all
  · intro h
    exact ⟨_, h, rfl⟩

theorem mem_fingerprints {m : Message E K} {f : RangeFingerprint K} :
    f ∈ m.fingerprints ↔ .rangeFingerprint f ∈ m.parts := by
  simp only [fingerprints, List.mem_filterMap]
  constructor
  · rintro ⟨P, hP, hf⟩
    cases P <;> simp_all
  · intro h
    exact ⟨_, h, rfl⟩

/-- The item parts, in their order, are a sublist of the parts... -/
theorem items_sublist (m : Message E K) : (m.items.map MessagePart.rangeItem).Sublist m.parts := by
  obtain ⟨parts⟩ := m
  unfold items
  induction parts with
  | nil => simp
  | cons P parts ih =>
    cases P with
    | rangeFingerprint f => exact ih.cons (.rangeFingerprint f)
    | rangeItem i => exact ih.cons_cons (.rangeItem i)

/-- ...and so are the fingerprint parts. -/
theorem fingerprints_sublist (m : Message E K) :
    (m.fingerprints.map MessagePart.rangeFingerprint).Sublist m.parts := by
  obtain ⟨parts⟩ := m
  unfold fingerprints
  induction parts with
  | nil => simp
  | cons P parts ih =>
    cases P with
    | rangeFingerprint f => exact ih.cons_cons (.rangeFingerprint f)
    | rangeItem i => exact ih.cons (.rangeItem i)

end Message

/-- `SyncResult` of the tests: both stores and the messages each side sent. -/
structure SyncResult (σ E K : Type) where
  alice : σ
  bob : σ
  aliceToBob : List (Message E K)
  bobToAlice : List (Message E K)

variable {σ E K V : Type} [LinearOrder K] [LE V] [DecidableRel (α := V) (· ≤ ·)]
variable (S : Store σ E K V) (R : RangeEntry E K V)

section Run
variable (empty : Fingerprint) (cbA cbB : Callbacks σ E)

/-- The loop of `sync_exchange_messages`: Bob answers the message to him, Alice the
answer; `none` is the `too many rounds` assertion. -/
def exchangeLoop : Nat → σ → σ → Option (Message E K) → List (Message E K) →
    List (Message E K) → Option (SyncResult σ E K)
  | _, alice, bob, none, a2b, b2a => some ⟨alice, bob, a2b, b2a⟩
  | 0, _, _, some _, _, _ => none
  | rounds + 1, alice, bob, some msg, a2b, b2a =>
    let (bob, _, reply) := processMessage S R cbB SyncConfig.default empty bob msg
    match reply with
    | none => some ⟨alice, bob, a2b ++ [msg], b2a⟩
    | some reply =>
      let (alice, _, next) := processMessage S R cbA SyncConfig.default empty alice reply
      exchangeLoop rounds alice bob next (a2b ++ [msg]) (b2a ++ [reply])

/-- `sync_exchange_messages`. -/
def syncExchangeMessages (alice bob : σ) (maxRounds : Nat) : Option (SyncResult σ E K) :=
  exchangeLoop S R empty cbA cbB maxRounds alice bob (some (initialMessage S alice)) [] []

end Run

/-! ### One turn -/

section Turn
variable (cb : Callbacks σ E)

/-- An item is answered only when it asks, and in its own range. -/
theorem itemReply_ranges (s : σ) (item : RangeItem E K) :
    (itemReply S R cb s item).map MessagePart.range =
      if item.haveLocal = false ∧ itemDiff S R cb s item ≠ [] then [item.range] else [] := by
  unfold itemReply
  by_cases h : item.haveLocal <;> by_cases hd : itemDiff S R cb s item = [] <;>
    simp [h, hd, MessagePart.range]

omit [LinearOrder K] in
/-- Storing one value: it is put when the validate callback accepts it. -/
theorem storeValues_cons (s : σ) (e : E) (status : ContentStatus)
    (rest : List (E × ContentStatus)) :
    (storeValues S R cb s ((e, status) :: rest)).1 =
      (storeValues S R cb (if cb.validate s e status then (put S R s e).1 else s) rest).1 := by
  rw [storeValues.eq_2]
  split_ifs
  · rcases put S R s e with ⟨s', _ | _⟩ <;> simp
  · rfl

omit [LinearOrder K] in
/-- A property of states that every `put` of the values keeps holds after storing them. -/
theorem storeValues_induction (Q : σ → Prop) (vals : List (E × ContentStatus))
    (hput : ∀ s, Q s → ∀ v ∈ vals, Q (put S R s v.1).1) : ∀ s, Q s → Q (storeValues S R cb s vals).1 := by
  induction vals with
  | nil => exact fun s hs => hs
  | cons v rest ih =>
    intro s hs
    obtain ⟨e, status⟩ := v
    rw [storeValues_cons]
    refine ih (fun s' hs' v hv => hput s' hs' v (List.mem_cons_of_mem _ hv)) _ ?_
    split_ifs
    · exact hput s hs _ (List.mem_cons_self ..)
    · exact hs

/-- The diff holds our entries of the range... -/
theorem mem_getRange_of_mem_itemDiff {s : σ} {item : RangeItem E K} {v : E × ContentStatus}
    (h : v ∈ itemDiff S R cb s item) : v.1 ∈ S.getRange s item.range := by
  simp only [itemDiff, List.mem_map, List.mem_filter] at h
  obtain ⟨e, ⟨he, -⟩, rfl⟩ := h
  exact he

/-- ...and each of them that no value of the item at its key is at least as large as. -/
theorem mem_itemDiff {s : σ} {item : RangeItem E K} {e : E} (he : e ∈ S.getRange s item.range)
    (hnew : ∀ v ∈ item.values, R.key e = R.key v.1 → ¬R.value e ≤ R.value v.1) :
    e ∈ (itemDiff S R cb s item).map Prod.fst := by
  simp only [itemDiff, List.map_map]
  refine List.mem_map.mpr ⟨e, List.mem_filter.mpr ⟨he, ?_⟩, rfl⟩
  simp only [Bool.not_eq_true', List.any_eq_false, Bool.and_eq_true, decide_eq_true_eq, not_and]
  exact fun v hv => hnew v hv

theorem mem_itemReply {s : σ} {item : RangeItem E K} {P : MessagePart E K}
    (h : P ∈ itemReply S R cb s item) :
    item.haveLocal = false ∧ P = .rangeItem ⟨item.range, itemDiff S R cb s item, true⟩ := by
  unfold itemReply at h
  dsimp only at h
  split at h
  · cases h
  · rename_i hask
    simp only [Bool.or_eq_true, not_or, Bool.not_eq_true] at hask
    exact ⟨hask.1, List.mem_singleton.mp h⟩

/-- An item that asks is answered with the diff when there is one. -/
theorem mem_itemReply_self {s : σ} {item : RangeItem E K} (hl : item.haveLocal = false)
    (hd : itemDiff S R cb s item ≠ []) :
    .rangeItem ⟨item.range, itemDiff S R cb s item, true⟩ ∈ itemReply S R cb s item := by
  have hempty : (itemDiff S R cb s item).isEmpty = false := by
    cases hdiff : itemDiff S R cb s item with
    | nil => exact absurd hdiff hd
    | cons _ _ => rfl
  simp [itemReply, hl, hempty]

/-- The item phase. Along it the store moves forward in any preorder `Le` that
storing one item's values respects; each item is answered and its values stored at
a state between the start and the end; and the replies are, in the items' order,
answers to items that ask, each taken at such a state. -/
theorem foldl_processItem (Le : σ → σ → Prop) (hrefl : ∀ s, Le s s)
    (htrans : ∀ a b c, Le a b → Le b c → Le a c) (items : List (RangeItem E K))
    (hstep : ∀ item ∈ items, ∀ s, Le s (storeValues S R cb s item.values).1)
    (s : σ) (ins : List (E × ContentStatus)) (out : List (MessagePart E K)) :
    let res := items.foldl (processItem S R cb) (s, ins, out)
    Le s res.1 ∧
      (∀ item ∈ items, ∃ si, Le s si ∧ Le (storeValues S R cb si item.values).1 res.1 ∧
        ∀ P ∈ itemReply S R cb si item, P ∈ res.2.2) ∧
      ∃ new, res.2.2 = out ++ new ∧
        (new.map MessagePart.range).Sublist
          ((items.filter fun i => i.haveLocal = false).map (·.range)) ∧
        ∀ P ∈ new, ∃ item ∈ items, ∃ si, Le s si ∧
          Le (storeValues S R cb si item.values).1 res.1 ∧ P ∈ itemReply S R cb si item := by
  induction items generalizing s ins out with
  | nil => exact ⟨hrefl s, by simp, [], by simp⟩
  | cons item rest ih =>
    intro res
    set s₁ := (storeValues S R cb s item.values).1
    have h₁ : Le s s₁ := hstep item (List.mem_cons_self ..) s
    obtain ⟨hle, hitems, new, hnew, hsub, hparts⟩ :=
      ih (fun i hi => hstep i (List.mem_cons_of_mem _ hi)) s₁ _ (out ++ itemReply S R cb s item)
    refine ⟨htrans _ _ _ h₁ hle, ?_, itemReply S R cb s item ++ new, ?_, ?_, ?_⟩
    · intro i hi
      rcases List.mem_cons.mp hi with rfl | hi
      · refine ⟨s, hrefl s, hle, fun P hP => ?_⟩
        have hres : res.2.2 = (out ++ itemReply S R cb s i) ++ new := hnew
        rw [hres]
        exact List.mem_append_left _ (List.mem_append_right _ hP)
      · obtain ⟨si, hsi, hsi', hreply⟩ := hitems i hi
        exact ⟨si, htrans _ _ _ h₁ hsi, hsi', hreply⟩
    · rw [← List.append_assoc]
      exact hnew
    · rw [List.map_append, itemReply_ranges]
      by_cases hask : item.haveLocal = false ∧ itemDiff S R cb s item ≠ []
      · rw [if_pos hask, List.filter_cons_of_pos (by simpa using hask.1)]
        exact hsub.cons_cons _
      · rw [if_neg hask, List.nil_append]
        by_cases hl : item.haveLocal = false
        · rw [List.filter_cons_of_pos (by simpa using hl)]
          exact hsub.cons _
        · rwa [List.filter_cons_of_neg (by simpa using hl)]
    · intro P hP
      rcases List.mem_append.mp hP with hP | hP
      · exact ⟨item, List.mem_cons_self .., s, hrefl s, hle, hP⟩
      · obtain ⟨i, hi, si, hsi, hsi', hPi⟩ := hparts P hP
        exact ⟨i, List.mem_cons_of_mem _ hi, si, htrans _ _ _ h₁ hsi, hsi', hPi⟩

variable (config : SyncConfig) (empty : Fingerprint)

theorem processMessage_fst (s : σ) (msg : Message E K) :
    (processMessage S R cb config empty s msg).1 =
      (msg.items.foldl (processItem S R cb) (s, [], [])).1 := rfl

/-- The parts a turn answers with: the item replies, then each fingerprint part's
answer against the store the items left. -/
def replyParts (s : σ) (msg : Message E K) : List (MessagePart E K) :=
  let res := msg.items.foldl (processItem S R cb) (s, [], [])
  res.2.2 ++ msg.fingerprints.flatMap (processFingerprint S R cb config empty res.1)

/-- The answer has the reply parts; no answer is no parts. -/
theorem partsOf_processMessage (s : σ) (msg : Message E K) :
    Message.partsOf (processMessage S R cb config empty s msg).2.2 =
      replyParts S R cb config empty s msg := by
  unfold processMessage replyParts
  dsimp only
  split
  · rename_i hempty
    exact (List.isEmpty_iff.mp hempty).symm
  · rfl

/-- Every reply part answers an item, at some state of the item phase, or a
fingerprint part, at the state the item phase ends in. -/
theorem mem_replyParts {s : σ} {msg : Message E K} {P : MessagePart E K}
    (h : P ∈ replyParts S R cb config empty s msg) :
    (∃ item ∈ msg.items, ∃ si, P ∈ itemReply S R cb si item) ∨
      ∃ f ∈ msg.fingerprints, P ∈ processFingerprint S R cb config empty
        (msg.items.foldl (processItem S R cb) (s, [], [])).1 f := by
  obtain ⟨-, -, new, hnew, -, hparts⟩ := foldl_processItem S R cb (fun _ _ => True)
    (fun _ => trivial) (fun _ _ _ _ _ => trivial) msg.items (fun _ _ _ => trivial) s [] []
  unfold replyParts at h
  dsimp only at h
  rw [hnew, List.nil_append] at h
  rcases List.mem_append.mp h with h | h
  · obtain ⟨item, hitem, si, -, -, hP⟩ := hparts P h
    exact Or.inl ⟨item, hitem, si, hP⟩
  · obtain ⟨f, hf, hP⟩ := List.mem_flatMap.mp h
    exact Or.inr ⟨f, hf, hP⟩

omit [LE V] [DecidableRel (α := V) (· ≤ ·)] in
/-- The three cases of a fingerprint part: a match answers nothing; the recursion
anchor answers our entries; otherwise, with at least two entries of ours, the
pieces of the split. -/
theorem processFingerprint_cases (s : σ) (fp : RangeFingerprint K) :
    S.getFingerprint s fp.range = fp.fingerprint ∧ processFingerprint S R cb config empty s fp = [] ∨
      S.getFingerprint s fp.range ≠ fp.fingerprint ∧
        (processFingerprint S R cb config empty s fp =
            [.rangeItem ⟨fp.range, withStatus cb s (S.getRange s fp.range), false⟩] ∨
          2 ≤ (S.getRange s fp.range).length ∧
            processFingerprint S R cb config empty s fp =
              (splitRanges R config.splitFactor (S.getRange s fp.range) fp.range).map
                (splitPart S cb config s)) := by
  unfold processFingerprint
  split
  · rename_i heq
    exact Or.inl ⟨heq, rfl⟩
  · rename_i hne
    refine Or.inr ⟨hne, ?_⟩
    dsimp only
    split
    · exact Or.inl rfl
    · rename_i hsplit
      have hn : ¬S.getRangeLen s fp.range ≤ 1 := fun h1 => hsplit (by simp [h1])
      exact Or.inr ⟨by unfold Store.getRangeLen at hn; omega, rfl⟩

omit [LE V] [DecidableRel (α := V) (· ≤ ·)] in
/-- The same cases, part by part. -/
theorem mem_processFingerprint {s : σ} {fp : RangeFingerprint K} {P : MessagePart E K}
    (h : P ∈ processFingerprint S R cb config empty s fp) :
    S.getFingerprint s fp.range ≠ fp.fingerprint ∧
      (P = .rangeItem ⟨fp.range, withStatus cb s (S.getRange s fp.range), false⟩ ∨
        2 ≤ (S.getRange s fp.range).length ∧
          ∃ q ∈ splitRanges R config.splitFactor (S.getRange s fp.range) fp.range,
            P = splitPart S cb config s q) := by
  rcases processFingerprint_cases S R cb config empty s fp with ⟨-, hnil⟩ | ⟨hne, hanchor | ⟨hn, hsplit⟩⟩
  · rw [hnil] at h
    cases h
  · rw [hanchor] at h
    exact ⟨hne, Or.inl (List.mem_singleton.mp h)⟩
  · rw [hsplit] at h
    obtain ⟨q, hq, rfl⟩ := List.mem_map.mp h
    exact ⟨hne, Or.inr ⟨hn, q, hq, rfl⟩⟩

omit [LinearOrder K] [LE V] [DecidableRel (α := V) (· ≤ ·)] in
/-- A piece of a split is sent as its fingerprint or as our entries of it. -/
theorem splitPart_cases (s : σ) (q : Range K) :
    splitPart S cb config s q = .rangeFingerprint ⟨q, S.getFingerprint s q⟩ ∨
      splitPart S cb config s q = .rangeItem ⟨q, withStatus cb s (S.getRange s q), false⟩ := by
  unfold splitPart
  dsimp only
  split
  · exact Or.inl rfl
  · exact Or.inr rfl

omit [LinearOrder K] [LE V] [DecidableRel (α := V) (· ≤ ·)] in
theorem splitPart_range (s : σ) (q : Range K) : (splitPart S cb config s q).range = q := by
  rcases splitPart_cases S cb config s q with h | h <;> rw [h] <;> rfl

end Turn

/-! ### Answers of an ordered store -/

section Ordered

/-- The store reads a range in strictly increasing key order, and only inside it. -/
structure Store.OrderedRanges (S : Store σ E K V) (R : RangeEntry E K V) : Prop where
  sorted : ∀ s r, ((S.getRange s r).map R.key).Pairwise (· < ·)
  contains : ∀ s r, ∀ e ∈ S.getRange s r, r.contains (R.key e) = true

/-- Whether a part asks the peer for an answer: a fingerprint, or entries the peer
has not answered. -/
def MessagePart.asksAnswer : MessagePart E K → Bool
  | .rangeFingerprint _ => true
  | .rangeItem item => !item.haveLocal

variable {S R} (hS : S.OrderedRanges R) (cb : Callbacks σ E) (empty : Fingerprint)
include hS

omit [LE V] [DecidableRel (α := V) (· ≤ ·)] in
/-- A split of an ordered store's range partitions it. -/
theorem Store.OrderedRanges.partition (s : σ) (r : Range K) (hn : 2 ≤ (S.getRange s r).length) :
    Partition r ((S.getRange s r).map R.key) (splitRanges R 2 (S.getRange s r) r) :=
  splitRanges_partition R (hS.sorted s r) (hS.contains s r) hn

omit [LE V] [DecidableRel (α := V) (· ≤ ·)] in
/-- With the default configuration, every answer to a fingerprint part lies in its
range and asks for an answer in turn. -/
theorem processFingerprint_sub {s : σ} {fp : RangeFingerprint K} {P : MessagePart E K}
    (h : P ∈ processFingerprint S R cb SyncConfig.default empty s fp) :
    P.range.toSet ⊆ fp.range.toSet ∧ P.asksAnswer = true := by
  obtain ⟨-, rfl | ⟨hn, q, hq, rfl⟩⟩ := mem_processFingerprint S R cb SyncConfig.default empty h
  · exact ⟨subset_rfl, rfl⟩
  · refine ⟨?_, ?_⟩
    · rw [splitPart_range]
      exact (hS.partition s fp.range hn).sub q hq
    · rcases splitPart_cases S cb SyncConfig.default s q with h | h <;> rw [h] <;> rfl

omit [LE V] [DecidableRel (α := V) (· ≤ ·)] in
/-- Case 3 with the default configuration: when the fingerprints differ, at least two
local entries lie in the range and the peer's fingerprint is not the empty one, the
reply's pieces partition the range, and they are two, neither of them the whole set. -/
theorem processFingerprint_split (s : σ) (fp : RangeFingerprint K)
    (hne : S.getFingerprint s fp.range ≠ fp.fingerprint) (hn : 2 ≤ (S.getRange s fp.range).length)
    (hfp : fp.fingerprint ≠ empty) :
    Partition fp.range ((S.getRange s fp.range).map R.key)
        ((processFingerprint S R cb SyncConfig.default empty s fp).map MessagePart.range) ∧
      ∃ q₁ q₂, (processFingerprint S R cb SyncConfig.default empty s fp).map MessagePart.range =
        [q₁, q₂] ∧ q₁.x ≠ q₁.y ∧ q₂.x ≠ q₂.y := by
  have hsplit : processFingerprint S R cb SyncConfig.default empty s fp =
      (splitRanges R 2 (S.getRange s fp.range) fp.range).map (splitPart S cb SyncConfig.default s) := by
    have hcase : (S.getRangeLen s fp.range ≤ 1 || fp.fingerprint == empty) = false := by
      rw [Bool.or_eq_false_iff, decide_eq_false_iff_not, beq_eq_false_iff_ne]
      exact ⟨by unfold Store.getRangeLen; omega, hfp⟩
    unfold processFingerprint
    rw [if_neg hne]
    simp only [hcase, Bool.false_eq_true, if_false]
    rfl
  have hranges : (processFingerprint S R cb SyncConfig.default empty s fp).map MessagePart.range =
      splitRanges R 2 (S.getRange s fp.range) fp.range := by
    rw [hsplit, List.map_map]
    conv_rhs => rw [← List.map_id (splitRanges R 2 (S.getRange s fp.range) fp.range)]
    exact List.map_congr_left fun q _ => splitPart_range S cb SyncConfig.default s q
  have hpart := hS.partition s fp.range hn
  obtain ⟨q₁, q₂, hpair⟩ := splitRanges_two_pair R (hS.sorted s fp.range) hn fp.range
  rw [hranges]
  refine ⟨hpart, q₁, q₂, hpair, ?_⟩
  rw [hpair] at hpart
  exact hpart.ne_of_pair

end Ordered

/-! ### Induction over the exchange -/

section Induction
variable (empty : Fingerprint) (cbA cbB : Callbacks σ E)

/-- `Inv sender receiver message senderLog receiverLog` survives a turn of the side
with callbacks `cb`: the receiver answers and becomes the sender. -/
def TurnPreserves
    (Inv : σ → σ → Option (Message E K) → List (Message E K) → List (Message E K) → Prop)
    (cb : Callbacks σ E) : Prop :=
  ∀ s r msg ls lr, Inv s r (some msg) ls lr →
    Inv (processMessage S R cb SyncConfig.default empty r msg).1 s
      (processMessage S R cb SyncConfig.default empty r msg).2.2 lr (ls ++ [msg])

variable {S R empty cbA cbB}
variable {Inv : σ → σ → Option (Message E K) → List (Message E K) → List (Message E K) → Prop}

/-- An invariant that both turns keep holds of a finished exchange, with Alice or Bob
as the side that spoke last. -/
theorem exchangeLoop_inv (hA : TurnPreserves S R empty Inv cbA)
    (hB : TurnPreserves S R empty Inv cbB) :
    ∀ rounds alice bob next a2b b2a, Inv alice bob next a2b b2a →
      ∀ res, exchangeLoop S R empty cbA cbB rounds alice bob next a2b b2a = some res →
        Inv res.alice res.bob none res.aliceToBob res.bobToAlice ∨
          Inv res.bob res.alice none res.bobToAlice res.aliceToBob := by
  intro rounds
  induction rounds with
  | zero =>
    intro alice bob next a2b b2a hinv res hres
    cases next with
    | none =>
      cases hres
      exact Or.inl hinv
    | some _ => cases hres
  | succ rounds ih =>
    intro alice bob next a2b b2a hinv res hres
    cases next with
    | none =>
      cases hres
      exact Or.inl hinv
    | some msg =>
      have hbob := hB _ _ _ _ _ hinv
      simp only [exchangeLoop] at hres
      generalize hpb : processMessage S R cbB SyncConfig.default empty bob msg = pb at hbob hres
      obtain ⟨bob', insB, reply⟩ := pb
      cases reply with
      | none =>
        cases hres
        exact Or.inr hbob
      | some reply =>
        have halice := hA _ _ _ _ _ hbob
        dsimp only at hres halice
        generalize hpa : processMessage S R cbA SyncConfig.default empty alice reply = pa
          at halice hres
        obtain ⟨alice', insA, next⟩ := pa
        exact ih _ _ _ _ _ halice res hres

end Induction

end Iroh.Docs.Ranger
