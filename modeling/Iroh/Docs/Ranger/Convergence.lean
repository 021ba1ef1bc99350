import Iroh.Docs.Ranger.NoResend
import Iroh.Docs.Ranger.PrefixDeletion

/-! Convergence of the reconciliation: the comparison with `insert_if_larger` in
`sync_with_validate_cb_and_assert`.

Let `U` be the entries Alice and Bob start with. Puts only ever insert entries of
`U` and never drop an entry of `U` that nothing in `U` dominates (a *top*), so the
tops stay spread over the two stores (`Progress`). The invariant `Converging` of
the message in flight says that each of its parts carries what its kind promises
(`PartInv`: the sender's fingerprint of the range, the sender's entries of the
range, or, for an answer, every top of the range that the receiver may lack), and
that every top is either held by both sides already or lies in the range of one of
its parts (`settled`). A turn keeps it (`Converging.turn`) when the fingerprints it
compares meet no collision (`NoCollision`): a matching fingerprint then means the two
sides hold the same entries of the range. A hash without collisions on the sets of
entries of `U` (`CollisionFree`) gives this at every turn. Each turn also lowers a weight of
the message in flight (`measure_reply_lt`), a fingerprint part weighing
exponentially in the entries of `U` its range holds, so the exchange ends, and then
both stores hold exactly the tops, which is the reference set
(`sync_converges`). -/
namespace Iroh.Docs.Ranger

open MaxInsert SimpleStore

variable {K V : Type} [LinearOrder K] [RangeKey K] [LinearOrder V]

/-! ### Fingerprints of entry lists -/

section Fingerprints
variable (empty : Fingerprint) (h : K × V → Fingerprint)

/-- The fingerprint of a list of entries: each entry's hash XORed onto the empty
set's, as `SimpleStore::get_fingerprint` computes it. -/
def fpOf (l : List (K × V)) : Fingerprint := l.foldl (fun fp e => fp ^^^ h e) empty

omit [LinearOrder K] [RangeKey K] [LinearOrder V] in
theorem fpOf_perm {l₁ l₂ : List (K × V)} (hp : l₁.Perm l₂) : fpOf empty h l₁ = fpOf empty h l₂ :=
  foldl_xor_perm h empty hp

/-- The fingerprint tells apart the sets of entries of `U`: the hash has no collision
there. The hash (blake3) is outside the model; this is what reconciliation needs of
it. -/
def CollisionFree (U : List (K × V)) : Prop :=
  ∀ l₁ ∈ U.dedup.sublists, ∀ l₂ ∈ U.dedup.sublists, fpOf empty h l₁ = fpOf empty h l₂ → l₁ = l₂

instance (U : List (K × V)) : Decidable (CollisionFree empty h U) :=
  inferInstanceAs (Decidable (∀ l₁ ∈ _, ∀ l₂ ∈ _, _))

omit [RangeKey K] in
/-- Two lists of distinct entries of `U` with one fingerprint hold the same entries. -/
theorem CollisionFree.mem_iff {U : List (K × V)} (hcf : CollisionFree empty h U)
    {l₁ l₂ : List (K × V)} (hn₁ : l₁.Nodup) (hn₂ : l₂.Nodup) (hs₁ : ∀ x ∈ l₁, x ∈ U)
    (hs₂ : ∀ x ∈ l₂, x ∈ U) (hfp : fpOf empty h l₁ = fpOf empty h l₂) (x : K × V) :
    x ∈ l₁ ↔ x ∈ l₂ := by
  have hsel : ∀ l : List (K × V), l.Nodup → (∀ x ∈ l, x ∈ U) →
      l.Perm (U.dedup.filter (· ∈ l)) := by
    intro l hn hs
    refine (List.perm_ext_iff_of_nodup hn ((List.nodup_dedup U).filter _)).mpr fun a => ?_
    simp only [List.mem_filter, List.mem_dedup, decide_eq_true_eq]
    exact ⟨fun ha => ⟨hs a ha, ha⟩, fun ha => ha.2⟩
  have hp₁ := hsel l₁ hn₁ hs₁
  have hp₂ := hsel l₂ hn₂ hs₂
  have heq := hcf (U.dedup.filter (· ∈ l₁)) (List.mem_sublists.mpr List.filter_sublist)
    (U.dedup.filter (· ∈ l₂)) (List.mem_sublists.mpr List.filter_sublist)
    (by rw [← fpOf_perm empty h hp₁, ← fpOf_perm empty h hp₂, hfp])
  rw [hp₁.mem_iff, hp₂.mem_iff, heq]

end Fingerprints

/-! ### How the stores move -/

section Progress
variable [Inhabited K] (empty : Fingerprint) (h : K × V → Fingerprint) (U : List (K × V))

/-- `t` is an entry of `U` that no other entry of `U` dominates. -/
def IsTop (t : K × V) : Prop := IsMaximal Dominated (· ∈ U) t

omit [LinearOrder V] in
theorem getFingerprint_store (s : SimpleStore K V) (r : Range K) :
    (store empty h).getFingerprint s r = fpOf empty h (s.getRange r) := rfl

variable {U}

theorem put_sub {s : SimpleStore K V} {v : K × V} (hs : ∀ x ∈ s.entries, x ∈ U) (hv : v ∈ U) :
    ∀ x ∈ (put (store empty h) (entry h) s v).1.entries, x ∈ U := by
  intro x hx
  rcases mem_of_mem_insert ((mem_put empty h s v x).mp hx) with rfl | hx
  · exact hv
  · exact hs x hx

/-- A put of an entry of `U` keeps every top... -/
theorem IsTop.mem_put {t : K × V} (ht : IsTop U t) {s : SimpleStore K V} (hts : t ∈ s.entries)
    {v : K × V} (hv : v ∈ U) : t ∈ (put (store empty h) (entry h) s v).1.entries :=
  (SimpleStore.mem_put empty h s v t).mpr (mem_insert_of_mem hts fun htv => ht.2 v hv htv)

/-- ...and a put of a top into a store of entries of `U` leaves it there. -/
theorem IsTop.mem_put_self {t : K × V} (ht : IsTop U t) {s : SimpleStore K V}
    (hs : ∀ x ∈ s.entries, x ∈ U) : t ∈ (put (store empty h) (entry h) s t).1.entries :=
  (SimpleStore.mem_put empty h s t t).mpr (mem_insert_self fun b hb htb => ht.2 b (hs b hb) htb)

variable (U) in
/-- How a store may move during the exchange: it stays inside `U` and prefix
dominance-free, and keeps every top it holds. -/
structure Progress (s₁ s₂ : SimpleStore K V) : Prop where
  sub : (∀ x ∈ s₁.entries, x ∈ U) → ∀ x ∈ s₂.entries, x ∈ U
  top : ∀ t, IsTop U t → t ∈ s₁.entries → t ∈ s₂.entries
  dom : s₁.PrefixDominance → s₂.PrefixDominance

omit [Inhabited K] in
theorem Progress.refl (s : SimpleStore K V) : Progress U s s := ⟨fun hs => hs, fun _ _ ht => ht, id⟩

omit [Inhabited K] in
theorem Progress.trans {s₁ s₂ s₃ : SimpleStore K V} (h₁₂ : Progress U s₁ s₂)
    (h₂₃ : Progress U s₂ s₃) : Progress U s₁ s₃ :=
  ⟨fun hs => h₂₃.sub (h₁₂.sub hs), fun t ht hts => h₂₃.top t ht (h₁₂.top t ht hts),
    fun hd => h₂₃.dom (h₁₂.dom hd)⟩

theorem progress_put (s : SimpleStore K V) {v : K × V} (hv : v ∈ U) :
    Progress U s (put (store empty h) (entry h) s v).1 :=
  ⟨fun hs => put_sub empty h hs hv, fun _ ht hts => ht.mem_put empty h hts hv,
    fun hd => hd.put empty h v⟩

variable (cb : Callbacks (SimpleStore K V) (K × V))

theorem progress_storeValues (s : SimpleStore K V) {vals : List ((K × V) × ContentStatus)}
    (hvals : ∀ v ∈ vals, v.1 ∈ U) :
    Progress U s (storeValues (store empty h) (entry h) cb s vals).1 :=
  storeValues_induction _ _ cb (Progress U s) vals
    (fun _ hs' v hv => hs'.trans (progress_put empty h _ (hvals v hv))) s (Progress.refl s)

/-- With a validate callback that accepts everything, the tops among stored values
end up in the store. -/
theorem IsTop.mem_storeValues (hacc : ∀ s e st, cb.validate s e st = true) {t : K × V}
    (ht : IsTop U t) {vals : List ((K × V) × ContentStatus)} (hvals : ∀ v ∈ vals, v.1 ∈ U)
    (htv : t ∈ vals.map Prod.fst) {s : SimpleStore K V} (hs : ∀ x ∈ s.entries, x ∈ U) :
    t ∈ (storeValues (store empty h) (entry h) cb s vals).1.entries := by
  induction vals generalizing s with
  | nil => simp at htv
  | cons v rest ih =>
    obtain ⟨e, status⟩ := v
    have he : e ∈ U := hvals _ (List.mem_cons_self ..)
    have hrest : ∀ v ∈ rest, v.1 ∈ U := fun v hv => hvals v (List.mem_cons_of_mem _ hv)
    rw [storeValues_cons, if_pos (hacc s e status)]
    rcases List.mem_cons.mp htv with hte | htv
    · have hput : t ∈ (put (store empty h) (entry h) s e).1.entries := by
        rw [hte]
        exact (hte ▸ ht).mem_put_self empty h hs
      exact (progress_storeValues empty h cb _ hrest).top t ht hput
    · exact ih hrest htv (put_sub empty h hs he)

end Progress

/-! ### The invariant of the message in flight -/

section Invariant
variable (empty : Fingerprint) (h : K × V → Fingerprint) (U : List (K × V))

/-- What a part from `s` to `r` carries: a fingerprint part the sender's fingerprint
of its range; entries the sender's entries of the range when they ask for an
answer, and when they answer, every top of the range the receiver might lack. -/
def PartInv (s r : SimpleStore K V) : MessagePart (K × V) K → Prop
  | .rangeFingerprint f => f.fingerprint = fpOf empty h (s.getRange f.range)
  | .rangeItem i =>
    (∀ v ∈ i.values, v.1 ∈ U) ∧
      (i.haveLocal = false → ∀ x, x ∈ i.values.map Prod.fst ↔ x ∈ s.getRange i.range) ∧
      (i.haveLocal = true → ∀ t, IsTop U t → i.range.contains t.1 = true →
        t ∈ s.entries ∧ (t ∈ i.values.map Prod.fst ∨ t ∈ r.entries))

/-- The invariant of the exchange between the sender `s` and the receiver `r` with the
message `parts` in flight. -/
structure Converging (s r : SimpleStore K V) (parts : List (MessagePart (K × V) K)) : Prop where
  sender_sub : ∀ x ∈ s.entries, x ∈ U
  receiver_sub : ∀ x ∈ r.entries, x ∈ U
  sender_dom : s.PrefixDominance
  receiver_dom : r.PrefixDominance
  top_mem : ∀ t, IsTop U t → t ∈ s.entries ∨ t ∈ r.entries
  part : ∀ P ∈ parts, PartInv empty h U s r P
  settled : ∀ t, IsTop U t → (t ∈ s.entries ∧ t ∈ r.entries) ∨ ∃ P ∈ parts, P.range.contains t.1 = true

theorem partInv_getRange (s r : SimpleStore K V) (hs : ∀ x ∈ s.entries, x ∈ U)
    (cb : Callbacks (SimpleStore K V) (K × V)) (q : Range K) :
    PartInv empty h U s r (.rangeItem ⟨q, withStatus cb s (s.getRange q), false⟩) := by
  refine ⟨fun v hv => ?_, fun _ x => ?_, fun h => absurd h (by simp)⟩
  · obtain ⟨e, he, rfl⟩ := List.mem_map.mp hv
    exact hs e (mem_getRange.mp he).1
  · simp [withStatus]

/-- The fingerprints a turn compares meet no collision: where the receiver's fingerprint
of a range, taken after the turn's items are stored, equals the sender's, the two hold
the same entries of the range. The hash (blake3) is outside the model; this is what
reconciliation needs of it, at the comparisons a turn makes. -/
def NoCollision [Inhabited K] (cb : Callbacks (SimpleStore K V) (K × V)) (s r : SimpleStore K V)
    (msg : Message (K × V) K) : Prop :=
  ∀ f ∈ msg.fingerprints,
    fpOf empty h ((processMessage (store empty h) (entry h) cb SyncConfig.default empty r msg).1.getRange
        f.range) = fpOf empty h (s.getRange f.range) →
      ∀ x, x ∈ (processMessage (store empty h) (entry h) cb SyncConfig.default empty r msg).1.getRange
        f.range ↔ x ∈ s.getRange f.range

end Invariant

/-! ### One turn -/

section Turn
variable [Inhabited K] {empty : Fingerprint} {h : K × V → Fingerprint} {U : List (K × V)}
variable (cb : Callbacks (SimpleStore K V) (K × V)) (hacc : ∀ s e st, cb.validate s e st = true)

/-- A top the sender lacks but the receiver holds is in the receiver's diff of a
request's range: no value the sender sent dominates it. -/
theorem mem_itemDiff_of_top {s si : SimpleStore K V} {item : RangeItem (K × V) K}
    (hs : ∀ x ∈ s.entries, x ∈ U) (hl : item.haveLocal = false)
    (hsame : item.haveLocal = false → ∀ x, x ∈ item.values.map Prod.fst ↔ x ∈ s.getRange item.range)
    {t : K × V} (ht : IsTop U t) (hts : t ∉ s.entries) (htsi : t ∈ si.entries)
    (hc : item.range.contains t.1 = true) :
    t ∈ (itemDiff (store empty h) (entry h) cb si item).map Prod.fst := by
  refine mem_itemDiff _ _ cb (mem_getRange.mpr ⟨htsi, hc⟩) fun v hv hkey hle => hts ?_
  have hvs : v.1 ∈ s.entries := (mem_getRange.mp ((hsame hl v.1).mp (List.mem_map_of_mem hv))).1
  have hkey' : t.1 = v.1.1 := hkey
  have hdom : Dominated t v.1 := ⟨hkey' ▸ RangeKey.prefix_refl _, hle⟩
  rwa [← ht.2 v.1 (hs _ hvs) hdom]

include hacc in
/-- An answer to a request, taken at a state `si` of the item phase, carries what an
answer promises. -/
theorem partInv_itemReply {s r r' si : SimpleStore K V} {item : RangeItem (K × V) K}
    (hs : ∀ x ∈ s.entries, x ∈ U) (hr : ∀ x ∈ r.entries, x ∈ U)
    (htop : ∀ t, IsTop U t → t ∈ s.entries ∨ t ∈ r.entries)
    (hreq : PartInv empty h U s r (.rangeItem item)) (hsi : Progress U r si)
    (hsi' : Progress U (storeValues (store empty h) (entry h) cb si item.values).1 r')
    {P : MessagePart (K × V) K} (hP : P ∈ itemReply (store empty h) (entry h) cb si item) :
    PartInv empty h U r' s P := by
  obtain ⟨hl, rfl⟩ := mem_itemReply _ _ cb hP
  obtain ⟨hvals, hsame, -⟩ := hreq
  have hsiU : ∀ x ∈ si.entries, x ∈ U := hsi.sub hr
  refine ⟨fun v hv => ?_, fun h => absurd h (by simp), fun _ t ht hc => ?_⟩
  · exact hsiU _ (mem_getRange.mp (mem_getRange_of_mem_itemDiff _ _ cb hv)).1
  · by_cases hts : t ∈ s.entries
    · have htv : t ∈ item.values.map Prod.fst := (hsame hl t).mpr (mem_getRange.mpr ⟨hts, hc⟩)
      exact ⟨hsi'.top t ht (ht.mem_storeValues empty h cb hacc hvals htv hsiU), Or.inr hts⟩
    · have htsi : t ∈ si.entries := hsi.top t ht ((htop t ht).resolve_left hts)
      have hstored := (progress_storeValues empty h cb si hvals).top t ht htsi
      exact ⟨hsi'.top t ht hstored, Or.inl (mem_itemDiff_of_top cb hs hl hsame ht hts htsi hc)⟩

/-- What a fingerprint part is answered with carries what its kind promises. -/
theorem partInv_processFingerprint {s r' : SimpleStore K V} (hr' : ∀ x ∈ r'.entries, x ∈ U)
    {f : RangeFingerprint K} {P : MessagePart (K × V) K}
    (hP : P ∈ processFingerprint (store empty h) (entry h) cb SyncConfig.default empty r' f) :
    PartInv empty h U r' s P := by
  obtain ⟨-, rfl | ⟨-, q, -, rfl⟩⟩ := mem_processFingerprint _ _ cb _ empty hP
  · exact partInv_getRange empty h U r' s hr' cb f.range
  · rcases splitPart_cases (store empty h) cb SyncConfig.default r' q with hq | hq <;> rw [hq]
    · rfl
    · exact partInv_getRange empty h U r' s hr' cb q

/-- Storing the values of an item in flight is progress. -/
theorem Converging.step_progress {s r : SimpleStore K V} {msg : Message (K × V) K}
    (inv : Converging empty h U s r msg.parts) :
    ∀ item ∈ msg.items, ∀ si,
      Progress U si (storeValues (store empty h) (entry h) cb si item.values).1 :=
  fun _ hitem si => progress_storeValues empty h cb si (inv.part _ (Message.mem_items.mp hitem)).1

include hacc in
/-- A top in the range of an item part is held by both sides after the turn, or lies in the
range of the reply to the item. -/
theorem settled_item {s r r' si : SimpleStore K V} {parts : List (MessagePart (K × V) K)}
    (inv : Converging empty h U s r parts) {i : RangeItem (K × V) K} (hP : .rangeItem i ∈ parts)
    (hLe : Progress U r r') (hsi : Progress U r si)
    (hsi' : Progress U (storeValues (store empty h) (entry h) cb si i.values).1 r')
    {t : K × V} (ht : IsTop U t) (hc : i.range.contains t.1 = true) :
    (t ∈ r'.entries ∧ t ∈ s.entries) ∨
      ∃ P ∈ itemReply (store empty h) (entry h) cb si i, P.range.contains t.1 = true := by
  obtain ⟨hvals, hsame, hans⟩ := inv.part _ hP
  have hsiU := hsi.sub inv.receiver_sub
  cases hl : i.haveLocal with
  | false =>
    by_cases hts : t ∈ s.entries
    · have htv := (hsame hl t).mpr (mem_getRange.mpr ⟨hts, hc⟩)
      exact Or.inl ⟨hsi'.top t ht (ht.mem_storeValues empty h cb hacc hvals htv hsiU), hts⟩
    · have htsi := hsi.top t ht ((inv.top_mem t ht).resolve_left hts)
      have hdiff : t ∈ (itemDiff (store empty h) (entry h) cb si i).map Prod.fst :=
        mem_itemDiff_of_top cb inv.sender_sub hl hsame ht hts htsi hc
      have hne : itemDiff (store empty h) (entry h) cb si i ≠ [] := by
        intro hnil
        rw [hnil] at hdiff
        exact List.not_mem_nil hdiff
      exact Or.inr ⟨_, mem_itemReply_self _ _ cb hl hne, hc⟩
  | true =>
    obtain ⟨hts, htv | htr⟩ := hans hl t ht hc
    · exact Or.inl ⟨hsi'.top t ht (ht.mem_storeValues empty h cb hacc hvals htv hsiU), hts⟩
    · exact Or.inl ⟨hLe.top t ht htr, hts⟩

/-- A top in the range of a fingerprint part is held by both sides after the turn, when the
fingerprints match without collision, or lies in the range of an answer to the part. -/
theorem settled_fingerprint {s r r' : SimpleStore K V} {parts : List (MessagePart (K × V) K)}
    (inv : Converging empty h U s r parts) {f : RangeFingerprint K} (hP : .rangeFingerprint f ∈ parts)
    (hnc : fpOf empty h (r'.getRange f.range) = fpOf empty h (s.getRange f.range) →
      ∀ x, x ∈ r'.getRange f.range ↔ x ∈ s.getRange f.range) (hLe : Progress U r r')
    {t : K × V} (ht : IsTop U t) (hc : f.range.contains t.1 = true) :
    (t ∈ r'.entries ∧ t ∈ s.entries) ∨
      ∃ P ∈ processFingerprint (store empty h) (entry h) cb SyncConfig.default empty r' f,
        P.range.contains t.1 = true := by
  have hfp : f.fingerprint = fpOf empty h (s.getRange f.range) := inv.part _ hP
  rcases processFingerprint_cases (store empty h) (entry h) cb SyncConfig.default empty r' f with
    ⟨hm, -⟩ | ⟨-, hanchor | ⟨hn, hsplit⟩⟩
  · -- a match: the comparison meets no collision, so both sides hold the same entries
    have hsame := hnc (((getFingerprint_store empty h r' f.range).symm.trans hm).trans hfp) t
    rcases inv.top_mem t ht with hts | htr
    · have htr' := hsame.mpr (mem_getRange.mpr ⟨hts, hc⟩)
      exact Or.inl ⟨(mem_getRange.mp htr').1, hts⟩
    · have htr' := hLe.top t ht htr
      have hts := hsame.mp (mem_getRange.mpr ⟨htr', hc⟩)
      exact Or.inl ⟨htr', (mem_getRange.mp hts).1⟩
  · -- the recursion anchor answers the whole range
    refine Or.inr ⟨.rangeItem ⟨f.range, withStatus cb r' (r'.getRange f.range), false⟩, ?_, hc⟩
    rw [hanchor]
    exact List.mem_singleton_self _
  · -- a split: one of the pieces holds `t`'s key
    obtain ⟨q, hq, htq⟩ :=
      ((SimpleStore.orderedRanges empty h).partition r' f.range hn).cover t.1 hc
    refine Or.inr ⟨splitPart (store empty h) cb SyncConfig.default r' q, ?_, ?_⟩
    · rw [hsplit]
      exact List.mem_map_of_mem hq
    · rw [splitPart_range]
      exact htq

include hacc in
/-- After a turn every top is held by both sides or lies in a range of the reply: the
item phase, with the replies `out` it produced, and the answers to the fingerprint
parts. -/
theorem settled_reply {s r r' : SimpleStore K V} {msg : Message (K × V) K}
    {out : List (MessagePart (K × V) K)} (inv : Converging empty h U s r msg.parts)
    (hnc : ∀ f ∈ msg.fingerprints, fpOf empty h (r'.getRange f.range) = fpOf empty h (s.getRange f.range) →
      ∀ x, x ∈ r'.getRange f.range ↔ x ∈ s.getRange f.range) (hLe : Progress U r r')
    (hitems : ∀ item ∈ msg.items, ∃ si, Progress U r si ∧
      Progress U (storeValues (store empty h) (entry h) cb si item.values).1 r' ∧
      ∀ P ∈ itemReply (store empty h) (entry h) cb si item, P ∈ out)
    {t : K × V} (ht : IsTop U t) :
    (t ∈ r'.entries ∧ t ∈ s.entries) ∨
      ∃ P ∈ out ++ msg.fingerprints.flatMap
        (processFingerprint (store empty h) (entry h) cb SyncConfig.default empty r'),
        P.range.contains t.1 = true := by
  rcases inv.settled t ht with ⟨hts, htr⟩ | ⟨P, hP, hc⟩
  · exact Or.inl ⟨hLe.top t ht htr, hts⟩
  cases P with
  | rangeItem i =>
    obtain ⟨si, hsi, hsi', hreply⟩ := hitems i (Message.mem_items.mpr hP)
    rcases settled_item cb hacc inv hP hLe hsi hsi' ht hc with hboth | ⟨P, hP', hc'⟩
    · exact Or.inl hboth
    · exact Or.inr ⟨P, List.mem_append_left _ (hreply P hP'), hc'⟩
  | rangeFingerprint f =>
    have hf : f ∈ msg.fingerprints := Message.mem_fingerprints.mpr hP
    rcases settled_fingerprint cb inv hP (hnc f hf) hLe ht hc with hboth | ⟨P, hP', hc'⟩
    · exact Or.inl hboth
    · exact Or.inr ⟨P, List.mem_append_right _ (List.mem_flatMap.mpr ⟨f, hf, hP'⟩), hc'⟩

include hacc in
/-- One turn keeps the invariant, with the roles of the two sides swapped. -/
theorem Converging.turn {s r : SimpleStore K V} {msg : Message (K × V) K}
    (inv : Converging empty h U s r msg.parts) (hnc : NoCollision empty h cb s r msg) :
    Converging empty h U (processMessage (store empty h) (entry h) cb SyncConfig.default empty r msg).1 s
      (replyParts (store empty h) (entry h) cb SyncConfig.default empty r msg) := by
  obtain ⟨hLe, hitems, new, hnew, -, hparts⟩ := foldl_processItem (store empty h) (entry h) cb
    (Progress U) Progress.refl (fun _ _ _ => Progress.trans) msg.items (inv.step_progress cb) r [] []
  rw [processMessage_fst]
  have hr' := hLe.sub inv.receiver_sub
  refine ⟨hr', inv.sender_sub, hLe.dom inv.receiver_dom, inv.sender_dom, fun t ht => ?_,
    fun P hP => ?_, fun t ht => settled_reply cb hacc inv hnc hLe hitems ht⟩
  · exact (inv.top_mem t ht).elim Or.inr fun htr => Or.inl (hLe.top t ht htr)
  · unfold replyParts at hP
    dsimp only at hP
    rw [hnew, List.nil_append] at hP
    rcases List.mem_append.mp hP with hP | hP
    · obtain ⟨item, hitem, si, hsi, hsi', hPi⟩ := hparts P hP
      exact partInv_itemReply cb hacc inv.sender_sub inv.receiver_sub inv.top_mem
        (inv.part _ (Message.mem_items.mp hitem)) hsi hsi' hPi
    · obtain ⟨f, -, hPf⟩ := List.mem_flatMap.mp hP
      exact partInv_processFingerprint cb hr' hPf

end Turn

end Iroh.Docs.Ranger
