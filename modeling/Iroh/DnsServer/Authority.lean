import Iroh.DnsServer.Name
import Iroh.DnsServer.ZoneStore.Runs

/-! The DNS server's answers for pkarr names (`util.rs`, `dns/node_authority.rs`).

A published packet's zone is made of its answer records (`signed_packet_to_hickory_records_without_origin`):
records of type SOA or NS, and records not named under the packet's key, are dropped; the
others lose the key's label and are grouped by lowercased name and type into record sets. A query
for a name under one of the server's origins is parsed into a name, a key and an origin, and
the authority awaits the zone store's `resolve` of the key (`Lookup.resolving`); the record set
it gets back has its names completed with the key's label and the origin
(`record_set_append_origin`, `NodeAuthority.pkarrAnswer`). Other queries go to the static
authority.

What the server uses of hickory's `Record` and `RecordSet` is a parameter (`Hickory`): a record's
name and type, renaming a record, and making, extending and reading record sets.

Whatever the interleaving of the zone store's calls, a query for `<name>.<z32 key>.<origin>` is
so answered from a packet of its key, one no more recent than the stored packet or, with a DHT
client, any: refused if the packet's message does not decode, no such domain if it has no
records of that name and type, and else those records renamed to the query's name
(`search_answers_packet`). -/

namespace Iroh.DnsServer

/-- The record types the server tells apart; the others by their code. -/
inductive RecordType where
  | SOA
  | NS
  | AXFR
  | other (code : Nat)
deriving DecidableEq, Repr

/-- `RrKey`: a lowercased name and a record type. -/
structure RrKey where
  name : List (List UInt8)
  recordType : RecordType
deriving DecidableEq, Repr

variable {N : Type} (names : Names N)

/-- `RrKey::new` of a name, through `LowerName`. -/
def RrKey.new (n : N) (t : RecordType) : RrKey := ⟨names.labels (names.toLowercase n), t⟩

/-- What the server uses of hickory's `Record` and `RecordSet`: a record's name and type,
`Record::set_name`, `RecordSet::from`, `RecordSet::new`, `RecordSet::insert`, and a set's
serial, name, type and records; a set keeps the name it was made with. -/
structure Hickory (N R RS : Type) where
  name : R → N
  recordType : R → RecordType
  setName : R → N → R
  ofRecord : R → RS
  newSet : N → RecordType → Nat → RS
  insert : RS → R → Nat → RS
  serial : RS → Nat
  setNameOf : RS → N
  setTypeOf : RS → RecordType
  recordsWithoutRrsigs : RS → List R
  name_setName : ∀ r n, name (setName r n) = n
  recordType_setName : ∀ r n, recordType (setName r n) = recordType r
  setNameOf_ofRecord : ∀ r, setNameOf (ofRecord r) = name r
  setNameOf_insert : ∀ s r n, setNameOf (insert s r n) = setNameOf s

variable {R RS : Type} (hk : Hickory N R RS)

/-! ### Zones -/

/-- One record of the loop of `signed_packet_to_hickory_records_without_origin`. -/
def zoneStep (commonZone : List UInt8) (filter : R → Bool) (output : AList fun _ : RrKey => RS)
    (record : R) : Except ProtoError (AList fun _ : RrKey => RS) :=
  if hk.recordType record = .SOA ∨ hk.recordType record = .NS then .ok output
  else
    let name := hk.name record
    if h : names.numLabels name < 1 then .ok output
    else
      let zone := (names.labels name).getLast (names.labels_ne_nil_of_numLabels h)
      if !labelValid zone then .error .labelBytes
      else if zone.map asciiLower ≠ commonZone.map asciiLower then .ok output
      else if !filter record then .ok output
      else
        match names.fromLabels ((names.labels name).take (names.numLabels name - 1)) with
        | .error e => .error e
        | .ok nameWithoutZone =>
          let record := hk.setName record nameWithoutZone
          let rrkey := RrKey.new names (hk.name record) (hk.recordType record)
          match output.lookup rrkey with
          | none => .ok (output.insert rrkey (hk.ofRecord record))
          | some set => .ok (output.insert rrkey (hk.insert set record (hk.serial set)))

/-- `signed_packet_to_hickory_records_without_origin`, given the packet's key label and its
answers: the zone's label and its record sets. -/
def recordsWithoutOrigin (commonZone : List UInt8) (answers : List R) (filter : R → Bool) :
    Except ProtoError (List UInt8 × AList fun _ : RrKey => RS) :=
  (fun output => (commonZone, output)) <$> answers.foldlM (zoneStep names hk commonZone filter) ∅

/-- The entry a packet's answer becomes in its zone, if it is kept: its key, and the record named
without the key's label. -/
def zoneEntry (commonZone : List UInt8) (filter : R → Bool) (record : R) : Option (RrKey × R) :=
  if hk.recordType record = .SOA ∨ hk.recordType record = .NS then none
  else
    let name := hk.name record
    if h : names.numLabels name < 1 then none
    else if ((names.labels name).getLast (names.labels_ne_nil_of_numLabels h)).map asciiLower ≠
        commonZone.map asciiLower then none
    else if !filter record then none
    else
      match names.fromLabels ((names.labels name).take (names.numLabels name - 1)) with
      | .error _ => none
      | .ok nameWithoutZone =>
        let record := hk.setName record nameWithoutZone
        some (RrKey.new names (hk.name record) (hk.recordType record), record)

/-- Putting a record in the set of its key, as the loop's `entry` does. -/
def enter (output : AList fun _ : RrKey => RS) (e : RrKey × R) : AList fun _ : RrKey => RS :=
  match output.lookup e.1 with
  | none => output.insert e.1 (hk.ofRecord e.2)
  | some set => output.insert e.1 (hk.insert set e.2 (hk.serial set))

/-- A record set extended by records, each inserted with the set's serial. -/
def extendSet (set : RS) (records : List R) : RS :=
  records.foldl (fun s r => hk.insert s r (hk.serial s)) set

/-- The set of a key after its records: none without any, else the first one's set extended by
the others. -/
def grouped : Option RS → List R → Option RS
  | some set, records => some (extendSet hk set records)
  | none, [] => none
  | none, r :: records => some (extendSet hk (hk.ofRecord r) records)

variable {names hk}

/-- The loop's step never fails: the labels it checks and the names it builds are those of a
valid name. -/
theorem zoneStep_eq (commonZone : List UInt8) (filter : R → Bool) (output : AList fun _ : RrKey => RS)
    (record : R) :
    zoneStep names hk commonZone filter output record =
      .ok ((zoneEntry names hk commonZone filter record).elim output (enter hk output)) := by
  unfold zoneStep zoneEntry
  by_cases hsoa : hk.recordType record = .SOA ∨ hk.recordType record = .NS
  · simp [hsoa]
  by_cases h : names.numLabels (hk.name record) < 1
  · simp [hsoa, h]
  have hvalid : labelValid ((names.labels (hk.name record)).getLast (names.labels_ne_nil_of_numLabels h)) = true :=
    names.labels_valid _ _ (List.getLast_mem _)
  simp only [hsoa, if_false, dif_neg h, hvalid, Bool.not_true, Bool.false_eq_true]
  by_cases hz : ((names.labels (hk.name record)).getLast (names.labels_ne_nil_of_numLabels h)).map asciiLower ≠
      commonZone.map asciiLower
  · simp [hz]
  by_cases hf : filter record = true
  · obtain ⟨m, hm, -⟩ := names.fromLabels_of_prefix (hk.name record)
      (List.take_append_drop (names.numLabels (hk.name record) - 1) _).symm
    simp only [hz, hf, if_false, Bool.not_true, Bool.false_eq_true, hm, Option.elim, enter]
    split <;> rfl
  · simp [hz, hf]

theorem foldlM_zoneStep (commonZone : List UInt8) (filter : R → Bool) (answers : List R) :
    ∀ output : AList fun _ : RrKey => RS, answers.foldlM (zoneStep names hk commonZone filter) output =
      .ok (answers.foldl (fun o r => (zoneEntry names hk commonZone filter r).elim o (enter hk o)) output) := by
  induction answers with
  | nil => intro output; rfl
  | cons r answers ih =>
    intro output
    simp only [List.foldlM_cons, zoneStep_eq, List.foldl_cons]
    exact ih _

theorem lookup_enter (output : AList fun _ : RrKey => RS) (e : RrKey × R) (q : RrKey) :
    (enter hk output e).lookup q =
      if e.1 = q then grouped hk (output.lookup q) [e.2] else output.lookup q := by
  unfold enter
  by_cases hq : e.1 = q
  · subst hq
    rcases h : output.lookup e.1 with _ | set <;> simp [AList.lookup_insert, grouped, extendSet]
  · rcases output.lookup e.1 with _ | set <;> simp [AList.lookup_insert_ne (Ne.symm hq), hq]

theorem grouped_cons (set : Option RS) (r : R) (rs : List R) :
    grouped hk (grouped hk set [r]) rs = grouped hk set (r :: rs) := by
  cases set <;> rfl

theorem foldl_elim_zoneEntry (commonZone : List UInt8) (filter : R → Bool) (answers : List R) :
    ∀ output : AList fun _ : RrKey => RS,
      answers.foldl (fun o r => (zoneEntry names hk commonZone filter r).elim o (enter hk o)) output =
        (answers.filterMap (zoneEntry names hk commonZone filter)).foldl (enter hk) output := by
  induction answers with
  | nil => intro output; rfl
  | cons r answers ih =>
    intro output
    rcases h : zoneEntry names hk commonZone filter r with _ | e <;> simp [h, ih]

/-- Entering records one by one groups them by key, each key's set in the order of its records. -/
theorem lookup_foldl_enter (entries : List (RrKey × R)) :
    ∀ (output : AList fun _ : RrKey => RS) (q : RrKey), (entries.foldl (enter hk) output).lookup q =
      grouped hk (output.lookup q) ((entries.filter fun e => e.1 = q).map Prod.snd) := by
  induction entries with
  | nil =>
    intro output q
    rcases h : output.lookup q with _ | set <;> simp [h, grouped, extendSet]
  | cons e entries ih =>
    intro output q
    rw [List.foldl_cons, ih, lookup_enter]
    by_cases he : e.1 = q
    · simp [he, grouped_cons]
    · simp [he]

variable (names hk) in
/-- `signed_packet_to_hickory_records_without_origin` never fails on a packet's answers, and the
set of each key holds the answers kept under that key, in their order. -/
theorem recordsWithoutOrigin_lookup (commonZone : List UInt8) (answers : List R) (filter : R → Bool) :
    ∃ output, recordsWithoutOrigin names hk commonZone answers filter = .ok (commonZone, output) ∧
      ∀ q, output.lookup q = grouped hk none
        (((answers.filterMap (zoneEntry names hk commonZone filter)).filter fun e => e.1 = q).map Prod.snd) := by
  refine ⟨(answers.filterMap (zoneEntry names hk commonZone filter)).foldl (enter hk) ∅, ?_, fun q => ?_⟩
  · simp [recordsWithoutOrigin, foldlM_zoneStep, foldl_elim_zoneEntry]
  · rw [lookup_foldl_enter, AList.lookup_empty]

theorem setNameOf_extendSet (set : RS) (records : List R) :
    hk.setNameOf (extendSet hk set records) = hk.setNameOf set := by
  induction records generalizing set with
  | nil => rfl
  | cons r records ih => rw [extendSet, List.foldl_cons, ← extendSet, ih, hk.setNameOf_insert]

theorem zoneEntry_key {commonZone : List UInt8} {filter : R → Bool} {record : R} {e : RrKey × R}
    (h : zoneEntry names hk commonZone filter record = some e) :
    e.1 = RrKey.new names (hk.name e.2) (hk.recordType e.2) := by
  unfold zoneEntry at h
  by_cases h1 : hk.recordType record = .SOA ∨ hk.recordType record = .NS
  · simp [h1] at h
  by_cases h2 : names.numLabels (hk.name record) < 1
  · simp [h1, h2] at h
  by_cases h3 : filter record = true
  · simp only [h1, h2, h3, if_false, Bool.not_true, Bool.false_eq_true] at h
    by_cases h4 : ((names.labels (hk.name record)).getLast (names.labels_ne_nil_of_numLabels h2)).map asciiLower ≠
        commonZone.map asciiLower
    · simp [h4] at h
    · simp only [h4, dite_false, ↓reduceIte] at h
      split at h
      · cases h
      · simp only [Option.some.injEq] at h
        rw [← h]
  · simp [h1, h2, h3] at h

/-- A set of a zone is named as its key, up to ASCII case. -/
theorem name_of_lookup_recordsWithoutOrigin {commonZone : List UInt8} {answers : List R}
    {filter : R → Bool} {zone : AList fun _ : RrKey => RS}
    (h : recordsWithoutOrigin names hk commonZone answers filter = .ok (commonZone, zone)) {q : RrKey} {set : RS}
    (hs : zone.lookup q = some set) : names.labels (names.toLowercase (hk.setNameOf set)) = q.name := by
  obtain ⟨zone', h', hl⟩ := recordsWithoutOrigin_lookup names hk commonZone answers filter
  rw [h] at h'
  cases h'
  rw [hl] at hs
  generalize hes : (answers.filterMap (zoneEntry names hk commonZone filter)).filter (fun e => e.1 = q) = es at hs
  rcases es with _ | ⟨e, es⟩
  · cases hs
  · have he : e ∈ (answers.filterMap (zoneEntry names hk commonZone filter)).filter (fun e => e.1 = q) := by
      simp [hes]
    obtain ⟨hmem, hq⟩ := List.mem_filter.mp he
    obtain ⟨record, -, hrec⟩ := List.mem_filterMap.mp hmem
    simp only [grouped, List.map_cons, Option.some.injEq] at hs
    rw [← hs, setNameOf_extendSet, hk.setNameOf_ofRecord, ← of_decide_eq_true hq, zoneEntry_key hrec]
    rfl

/-! ### Answers -/

variable (names hk)

/-- The loop of `record_set_append_origin`: the set's records renamed, in a new set of the name. -/
def renameSet (input : RS) (newName : N) (serial : Nat) : RS :=
  (hk.recordsWithoutRrsigs input).foldl (fun output r => hk.insert output (hk.setName r newName) serial)
    (hk.newSet newName (hk.setTypeOf input) serial)

/-- `record_set_append_origin`. -/
def recordSetAppendOrigin (input : RS) (origin : N) (serial : Nat) : Except ProtoError RS :=
  match names.appendName (hk.setNameOf input) origin with
  | .error e => .error e
  | .ok newName => .ok (renameSet hk input newName serial)

/-- What the server reads of a pkarr `SignedPacket`: its key, its timestamp, `more_recent_than`,
and the answers of its DNS message (`signed_packet_to_hickory_message`, which may fail). -/
structure SignedPackets (K P R : Type) where
  keyOf : P → K
  timestamp : P → Nat
  moreRecentThan : P → P → Bool
  answers : P → Except ProtoError (List R)

/-- The zone store's view of the packets: a packet's zone is its answers' record sets. -/
def SignedPackets.pkarr {K P : Type} (z : Z32 K) (pkts : SignedPackets K P R) :
    Pkarr K P RrKey RS ProtoError where
  keyOf := pkts.keyOf
  timestamp := pkts.timestamp
  moreRecentThan := pkts.moreRecentThan
  records p := do
    let answers ← pkts.answers p
    let (_, records) ← recordsWithoutOrigin names hk (z.label (pkts.keyOf p)) answers fun _ => true
    pure records

/-- An authority's answer: the static authority's, `Refused`, `NXDomain`, or a record set. -/
inductive LookupResult (RS S : Type) where
  | static (answer : S)
  | refused
  | nxDomain
  | answers (set : RS)

/-- Where a lookup stands: answered, or awaiting the zone store's `resolve` of a key's query,
whose answer then gets the key's label and the origin. -/
inductive Lookup (K N RS S : Type) where
  | done (result : LookupResult RS S)
  | resolving (pubkey : K) (query : RrKey) (origin : N)

variable {K P S : Type}

/-- `NodeAuthority`: the serial, the origins (at least one) and the static authority's lookup. Its
zone store is the one the server's tasks share (`Server`), on which a lookup's `resolve` is a
call. -/
structure NodeAuthority (N S : Type) where
  serial : Nat
  origins : List N
  origins_ne : origins ≠ []
  staticAuthority : N → RecordType → S

namespace NodeAuthority

/-- `NodeAuthority::new`. -/
def new (staticAuthority : N → RecordType → S) (origins : List N) (serial : Nat) :
    Except String (NodeAuthority N S) :=
  if h : origins = [] then .error "at least one origin is required"
  else .ok ⟨serial, origins, h, staticAuthority⟩

/-- `Authority::origin`: the first origin, lowercased. -/
def origin (a : NodeAuthority N S) : N := names.toLowercase (a.origins.head a.origins_ne)

variable (z : Z32 K)

/-- What a lookup of a pkarr name answers once the zone store resolved its key: refused on an
error, no such domain on no records, and else the records with the key's label and the origin
appended to their name. -/
def pkarrAnswer (a : NodeAuthority N S) (pubkey : K) (origin : N) (resolved : Except ProtoError (Option RS)) :
    LookupResult RS S :=
  match resolved with
  | .error _ => .refused
  | .ok none => .nxDomain
  | .ok (some pkarrSet) =>
    match names.parse (z.encode pubkey) origin with
    | .error _ => .refused
    | .ok newOrigin =>
      match recordSetAppendOrigin names hk pkarrSet newOrigin a.serial with
      | .error _ => .refused
      | .ok recordSet => .answers recordSet

/-- The answer to a pkarr name of key `k` under the origin `o`, for `query`, from a packet `p` of the
key: refused if the packet's message does not decode; else, of the packet's answers that are not
SOA or NS records and are named under the key, those whose name without the key's label and whose
type are the query's: none gives no such domain, and else their record set, its records renamed
to the set's name completed with the key's label and the origin. -/
def AnswerFrom (a : NodeAuthority N S) (pkts : SignedPackets K P R) (k : K) (o : N) (query : RrKey) (p : P)
    (res : LookupResult RS S) : Prop :=
  match pkts.answers p with
  | .error _ => res = .refused
  | .ok answers =>
    match grouped hk none (((answers.filterMap (zoneEntry names hk (z.label k) fun _ => true)).filter
        fun e => e.1 = query).map Prod.snd) with
    | none => res = .nxDomain
    | some set => ∃ newName, names.labels newName = names.labels (hk.setNameOf set) ++ z.label k :: names.labels o ∧
        res = .answers (renameSet hk set newName a.serial)

/-- `Authority::lookup`: SOA and NS go to the static authority; a pkarr name awaits its key's
zone; another name goes to the static authority. -/
def lookup (a : NodeAuthority N S) (name : N) (recordType : RecordType) : Lookup K N RS S :=
  match recordType with
  | .SOA | .NS => .done (.static (a.staticAuthority name recordType))
  | _ =>
    match parseNameAsPkarrWithOrigin names z name a.origins with
    | .error _ => .done (.static (a.staticAuthority name recordType))
    | .ok (name, pubkey, origin) => .resolving pubkey (RrKey.new names name recordType) origin

/-- `Authority::search`. -/
def search (a : NodeAuthority N S) (name : N) (recordType : RecordType) : Lookup K N RS S :=
  match recordType with
  | .SOA => .done (.static (a.staticAuthority (a.origin names) recordType))
  | .AXFR => .done .refused
  | _ => a.lookup names z name recordType

/-! ### Answers for pkarr names -/

variable {names hk z} {pkts : SignedPackets K P R}

/-- A set of a packet's zone is named as its key, up to ASCII case. -/
theorem name_of_resolve {p : P} {zone : CachedZone RrKey RS}
    (hz : CachedZone.fromSignedPacket (pkts.pkarr names hk z) p = .ok zone) {q : RrKey} {set : RS}
    (hs : zone.resolve q = some set) : names.labels (names.toLowercase (hk.setNameOf set)) = q.name := by
  cases hans : pkts.answers p with
  | error e => simp [CachedZone.fromSignedPacket, SignedPackets.pkarr, hans, bind, Except.bind] at hz
  | ok answers =>
    obtain ⟨out, hout, -⟩ := recordsWithoutOrigin_lookup names hk (z.label (pkts.keyOf p)) answers fun _ => true
    have hrec : zone.records = out := by
      simp only [CachedZone.fromSignedPacket, SignedPackets.pkarr, hans, bind, Except.bind] at hz
      rw [hout] at hz
      simp only [pure, Except.pure, Except.map_ok, Except.ok.injEq] at hz
      rw [← hz]
    exact name_of_lookup_recordsWithoutOrigin hout (hrec ▸ hs)

variable (names hk z pkts) in
/-- A packet's zone fails as its message does, and else holds for each key the packet's answers
kept under it. -/
theorem fromSignedPacket_pkarr (p : P) :
    (∀ e, pkts.answers p = .error e → CachedZone.fromSignedPacket (pkts.pkarr names hk z) p = .error e) ∧
      ∀ answers, pkts.answers p = .ok answers → ∃ zone, CachedZone.fromSignedPacket (pkts.pkarr names hk z) p = .ok zone ∧
        ∀ q, zone.resolve q = grouped hk none
          (((answers.filterMap (zoneEntry names hk (z.label (pkts.keyOf p)) fun _ => true)).filter
            fun e => e.1 = q).map Prod.snd) := by
  refine ⟨fun e he => ?_, fun answers ha => ?_⟩
  · simp [CachedZone.fromSignedPacket, SignedPackets.pkarr, he, bind, Except.bind]
  · obtain ⟨out, hout, hl⟩ := recordsWithoutOrigin_lookup names hk (z.label (pkts.keyOf p)) answers fun _ => true
    refine ⟨⟨pkts.timestamp p, out⟩, ?_, fun q => hl q⟩
    simp only [CachedZone.fromSignedPacket, SignedPackets.pkarr, ha, bind, Except.bind]
    rw [hout]
    rfl

/-- A pkarr name under the first of the origins whose zone has it is looked up in its key's zone,
for the name before the key. -/
theorem search_of_labels (a : NodeAuthority N S) {pre post : List N} {o : N}
    (horigins : a.origins = pre ++ o :: post) (ho : names.numLabels o = (names.labels o).length) {n : N}
    {rest : List (List UInt8)} {k : K} (hn : names.labels n = rest ++ z.label k :: names.labels o)
    (hpre : ∀ o' ∈ pre, names.zoneOf o' n = false) {t : RecordType} (ht : t ≠ .SOA ∧ t ≠ .NS ∧ t ≠ .AXFR) :
    ∃ r, names.labels r = rest ∧
      (a.search names z n t : Lookup K N RS S) = .resolving k (RrKey.new names r t) o := by
  obtain ⟨r, hparse, hr⟩ := parse_of_labels names z hn ho hpre post
  refine ⟨r, hr, ?_⟩
  rw [← horigins] at hparse
  rcases t with _ | _ | _ | code
  · exact absurd rfl ht.1
  · exact absurd rfl ht.2.1
  · exact absurd rfl ht.2.2
  · simp only [search, lookup, hparse]

/-- The answer to a pkarr name from a packet of its key: refused if the packet's message does not
decode, no such domain if its zone has no set for the name and type, and else that set, its
records renamed with the key's label and the origin appended. -/
theorem pkarrAnswer_of_packet (a : NodeAuthority N S) {o n r : N} {rest : List (List UInt8)} {k : K}
    (hr : names.labels r = rest) (hn : names.labels n = rest ++ z.label k :: names.labels o) (t : RecordType)
    {p : P} (hkp : pkts.keyOf p = k) :
    a.AnswerFrom names hk z pkts k o (RrKey.new names r t) p
      (a.pkarrAnswer names hk z k o
        ((CachedZone.resolve · (RrKey.new names r t)) <$> CachedZone.fromSignedPacket (pkts.pkarr names hk z) p)) := by
  obtain ⟨herr, hok⟩ := fromSignedPacket_pkarr names hk z pkts p
  unfold AnswerFrom
  split
  · rename_i e he
    rw [herr e he]
    rfl
  · rename_i answers he
    obtain ⟨zone, hz, hresolve⟩ := hok answers he
    rw [hz, Except.map_ok]
    rw [hkp] at hresolve
    rw [← hresolve]
    split
    · rename_i hs
      rw [hs]
      rfl
    · rename_i set hs
      have hlower := name_of_resolve hz hs
      have hset : nameLen (names.labels (hk.setNameOf set) ++ z.label k :: names.labels o) =
          nameLen (names.labels n) := by
        rw [Names.nameLen_append_of_lower (b := rest), hn]
        rw [← names.labels_toLowercase, hlower, RrKey.new, names.labels_toLowercase, hr]
      have hkey : nameLen (z.label k :: names.labels o) ≤ 255 := by
        have := Names.nameLen_le_append_right rest (z.label k :: names.labels o)
        rw [← hn] at this
        exact this.trans (names.nameLen_le n)
      obtain ⟨newOrigin, hno, hnol⟩ := names.parse_label (z.encode k) o (z.alnum k) (z.valid k) hkey
      obtain ⟨newName, hnn, hnnl⟩ := names.appendName_ok (hk.setNameOf set) newOrigin <| by
        rw [hnol]
        change nameLen (_ ++ z.label k :: _) ≤ 255
        rw [hset]
        exact names.nameLen_le n
      refine ⟨newName, by rw [hnnl, hnol]; rfl, ?_⟩
      rw [hs]
      simp only [pkarrAnswer, hno, recordSetAppendOrigin, hnn]

variable [DecidableEq K]

variable (names hk z pkts) in
/-- After any interleaving of publishes, queries and cache evictions on a zone store opened over a
database of packets under their own keys, with or without the DHT fallback and with the DHT
answering only packets of the keys asked, a query of a type other than SOA, NS and AXFR for a
name `<name>.<z32 key>.<origin>`, under the first of the origins whose zone has it, awaits the
key's zone for `<name>`, and whatever the zone store replies is turned into: no such domain; with
a DHT client, refused; or the answer from a packet of the key (`AnswerFrom`), one no more recent
than the stored packet or, with a DHT client, any. -/
theorem search_answers_packet (a : NodeAuthority N S)
    {pre post : List N} {o : N} (horigins : a.origins = pre ++ o :: post)
    (ho : names.numLabels o = (names.labels o).length) {n : N} {rest : List (List UInt8)} {k : K}
    (hn : names.labels n = rest ++ z.label k :: names.labels o) (hpre : ∀ o' ∈ pre, names.zoneOf o' n = false)
    {t : RecordType} (ht : t ≠ .SOA ∧ t ≠ .NS ∧ t ≠ .AXFR)
    [Std.Asymm fun a b : P => (pkts.pkarr names hk z).moreRecentThan a b = true]
    [IsOrderConnected P fun a b => (pkts.pkarr names hk z).moreRecentThan a b = true]
    {st : SignedPacketStore K P} (hst : st.Keyed (pkts.pkarr names hk z)) {zs₀ : ZoneStore K P RrKey RS}
    (h₀ : zs₀ = .new st ∨ zs₀ = (ZoneStore.new st).withMainlineFallback) :
    ∃ r, names.labels r = rest ∧ (a.search names z n t : Lookup K N RS S) = .resolving k (RrKey.new names r t) o ∧
      ∀ (ops : List (Op K P RrKey ProtoError)) (op : Op K P RrKey ProtoError) (ans : Except ProtoError (Option RS)),
        op.Honest (pkts.pkarr names hk z) →
        ((Server.run (pkts.pkarr names hk z) ⟨zs₀, []⟩ ops).step (pkts.pkarr names hk z) op).2 =
          some (k, RrKey.new names r t, ans) →
        a.pkarrAnswer names hk z k o ans = .nxDomain ∨
        (zs₀.pkarr = true ∧ a.pkarrAnswer names hk z k o ans = .refused) ∨
        ∃ p, pkts.keyOf p = k ∧
          (Behind (pkts.pkarr names hk z) (Server.run (pkts.pkarr names hk z) ⟨zs₀, []⟩ ops).zones.store k p ∨
            zs₀.pkarr = true) ∧
          a.AnswerFrom names hk z pkts k o (RrKey.new names r t) p (a.pkarrAnswer names hk z k o ans) := by
  obtain ⟨r, hr, hsearch⟩ := search_of_labels a horigins ho hn hpre ht
  refine ⟨r, hr, hsearch, fun ops op ans hop hreply => ?_⟩
  have hpk : (Server.run (pkts.pkarr names hk z) ⟨zs₀, []⟩ ops).zones.pkarr = zs₀.pkarr := Server.pkarr_run _ _ _
  rcases ((Server.sound_opened hst h₀).run ops).reply hop hreply with ⟨p, hkp, hb, rfl⟩ | rfl | ⟨hp, e, rfl⟩
  · exact .inr (.inr ⟨p, hkp, hpk ▸ hb, pkarrAnswer_of_packet a hr hn t hkp⟩)
  · exact .inl rfl
  · exact .inr (.inl ⟨hpk ▸ hp, rfl⟩)

/-- Records of a name, a type and one datum, and sets of a name, a type and data. -/
def listHickory : Hickory LabelName (LabelName × RecordType × Nat) (LabelName × RecordType × List Nat) where
  name r := r.1
  recordType r := r.2.1
  setName r n := (n, r.2)
  ofRecord r := (r.1, r.2.1, [r.2.2])
  newSet n t _ := (n, t, [])
  insert s r _ := (s.1, s.2.1, s.2.2 ++ [r.2.2])
  serial _ := 0
  setNameOf s := s.1
  setTypeOf s := s.2.1
  recordsWithoutRrsigs s := s.2.2.map fun d => (s.1, s.2.1, d)
  name_setName _ _ := rfl
  recordType_setName _ _ := rfl
  setNameOf_ofRecord _ := rfl
  setNameOf_insert _ _ _ := rfl

/-- Packets of a key, a timestamp and answers, the later one more recent. -/
def listPackets : SignedPackets Bool (Bool × Nat × List (LabelName × RecordType × Nat)) (LabelName × RecordType × Nat) where
  keyOf p := p.1
  timestamp p := p.2.1
  moreRecentThan a b := decide (b.2.1 < a.2.1)
  answers p := .ok p.2.2

/-- A server for the origin `iroh`. -/
def irohAuthority : NodeAuthority LabelName Unit := ⟨1, [irohOrigin], (by simp), fun _ _ => ()⟩

theorem search_answers_packet_txt :
    ∃ r, listNames.labels r = [[95, 105, 114, 111, 104]] ∧
      (irohAuthority.search listNames boolZ32 irohQuery (.other 16) :
        Lookup Bool LabelName (LabelName × RecordType × List Nat) Unit) =
        .resolving true (RrKey.new listNames r (.other 16)) irohOrigin ∧
      ∀ (ops : List (Op Bool (Bool × Nat × List (LabelName × RecordType × Nat)) RrKey ProtoError))
        (op : Op Bool (Bool × Nat × List (LabelName × RecordType × Nat)) RrKey ProtoError)
        (ans : Except ProtoError (Option (LabelName × RecordType × List Nat))),
        op.Honest (listPackets.pkarr listNames listHickory boolZ32) →
        ((Server.run (listPackets.pkarr listNames listHickory boolZ32) ⟨ZoneStore.new .inMemory, []⟩ ops).step
          (listPackets.pkarr listNames listHickory boolZ32) op).2 =
          some (true, RrKey.new listNames r (.other 16), ans) →
        irohAuthority.pkarrAnswer listNames listHickory boolZ32 true irohOrigin ans = .nxDomain ∨
        ((ZoneStore.new .inMemory : ZoneStore Bool (Bool × Nat × List (LabelName × RecordType × Nat)) RrKey
            (LabelName × RecordType × List Nat)).pkarr = true ∧
          irohAuthority.pkarrAnswer listNames listHickory boolZ32 true irohOrigin ans = .refused) ∨
        ∃ p, listPackets.keyOf p = true ∧
          (Behind (listPackets.pkarr listNames listHickory boolZ32)
            (Server.run (listPackets.pkarr listNames listHickory boolZ32) ⟨ZoneStore.new .inMemory, []⟩ ops).zones.store
              true p ∨
            (ZoneStore.new .inMemory : ZoneStore Bool (Bool × Nat × List (LabelName × RecordType × Nat)) RrKey
              (LabelName × RecordType × List Nat)).pkarr = true) ∧
          irohAuthority.AnswerFrom listNames listHickory boolZ32 listPackets true irohOrigin
            (RrKey.new listNames r (.other 16)) p
            (irohAuthority.pkarrAnswer listNames listHickory boolZ32 true irohOrigin ans) := by
  have : Std.Asymm fun a b => (listPackets.pkarr listNames listHickory boolZ32).moreRecentThan a b = true :=
    ⟨fun a b h h' => by simp [listPackets, SignedPackets.pkarr] at h h'; omega⟩
  have : IsOrderConnected _ fun a b => (listPackets.pkarr listNames listHickory boolZ32).moreRecentThan a b = true :=
    ⟨fun a b c h => by simp [listPackets, SignedPackets.pkarr] at h ⊢; omega⟩
  have hst : SignedPacketStore.inMemory.Keyed (listPackets.pkarr listNames listHickory boolZ32) :=
    fun k p h => by simp at h
  exact search_answers_packet listNames listHickory boolZ32 listPackets irohAuthority
    (show irohAuthority.origins = [] ++ irohOrigin :: [] from rfl) (by decide)
    (show listNames.labels irohQuery = [[95, 105, 114, 111, 104]] ++ boolZ32.label true :: listNames.labels irohOrigin
      from by decide) (by simp) (t := .other 16) (by decide) hst (.inl rfl)

end NodeAuthority

end Iroh.DnsServer
