import Iroh.Lib.Machine

/-! The DNS records a node publishes (`dns/node_info.rs`): its relay URL and direct
addresses as "key=value" TXT strings under `_iroh.<z32 node id>.<origin>`, read back from
DNS (`from_hickory_records`) or from a pkarr packet (`from_pkarr_signed_packet`).

Text is a list of characters. The URL and socket address formats, DNS names and the
pkarr signature are outside the model (`Env`). A signed packet is modelled by the public
key that signed it and its answers.

A key and value pair survives the text encoding when the value has no '='
(`fromStrings_toTxtStrings`), and then the pkarr packet round-trips
(`fromPkarrSignedPacket_toPkarrSignedPacket`). DNS does not: `from_hickory_records`
checks that every record names the same node with `Iterator::all`, which uses up the
records, and parses only the first (`hickory_records_drop_direct_addresses`). -/

namespace Iroh.Net.Dns

open Machine

/-- `IROH_TXT_NAME`. -/
def irohTxtName : List Char := ['_', 'i', 'r', 'o', 'h']

/-- `IrohAttr`, its variants in the order of its `Ord`. -/
inductive IrohAttr where
  | relay
  | addr
deriving DecidableEq, Repr

/-- The kebab-case name strum gives an attribute. -/
def IrohAttr.toString : IrohAttr → List Char
  | .relay => ['r', 'e', 'l', 'a', 'y']
  | .addr => ['a', 'd', 'd', 'r']

/-- `IrohAttr::from_str`. -/
def IrohAttr.fromStr (s : List Char) : Option IrohAttr :=
  if s = IrohAttr.relay.toString then some .relay
  else if s = IrohAttr.addr.toString then some .addr
  else none

/-- The attributes in the order a `BTreeMap` visits them. -/
def IrohAttr.all : List IrohAttr := [.relay, .addr]

/-- `TxtAttrs<IrohAttr>`: the node id and the values of each attribute, in the order they
were added. -/
structure TxtAttrs (K : Type) where
  nodeId : K
  attrs : IrohAttr → List (List Char)

/-- `attrs.entry(key).or_default().push(value)`. -/
def push (attrs : IrohAttr → List (List Char)) (key : IrohAttr) (value : List Char) :
    IrohAttr → List (List Char) :=
  Function.update attrs key (attrs key ++ [value])

/-- The body of the loop of `TxtAttrs::from_strings`: the first two pieces between '='. -/
def pushString (attrs : IrohAttr → List (List Char)) (s : List Char) : IrohAttr → List (List Char) :=
  match s.splitOn '=' with
  | key :: value :: _ =>
    match IrohAttr.fromStr key with
    | some attr => push attrs attr value
    | none => attrs
  | _ => attrs

section TxtAttrs

variable {K : Type}

/-- `TxtAttrs::from_parts`. -/
def TxtAttrs.fromParts (nodeId : K) (pairs : List (IrohAttr × List Char)) : TxtAttrs K :=
  ⟨nodeId, pairs.foldl (fun attrs p => push attrs p.1 p.2) fun _ => []⟩

/-- `TxtAttrs::from_strings`. -/
def TxtAttrs.fromStrings (nodeId : K) (strings : List (List Char)) : TxtAttrs K :=
  ⟨nodeId, strings.foldl pushString fun _ => []⟩

/-- `TxtAttrs::to_txt_strings`: "{key}={value}" for every value, key by key. -/
def TxtAttrs.toTxtStrings (a : TxtAttrs K) : List (List Char) :=
  IrohAttr.all.flatMap fun key => (a.attrs key).map fun value => key.toString ++ '=' :: value

end TxtAttrs

/-- The record data the parser tells apart: TXT, with its character strings, or other. -/
inductive RData where
  | txt (txtData : List (List Char))
  | other

/-- `Display for TXT`: the character strings one after the other. -/
def RData.txtToString (txtData : List (List Char)) : List Char := txtData.flatten

/-- A hickory `Record`. -/
structure Record (Name : Type) where
  name : Name
  ttl : Nat
  rdata : RData

/-- A record of a pkarr packet, with its name relative to the signer's zone (`without`). -/
structure PkarrRecord where
  name : Option (List Char)
  rdata : RData

/-- A pkarr `SignedPacket`, by the key that signed it and its answers. -/
structure SignedPacket (K : Type) where
  publicKey : K
  answers : List PkarrRecord

/-- What the records take from outside: the URL and socket address formats, the DNS
name of a node under an origin (`Name::from_utf8` of "_iroh.<z32>.<origin>") and
`node_id_from_hickory_name`. -/
structure Env (Url A Name K : Type) where
  urlToString : Url → List Char
  urlParse : List Char → Option Url
  addrToString : A → List Char
  addrFromStr : List Char → Option A
  nodeName : K → List Char → Option Name
  nodeIdFromHickoryName : Name → Option K

/-- `NodeInfo`. -/
structure NodeInfo (K Url A : Type) where
  nodeId : K
  relayUrl : Option Url
  directAddresses : Finset A

/-- `Iterator::all`, with what it leaves of the iterator: it stops right after the first
element that fails. -/
def iterAll {α : Type} (p : α → Bool) : List α → Bool × List α
  | [] => (true, [])
  | x :: xs => if p x then iterAll p xs else (false, xs)

section Records

variable {Url A Name K : Type} [DecidableEq K] (env : Env Url A Name K)

/-- `TxtAttrs::to_hickory_records`. -/
def TxtAttrs.toHickoryRecords (a : TxtAttrs K) (origin : List Char) (ttl : Nat) :
    Except String (List (Record Name)) :=
  match env.nodeName a.nodeId origin with
  | none => .error "invalid DNS name"
  | some name => .ok (a.toTxtStrings.map fun s => ⟨name, ttl, .txt [s]⟩)

/-- `TxtAttrs::from_hickory_records`. -/
def TxtAttrs.fromHickoryRecords (records : List (Record Name)) : Except String (TxtAttrs K) :=
  let records := records.filterMap fun rr =>
    match rr.rdata with
    | .txt txt => (env.nodeIdFromHickoryName rr.name).map fun nodeId => (nodeId, txt)
    | .other => none
  match records with
  | [] => .error "invalid DNS answer: no TXT record with name _iroh.z32encodedpubkey found"
  | (nodeId, first) :: records =>
    let (allSame, records) := iterAll (fun r => decide (r.1 = nodeId)) records
    if allSame then
      -- what `all` left of the records, then the first one
      .ok (TxtAttrs.fromStrings nodeId ((records.map (·.2) ++ [first]).map RData.txtToString))
    else .error "invalid DNS answer: all _iroh txt records must belong to the same node domain"

/-- `TxtAttrs::to_pkarr_signed_packet`, signed by the key with public key `publicKey`. -/
def TxtAttrs.toPkarrSignedPacket (a : TxtAttrs K) (publicKey : K) : SignedPacket K :=
  ⟨publicKey, a.toTxtStrings.map fun s => ⟨some irohTxtName, .txt [s]⟩⟩

/-- `TxtAttrs::from_pkarr_signed_packet`. -/
def TxtAttrs.fromPkarrSignedPacket (packet : SignedPacket K) : TxtAttrs K :=
  let txtStrs := packet.answers.filterMap fun rr =>
    match rr.rdata with
    | .txt txt => if rr.name = some irohTxtName then some (RData.txtToString txt) else none
    | .other => none
  TxtAttrs.fromStrings packet.publicKey txtStrs

/-- `From<&TxtAttrs<IrohAttr>> for NodeInfo`: the first relay URL that is one, and every
address that parses. -/
def NodeInfo.ofAttrs [DecidableEq A] (a : TxtAttrs K) : NodeInfo K Url A :=
  ⟨a.nodeId, ((a.attrs .relay).head?).bind env.urlParse, ((a.attrs .addr).filterMap env.addrFromStr).toFinset⟩

/-- `From<&NodeInfo> for TxtAttrs<IrohAttr>`: the relay URL, then the addresses in order. -/
def NodeInfo.toAttrs [LinearOrder A] (n : NodeInfo K Url A) : TxtAttrs K :=
  TxtAttrs.fromParts n.nodeId
    (n.relayUrl.toList.map (fun u => (.relay, env.urlToString u)) ++
      n.directAddresses.sort.map fun addr => (.addr, env.addrToString addr))

/-- `NodeInfo::to_hickory_records`. -/
def NodeInfo.toHickoryRecords [LinearOrder A] (n : NodeInfo K Url A) (origin : List Char) (ttl : Nat) :
    Except String (List (Record Name)) :=
  (n.toAttrs env).toHickoryRecords env origin ttl

/-- `NodeInfo::from_hickory_records`. -/
def NodeInfo.fromHickoryRecords [DecidableEq A] (records : List (Record Name)) :
    Except String (NodeInfo K Url A) :=
  (TxtAttrs.fromHickoryRecords env records).map (NodeInfo.ofAttrs env)

/-- `NodeInfo::to_pkarr_signed_packet`. -/
def NodeInfo.toPkarrSignedPacket [LinearOrder A] (n : NodeInfo K Url A) (publicKey : K) :
    SignedPacket K :=
  (n.toAttrs env).toPkarrSignedPacket publicKey

/-- `NodeInfo::from_pkarr_signed_packet`. -/
def NodeInfo.fromPkarrSignedPacket [DecidableEq A] (packet : SignedPacket K) : NodeInfo K Url A :=
  NodeInfo.ofAttrs env (TxtAttrs.fromPkarrSignedPacket packet)

end Records

/-! ### The text encoding -/

theorem push_apply (attrs : IrohAttr → List (List Char)) (key key' : IrohAttr) (value : List Char) :
    push attrs key value key' = if key' = key then attrs key ++ [value] else attrs key' := by
  by_cases h : key' = key
  · subst h
    simp [push]
  · simp [push, h]

theorem not_mem_toString (key : IrohAttr) : '=' ∉ key.toString := by
  cases key <;> decide

theorem fromStr_toString (key : IrohAttr) : IrohAttr.fromStr key.toString = some key := by
  cases key <;> rfl

/-- The value a "{key}={value}" string gives back: up to the next '='. -/
def firstPiece (value : List Char) : List Char := (value.splitOn '=').headD []

theorem firstPiece_of_not_mem {value : List Char} (h : '=' ∉ value) : firstPiece value = value := by
  simp [firstPiece, List.splitOn_eq_singleton h]

/-- A "{key}={value}" string adds the value, cut at its first '=', to the key. -/
theorem pushString_encoded (attrs : IrohAttr → List (List Char)) (key : IrohAttr)
    (value : List Char) :
    pushString attrs (key.toString ++ '=' :: value) = push attrs key (firstPiece value) := by
  have hsplit := List.splitOn_append_cons_self_of_not_mem (not_mem_toString key) value
  obtain ⟨w, rest, hw⟩ := List.exists_cons_of_ne_nil (List.splitOn_ne_nil '=' value)
  simp [pushString, hsplit, hw, fromStr_toString, firstPiece]

/-- The pairs of keys and values, key by key. -/
def TxtAttrs.pairs {K : Type} (a : TxtAttrs K) : List (IrohAttr × List Char) :=
  IrohAttr.all.flatMap fun key => (a.attrs key).map fun value => (key, value)

theorem toTxtStrings_eq {K : Type} (a : TxtAttrs K) :
    a.toTxtStrings = a.pairs.map fun p => p.1.toString ++ '=' :: p.2 := by
  simp [TxtAttrs.toTxtStrings, TxtAttrs.pairs, List.map_flatMap, Function.comp_def]

theorem foldl_push_apply (init : IrohAttr → List (List Char)) (pairs : List (IrohAttr × List Char))
    (key : IrohAttr) :
    pairs.foldl (fun attrs p => push attrs p.1 p.2) init key =
      init key ++ (pairs.filter fun p => p.1 = key).map (·.2) := by
  induction pairs generalizing init with
  | nil => simp
  | cons p pairs ih =>
    rw [List.foldl_cons, ih, push_apply]
    by_cases h : key = p.1
    · subst h
      simp
    · simp [h, Ne.symm h]

theorem fromParts_attrs {K : Type} (nodeId : K) (pairs : List (IrohAttr × List Char)) (key : IrohAttr) :
    (TxtAttrs.fromParts nodeId pairs).attrs key = (pairs.filter fun p => p.1 = key).map (·.2) := by
  simp [TxtAttrs.fromParts, foldl_push_apply]

theorem pairs_filter {K : Type} (a : TxtAttrs K) (key : IrohAttr) :
    (a.pairs.filter fun p => p.1 = key).map (·.2) = a.attrs key := by
  cases key <;> simp [TxtAttrs.pairs, IrohAttr.all, List.filter_map, Function.comp_def]

/-- Strings in the encoding parse as their pairs, each value cut at its first '='. -/
theorem fromStrings_encoded {K : Type} (nodeId : K) (pairs : List (IrohAttr × List Char)) :
    TxtAttrs.fromStrings nodeId (pairs.map fun p => p.1.toString ++ '=' :: p.2) =
      TxtAttrs.fromParts nodeId (pairs.map fun p => (p.1, firstPiece p.2)) := by
  simp only [TxtAttrs.fromStrings, TxtAttrs.fromParts, List.foldl_map, pushString_encoded]

/-- **The text encoding round-trips values without '='.** -/
theorem fromStrings_toTxtStrings {K : Type} (a : TxtAttrs K) (nodeId : K)
    (h : ∀ key, ∀ value ∈ a.attrs key, '=' ∉ value) :
    (TxtAttrs.fromStrings nodeId a.toTxtStrings).attrs = a.attrs := by
  have hpieces : (a.pairs.map fun p => (p.1, firstPiece p.2)) = a.pairs := by
    conv_rhs => rw [← List.map_id a.pairs]
    refine List.map_congr_left fun p hp => ?_
    simp only [TxtAttrs.pairs, List.mem_flatMap, List.mem_map] at hp
    obtain ⟨key, -, value, hv, rfl⟩ := hp
    rw [firstPiece_of_not_mem (h key value hv), id]
  funext key
  rw [toTxtStrings_eq, fromStrings_encoded, hpieces, fromParts_attrs, pairs_filter]

/-! ### Node info and its records -/

section NodeInfo

variable {Url A Name K : Type} (env : Env Url A Name K)

theorem toAttrs_relay [LinearOrder A] (n : NodeInfo K Url A) :
    (n.toAttrs env).attrs .relay = n.relayUrl.toList.map env.urlToString := by
  simp [NodeInfo.toAttrs, fromParts_attrs, List.filter_map, Function.comp_def]

theorem toAttrs_addr [LinearOrder A] (n : NodeInfo K Url A) :
    (n.toAttrs env).attrs .addr = n.directAddresses.sort.map env.addrToString := by
  simp [NodeInfo.toAttrs, fromParts_attrs, List.filter_map, Function.comp_def]

theorem toAttrs_nodeId [LinearOrder A] (n : NodeInfo K Url A) : (n.toAttrs env).nodeId = n.nodeId := rfl

theorem toAttrs_toTxtStrings [LinearOrder A] (n : NodeInfo K Url A) :
    (n.toAttrs env).toTxtStrings =
      n.relayUrl.toList.map (fun u => IrohAttr.relay.toString ++ '=' :: env.urlToString u) ++
        n.directAddresses.sort.map fun a => IrohAttr.addr.toString ++ '=' :: env.addrToString a := by
  simp [TxtAttrs.toTxtStrings, IrohAttr.all, toAttrs_relay, toAttrs_addr, Function.comp_def]

/-- Attributes with the values `to_attrs` writes read back as the node info, when the URL
and address formats round-trip. -/
theorem ofAttrs_eq [LinearOrder A] (hurl : ∀ u, env.urlParse (env.urlToString u) = some u)
    (haddr : ∀ a, env.addrFromStr (env.addrToString a) = some a) (n : NodeInfo K Url A)
    (a : TxtAttrs K) (hid : a.nodeId = n.nodeId) (hattrs : a.attrs = (n.toAttrs env).attrs) :
    NodeInfo.ofAttrs env a = n := by
  obtain ⟨nodeId, relayUrl, directAddresses⟩ := n
  have hrelay : ((a.attrs .relay).head?).bind env.urlParse = relayUrl := by
    rw [hattrs, toAttrs_relay]
    cases relayUrl <;> simp [hurl]
  have haddrs : ((a.attrs .addr).filterMap env.addrFromStr).toFinset = directAddresses := by
    rw [hattrs, toAttrs_addr, List.filterMap_map]
    simp [haddr, Finset.sort_toFinset]
  simp only [NodeInfo.ofAttrs, hid, hrelay, haddrs]

theorem fromPkarrSignedPacket_toPkarrSignedPacket_attrs (a : TxtAttrs K) (publicKey : K) :
    TxtAttrs.fromPkarrSignedPacket (a.toPkarrSignedPacket publicKey) =
      TxtAttrs.fromStrings publicKey a.toTxtStrings := by
  simp [TxtAttrs.fromPkarrSignedPacket, TxtAttrs.toPkarrSignedPacket, List.filterMap_map,
    RData.txtToString]

/-- **A pkarr packet round-trips a node's info** signed by the node's own key, when the URL
and address formats round-trip and neither the relay URL nor an address has a '='. -/
theorem fromPkarrSignedPacket_toPkarrSignedPacket [LinearOrder A]
    (hurl : ∀ u, env.urlParse (env.urlToString u) = some u)
    (haddr : ∀ a, env.addrFromStr (env.addrToString a) = some a) (n : NodeInfo K Url A)
    (hrelay : ∀ u ∈ n.relayUrl, '=' ∉ env.urlToString u)
    (hdirect : ∀ a ∈ n.directAddresses, '=' ∉ env.addrToString a) :
    NodeInfo.fromPkarrSignedPacket env (n.toPkarrSignedPacket env n.nodeId) = n := by
  have hvalues : ∀ key, ∀ value ∈ (n.toAttrs env).attrs key, '=' ∉ value := by
    intro key value hv
    cases key
    · simp only [toAttrs_relay, List.mem_map, Option.mem_toList] at hv
      obtain ⟨u, hu, rfl⟩ := hv
      exact hrelay u hu
    · simp only [toAttrs_addr, List.mem_map, Finset.mem_sort] at hv
      obtain ⟨a, ha, rfl⟩ := hv
      exact hdirect a ha
  refine ofAttrs_eq env hurl haddr n _ rfl ?_
  rw [NodeInfo.toPkarrSignedPacket, fromPkarrSignedPacket_toPkarrSignedPacket_attrs,
    fromStrings_toTxtStrings _ _ hvalues]

/-- A node with a relay URL and one direct address, each written as one letter. -/
theorem fromPkarrSignedPacket_toPkarrSignedPacket_unit :
    let env : Env Unit Unit Nat Nat :=
      ⟨fun _ => ['u'], fun _ => some (), fun _ => ['a'], fun _ => some (), fun k _ => some k, some⟩
    let n : NodeInfo Nat Unit Unit := ⟨1, some (), {()}⟩
    (∀ u, env.urlParse (env.urlToString u) = some u) ∧ (∀ a, env.addrFromStr (env.addrToString a) = some a) ∧
      (∀ u ∈ n.relayUrl, '=' ∉ env.urlToString u) ∧ (∀ a ∈ n.directAddresses, '=' ∉ env.addrToString a) ∧
      NodeInfo.fromPkarrSignedPacket env (n.toPkarrSignedPacket env n.nodeId) = n := by
  intro env n
  have hurl : ∀ u, env.urlParse (env.urlToString u) = some u := fun _ => rfl
  have haddr : ∀ a, env.addrFromStr (env.addrToString a) = some a := fun _ => rfl
  have hrelay : ∀ u ∈ n.relayUrl, '=' ∉ env.urlToString u := fun _ _ => show '=' ∉ ['u'] by decide
  have hdirect : ∀ a ∈ n.directAddresses, '=' ∉ env.addrToString a := fun _ _ => show '=' ∉ ['a'] by decide
  exact ⟨hurl, haddr, hrelay, hdirect, fromPkarrSignedPacket_toPkarrSignedPacket env hurl haddr n hrelay hdirect⟩

theorem iterAll_of_forall {α : Type} {p : α → Bool} {l : List α} (h : ∀ x ∈ l, p x = true) :
    iterAll p l = (true, []) := by
  induction l with
  | nil => rfl
  | cons x l ih =>
    simp only [iterAll, h x List.mem_cons_self, if_true]
    exact ih fun y hy => h y (List.mem_cons_of_mem x hy)

/-- Records of one node parse as their first string alone: `all` has used up the rest. -/
theorem fromHickoryRecords_toHickoryRecords [DecidableEq K]
    (hname : ∀ k origin name, env.nodeName k origin = some name → env.nodeIdFromHickoryName name = some k)
    (a : TxtAttrs K) (origin : List Char) (ttl : Nat) (records : List (Record Name))
    (h : a.toHickoryRecords env origin ttl = .ok records) (s : List Char) (rest : List (List Char))
    (hs : a.toTxtStrings = s :: rest) :
    TxtAttrs.fromHickoryRecords env records = .ok (TxtAttrs.fromStrings a.nodeId [s]) := by
  unfold TxtAttrs.toHickoryRecords at h
  split at h
  · cases h
  rename_i name hnodeName
  cases h
  have hnode := hname _ _ _ hnodeName
  have hall : iterAll (fun r => decide (r.1 = a.nodeId))
      (rest.map fun s => (a.nodeId, [s])) = (true, []) :=
    iterAll_of_forall fun r hr => by
      obtain ⟨s', -, rfl⟩ := List.mem_map.mp hr
      simp
  simp [TxtAttrs.fromHickoryRecords, hs, hnode, List.filterMap_map, hall, RData.txtToString]

/-- From one relay string alone there are no addresses. -/
theorem fromStrings_relay_addr {K : Type} (k : K) (value : List Char) :
    (TxtAttrs.fromStrings k [IrohAttr.relay.toString ++ '=' :: value]).attrs .addr = [] := by
  simp [TxtAttrs.fromStrings, pushString_encoded, push_apply]

/-- **DNS loses the direct addresses of a node with a relay URL**: the first string is the
relay's, and it is the only one parsed. -/
theorem hickory_records_drop_direct_addresses [DecidableEq K] [LinearOrder A]
    (hname : ∀ k origin name, env.nodeName k origin = some name → env.nodeIdFromHickoryName name = some k)
    (k : K) (u : Url) (a : A) (origin : List Char) (ttl : Nat) (records : List (Record Name))
    (hrecords : NodeInfo.toHickoryRecords env ⟨k, some u, {a}⟩ origin ttl = .ok records) :
    ∃ info : NodeInfo K Url A, NodeInfo.fromHickoryRecords env records = .ok info ∧
      info.directAddresses = ∅ ∧ info ≠ ⟨k, some u, {a}⟩ := by
  have hs : (NodeInfo.toAttrs env ⟨k, some u, {a}⟩).toTxtStrings =
      (IrohAttr.relay.toString ++ '=' :: env.urlToString u) ::
        [IrohAttr.addr.toString ++ '=' :: env.addrToString a] := by
    simp [toAttrs_toTxtStrings]
  have hfrom := fromHickoryRecords_toHickoryRecords env hname _ origin ttl records hrecords _ _ hs
  have hempty : (NodeInfo.ofAttrs env (TxtAttrs.fromStrings k
      [IrohAttr.relay.toString ++ '=' :: env.urlToString u]) : NodeInfo K Url A).directAddresses = ∅ := by
    simp [NodeInfo.ofAttrs, fromStrings_relay_addr]
  refine ⟨_, by rw [NodeInfo.fromHickoryRecords, hfrom]; rfl, hempty, fun h => ?_⟩
  rw [h] at hempty
  exact Finset.singleton_ne_empty a hempty

/-- Numbers for names, URLs and addresses, one URL and one address text; a node's DNS name
is its id. -/
def sampleEnv : Env Nat Nat Nat Nat where
  urlToString _ := ['u']
  urlParse _ := some 0
  addrToString _ := ['a']
  addrFromStr _ := some 0
  nodeName k _ := some k
  nodeIdFromHickoryName := some

theorem hickory_records_drop_sample :
    ∃ info : NodeInfo Nat Nat Nat,
      NodeInfo.fromHickoryRecords sampleEnv
          [⟨1, 30, .txt [['r', 'e', 'l', 'a', 'y', '=', 'u']]⟩,
            ⟨1, 30, .txt [['a', 'd', 'd', 'r', '=', 'a']]⟩] = .ok info ∧
        info.directAddresses = ∅ ∧ info ≠ ⟨1, some 2, {3}⟩ :=
  hickory_records_drop_direct_addresses sampleEnv (fun _ _ _ h => (Option.some.inj h).symm ▸ rfl) 1 2 3 [] 30 _
    (by simp [NodeInfo.toHickoryRecords, TxtAttrs.toHickoryRecords, toAttrs_toTxtStrings, toAttrs_nodeId, sampleEnv,
      IrohAttr.toString])

end NodeInfo

end Iroh.Net.Dns
