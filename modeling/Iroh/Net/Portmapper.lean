import Iroh.Lib.Machine
import Iroh.Lib.Slice

/-! Port mapping responses (`portmapper/pcp/protocol`, `portmapper/nat_pmp/protocol`):
the reply of a gateway to a PCP or a NAT-PMP request, as `Response::decode` reads it
from the bytes the socket received (at most `MAX_SIZE` of them).

Both decoders check the length of the whole packet against one window for every
opcode, and then slice the fields of the opcode the packet names. A PCP MAP
response has 36 bytes of opcode data, and `MapData::decode` checks only that there
are at least that many: the external address, `buf[20..]`, is converted to
`[u8; 16]` with `expect`, which panics on the options a response may carry after
it (`Pcp.Response.pcp_panics_decode_iff`). A NAT-PMP `MapUdp` response is 16 bytes,
but the window starts at the 12 bytes of the other response, and `buf[12..16]`
panics on a shorter one (`NatPmp.Response.natPmp_panics_decode_iff`). What the tests'
encoders write, both decoders read back (`pcp_decode_encode`, `natPmp_decode_encode`). -/

namespace Iroh.Net.Portmapper

open Slice

/-- `RESPONSE_INDICATOR`, ORd into the opcode of a response by both protocols. -/
def responseIndicator : UInt8 := (1 : UInt8) <<< (7 : UInt8)

namespace Pcp

/-- `Version`. -/
inductive Version where
  | pcp
deriving DecidableEq, Repr

def Version.tryFrom : UInt8 → Option Version
  | 2 => some .pcp
  | _ => none

def Version.toU8 : Version → UInt8
  | .pcp => 2

/-- `Opcode`. -/
inductive Opcode where
  | announce
  | map
deriving DecidableEq, Repr

def Opcode.tryFrom : UInt8 → Option Opcode
  | 0 => some .announce
  | 1 => some .map
  | _ => none

def Opcode.toU8 : Opcode → UInt8
  | .announce => 0
  | .map => 1

/-- `MapProtocol`. -/
inductive MapProtocol where
  | udp
deriving DecidableEq, Repr

def MapProtocol.tryFrom : UInt8 → Option MapProtocol
  | 17 => some .udp
  | _ => none

def MapProtocol.toU8 : MapProtocol → UInt8
  | .udp => 17

/-- `InvalidOpcodeData`. -/
structure InvalidOpcodeData where
deriving DecidableEq, Repr

/-- `Ipv6Addr`, by its octets. -/
structure Ipv6Addr where
  octets : Vector UInt8 16
deriving DecidableEq

/-- `MapData`. -/
structure MapData where
  nonce : Vector UInt8 12
  protocol : MapProtocol
  localPort : UInt16
  externalPort : UInt16
  externalAddress : Ipv6Addr
deriving DecidableEq

/-- `OpcodeData`. -/
inductive OpcodeData where
  | announce
  | mapData (mapData : MapData)
deriving DecidableEq

/-- `MapData::ENCODED_SIZE`. -/
def MapData.encodedSize : Nat := 12 + 1 + 3 + 2 + 2 + 16

/-- `MapData::encode`: the reserved bytes `buf[13..16]` stay zero. -/
def MapData.encode (d : MapData) : List UInt8 :=
  d.nonce.toList ++ [d.protocol.toU8, 0, 0, 0] ++ u16ToBeBytes d.localPort ++
    u16ToBeBytes d.externalPort ++ d.externalAddress.octets.toList

/-- `MapData::decode`. -/
def MapData.decode (buf : List UInt8) : Except (Fault InvalidOpcodeData) MapData :=
  if buf.length < MapData.encodedSize then .error (.error ⟨⟩)
  else do
    let nonce ← range buf 0 12 >>= expectArray 12 "slice has the right size"
    let protocol ← orErr (MapProtocol.tryFrom (← index buf 12)) ⟨⟩
    let localPort := u16FromBeBytes (← range buf 16 18 >>= expectArray 2 "slice has the right size")
    let externalPort := u16FromBeBytes (← range buf 18 20 >>= expectArray 2 "slice has the right size")
    let externalAddrBytes ← rangeFrom buf 20 >>= expectArray 16 "buffer size was verified"
    return ⟨nonce, protocol, localPort, externalPort, ⟨externalAddrBytes⟩⟩

def OpcodeData.opcode : OpcodeData → Opcode
  | .announce => .announce
  | .mapData _ => .map

/-- `OpcodeData::encode_into`. -/
def OpcodeData.encodeInto : OpcodeData → List UInt8
  | .announce => []
  | .mapData d => d.encode

/-- `OpcodeData::decode`. -/
def OpcodeData.decode (opcode : Opcode) (buf : List UInt8) : Except (Fault InvalidOpcodeData) OpcodeData :=
  match opcode with
  | .announce => .ok .announce
  | .map => return .mapData (← MapData.decode buf)

/-- `ErrorCode`. -/
inductive ErrorCode where
  | unsuppVersion
  | notAuthorized
  | malformedRequest
  | unsuppOpcode
  | unsuppOption
  | malformedOption
  | networkFailure
  | noResources
  | unsuppProtocol
  | userExQuota
  | cannotProvideExternal
  | addressMismatch
  | excessiveRemotePeers
deriving DecidableEq, Repr

def ErrorCode.tryFrom : UInt8 → Option ErrorCode
  | 1 => some .unsuppVersion
  | 2 => some .notAuthorized
  | 3 => some .malformedRequest
  | 4 => some .unsuppOpcode
  | 5 => some .unsuppOption
  | 6 => some .malformedOption
  | 7 => some .networkFailure
  | 8 => some .noResources
  | 9 => some .unsuppProtocol
  | 10 => some .userExQuota
  | 11 => some .cannotProvideExternal
  | 12 => some .addressMismatch
  | 13 => some .excessiveRemotePeers
  | _ => none

/-- `ResultCode`. -/
inductive ResultCode where
  | success
  | error (e : ErrorCode)
deriving DecidableEq, Repr

/-- `ResultCode::try_from`: `SuccessCode` first, then `ErrorCode`. -/
def ResultCode.tryFrom (value : UInt8) : Option ResultCode :=
  if value = 0 then some .success else (ErrorCode.tryFrom value).map .error

/-- `Response`. -/
structure Response where
  lifetimeSeconds : UInt32
  epochTime : UInt32
  data : OpcodeData
deriving DecidableEq

/-- `DecodeError`. -/
inductive DecodeError where
  | malformed
  | notAResponse
  | invalidOpcode
  | invalidVersion
  | invalidResultCode
  | invalidOpcodeData
deriving DecidableEq, Repr

/-- `Error`. -/
inductive Error where
  | decodeError (e : DecodeError)
  | errorCode (e : ErrorCode)
deriving DecidableEq, Repr

/-- `Response::MAX_SIZE`. -/
def Response.maxSize : Nat := 1100

/-- `Response::MIN_SIZE`. -/
def Response.minSize : Nat := 1 + 1 + 1 + 1 + 4 + 4 + 12

/-- `Response::decode`. -/
def Response.decode (buf : List UInt8) : Except (Fault Error) Response :=
  if buf.length < Response.minSize || buf.length > Response.maxSize then
    .error (.error (.decodeError .malformed))
  else do
    let _version ← orErr (Version.tryFrom (← index buf 0)) (.decodeError .invalidVersion)
    let opcode ← index buf 1
    if opcode &&& responseIndicator != responseIndicator then
      throw (.error (.decodeError .notAResponse))
    else do
      let opcode ← orErr (Opcode.tryFrom (opcode &&& ~~~responseIndicator)) (.decodeError .invalidOpcode)
      match ← orErr (ResultCode.tryFrom (← index buf 3)) (.decodeError .invalidResultCode) with
      | .error errorCode => throw (.error (.errorCode errorCode))
      | .success =>
        let lifetimeSeconds := u32FromBeBytes (← range buf 4 8 >>= expectArray 4 "slice has the right len")
        let epochTime := u32FromBeBytes (← range buf 8 12 >>= expectArray 4 "slice has the right len")
        let data ← mapErr (fun _ => .decodeError .invalidOpcodeData)
          (OpcodeData.decode opcode (← rangeFrom buf 24))
        return ⟨lifetimeSeconds, epochTime, data⟩

/-- `Response::encode` (of the tests): a success, with zeros in the reserved bytes. -/
def Response.encode (r : Response) : List UInt8 :=
  [Version.pcp.toU8, responseIndicator ||| r.data.opcode.toU8, 0, 0] ++
    u32ToBeBytes r.lifetimeSeconds ++ u32ToBeBytes r.epochTime ++
    List.replicate (Response.minSize - 12) 0 ++ r.data.encodeInto

end Pcp

namespace NatPmp

/-- `Version`. -/
inductive Version where
  | natPmp
deriving DecidableEq, Repr

def Version.tryFrom : UInt8 → Option Version
  | 0 => some .natPmp
  | _ => none

def Version.toU8 : Version → UInt8
  | .natPmp => 0

/-- `Opcode`. -/
inductive Opcode where
  | determineExternalAddress
  | mapUdp
deriving DecidableEq, Repr

def Opcode.tryFrom : UInt8 → Option Opcode
  | 0 => some .determineExternalAddress
  | 1 => some .mapUdp
  | _ => none

def Opcode.toU8 : Opcode → UInt8
  | .determineExternalAddress => 0
  | .mapUdp => 1

/-- `MapProtocol`. -/
inductive MapProtocol where
  | udp
deriving DecidableEq, Repr

/-- `Ipv4Addr`, by its octets. -/
structure Ipv4Addr where
  octets : Vector UInt8 4
deriving DecidableEq

/-- `Response`. -/
inductive Response where
  | publicAddress (epochTime : UInt32) (publicIp : Ipv4Addr)
  | portMap (proto : MapProtocol) (epochTime : UInt32) (privatePort externalPort : UInt16)
      (lifetimeSeconds : UInt32)
deriving DecidableEq

/-- `ResultCode`. -/
inductive ResultCode where
  | success
  | unsupportedVersion
  | notAuthorizedOrRefused
  | networkFailure
  | outOfResources
  | unsupportedOpcode
deriving DecidableEq, Repr

def ResultCode.tryFrom : UInt16 → Option ResultCode
  | 0 => some .success
  | 1 => some .unsupportedVersion
  | 2 => some .notAuthorizedOrRefused
  | 3 => some .networkFailure
  | 4 => some .outOfResources
  | 5 => some .unsupportedOpcode
  | _ => none

def ResultCode.toU16 : ResultCode → UInt16
  | .success => 0
  | .unsupportedVersion => 1
  | .notAuthorizedOrRefused => 2
  | .networkFailure => 3
  | .outOfResources => 4
  | .unsupportedOpcode => 5

/-- `Error`. -/
inductive Error where
  | malformed
  | notAResponse
  | invalidOpcode
  | invalidVersion
  | invalidResultCode
  | unsupportedVersion
  | notAuthorizedOrRefused
  | networkFailure
  | outOfResources
  | unsupportedOpcode
deriving DecidableEq, Repr

/-- The `match` on the result code: every code but success is its error. -/
def ResultCode.check : ResultCode → Except (Fault Error) Unit
  | .success => .ok ()
  | .unsupportedVersion => .error (.error .unsupportedVersion)
  | .notAuthorizedOrRefused => .error (.error .notAuthorizedOrRefused)
  | .networkFailure => .error (.error .networkFailure)
  | .outOfResources => .error (.error .outOfResources)
  | .unsupportedOpcode => .error (.error .unsupportedOpcode)

/-- `Response::MIN_SIZE`: a public address response. -/
def Response.minSize : Nat := 1 + 1 + 2 + 4 + 4

/-- `Response::MAX_SIZE`: a mapping response. -/
def Response.maxSize : Nat := 1 + 1 + 2 + 4 + 2 + 2 + 4

/-- `Response::decode`. -/
def Response.decode (buf : List UInt8) : Except (Fault Error) Response :=
  if buf.length < Response.minSize || buf.length > Response.maxSize then .error (.error .malformed)
  else do
    let _ ← orErr (Version.tryFrom (← index buf 0)) .invalidVersion
    let opcode ← index buf 1
    if opcode &&& responseIndicator != responseIndicator then throw (.error .notAResponse)
    else do
      let opcode ← orErr (Opcode.tryFrom (opcode &&& ~~~responseIndicator)) .invalidOpcode
      let resultBytes := u16FromBeBytes (← range buf 2 4 >>= expectArray 2 "slice has the right len")
      let resultCode ← orErr (ResultCode.tryFrom resultBytes) .invalidResultCode
      resultCode.check
      match opcode with
      | .determineExternalAddress =>
        let epochTime := u32FromBeBytes (← range buf 4 8 >>= expectArray 4 "slice has the right len")
        let ipBytes ← range buf 8 12 >>= expectArray 4 "slice has the right len"
        return .publicAddress epochTime ⟨ipBytes⟩
      | .mapUdp =>
        let proto := MapProtocol.udp
        let epochTime := u32FromBeBytes (← range buf 4 8 >>= expectArray 4 "slice has the right len")
        let privatePort := u16FromBeBytes (← range buf 8 10 >>= expectArray 2 "slice has the right len")
        let externalPort := u16FromBeBytes (← range buf 10 12 >>= expectArray 2 "slice has the right len")
        let lifetimeSeconds := u32FromBeBytes (← range buf 12 16 >>= expectArray 4 "slice has the right len")
        return .portMap proto epochTime privatePort externalPort lifetimeSeconds

/-- `Response::encode` (of the tests): a success. -/
def Response.encode : Response → List UInt8
  | .publicAddress epochTime publicIp =>
    [Version.natPmp.toU8, responseIndicator ||| Opcode.determineExternalAddress.toU8] ++
      u16ToBeBytes ResultCode.success.toU16 ++ u32ToBeBytes epochTime ++ publicIp.octets.toList
  | .portMap _ epochTime privatePort externalPort lifetimeSeconds =>
    [Version.natPmp.toU8, responseIndicator ||| Opcode.mapUdp.toU8] ++
      u16ToBeBytes ResultCode.success.toU16 ++ u32ToBeBytes epochTime ++ u16ToBeBytes privatePort ++
      u16ToBeBytes externalPort ++ u32ToBeBytes lifetimeSeconds

end NatPmp

/-! ### The response bit -/

set_option maxRecDepth 4000 in
/-- The opcode byte of a response to opcode `0` or `1` is that opcode with the response
bit set. -/
theorem response_opcode_iff (b k : UInt8) (hk : k < 2) :
    (b &&& responseIndicator = responseIndicator ∧ (b &&& ~~~responseIndicator) = k) ↔
      b = responseIndicator ||| k := by
  have key : ∀ n < 256, ∀ m < 2, (n &&& 128 = 128 ∧ n &&& 127 = m) ↔ n = 128 ||| m := by decide
  have hnot : ~~~responseIndicator = 127 := by decide
  have hri : responseIndicator = 128 := by decide
  have hk' : k.toNat < 2 := UInt8.lt_iff_toNat_lt.mp hk
  rw [hnot, hri, ← UInt8.toNat_inj, ← UInt8.toNat_inj, ← UInt8.toNat_inj, UInt8.toNat_and,
    UInt8.toNat_and, UInt8.toNat_or]
  exact key _ b.toNat_lt _ hk'

/-! ### PCP -/

namespace Pcp

theorem MapProtocol.tryFrom_toU8 (p : MapProtocol) : MapProtocol.tryFrom p.toU8 = some p := by
  cases p
  rfl

theorem MapProtocol.tryFrom_eq_some {b : UInt8} {p : MapProtocol} :
    MapProtocol.tryFrom b = some p ↔ b = 17 := by
  cases p
  unfold MapProtocol.tryFrom
  split <;> simp_all

theorem MapData.decode_of_le {buf : List UInt8} (hlen : 36 ≤ buf.length) :
    MapData.decode buf =
      orErr (MapProtocol.tryFrom buf[12]) ⟨⟩ >>= fun protocol =>
        (expectArray 16 "buffer size was verified" (buf.drop 20)).map fun addr =>
          ⟨⟨(buf.take 12).toArray, by simp; omega⟩, protocol, u16FromBeBytes ⟨((buf.drop 16).take 2).toArray, by simp; omega⟩,
            u16FromBeBytes ⟨((buf.drop 18).take 2).toArray, by simp; omega⟩, ⟨addr⟩⟩ := by
  have hsize : ¬ buf.length < MapData.encodedSize := by simp [MapData.encodedSize]; omega
  rw [MapData.decode, if_neg hsize]
  simp (disch := (try simp only [List.length_take, List.length_drop]); omega) only
    [index_of_lt, range_of_le, rangeFrom_of_le, expectArray_of_length, ok_bind]
  rfl

@[simp] theorem MapData.length_encode (d : MapData) : d.encode.length = MapData.encodedSize := by
  simp [MapData.encode, MapData.encodedSize]

theorem MapData.decode_encode (d : MapData) : MapData.decode d.encode = .ok d := by
  obtain ⟨⟨nonce, hn⟩, protocol, localPort, externalPort, ⟨⟨addr, ha⟩⟩⟩ := d
  rw [MapData.decode_of_le (by simp [MapData.encodedSize])]
  simp [MapData.encode, List.drop_append, hn, ha, List.drop_of_length_le, MapProtocol.tryFrom_toU8,
    orErr, expectArray_of_length, u16FromBeBytes_u16ToBeBytes, Except.map]

theorem MapData.panics_decode_iff (buf : List UInt8) :
    Panics (MapData.decode buf) ↔ MapData.encodedSize < buf.length ∧ buf[12]? = some 17 := by
  by_cases hlen : 36 ≤ buf.length
  · rw [MapData.decode_of_le hlen, List.getElem?_eq_getElem (by omega)]
    cases hp : MapProtocol.tryFrom buf[12] with
    | none =>
      have h17 : buf[12] ≠ 17 := fun h => by simp [h, MapProtocol.tryFrom] at hp
      simp [orErr, h17]
    | some p =>
      have h17 : buf[12] = 17 := MapProtocol.tryFrom_eq_some.mp hp
      simp [orErr, h17, MapData.encodedSize]
      omega
  · have hsize : buf.length < MapData.encodedSize := by simp [MapData.encodedSize]; omega
    simp [MapData.decode, hsize]
    omega


theorem Version.tryFrom_eq_some {b : UInt8} {v : Version} : Version.tryFrom b = some v ↔ b = 2 := by
  cases v
  unfold Version.tryFrom
  split <;> simp_all

theorem Opcode.tryFrom_eq_some {b : UInt8} {op : Opcode} : Opcode.tryFrom b = some op ↔ b = op.toU8 := by
  unfold Opcode.tryFrom
  split <;> cases op <;> simp_all [Opcode.toU8]

theorem Opcode.toU8_lt (op : Opcode) : op.toU8 < 2 := by
  cases op <;> decide

theorem ResultCode.tryFrom_eq_success {b : UInt8} : ResultCode.tryFrom b = some .success ↔ b = 0 := by
  unfold ResultCode.tryFrom
  split <;> simp_all

/-- The checks `Response::decode` makes of the header, in its order: the version, the
response bit, the opcode and the result code. -/
def Response.checkHeader (version opcode resultCode : UInt8) : Except (Fault Error) Opcode := do
  let _version ← orErr (Version.tryFrom version) (.decodeError .invalidVersion)
  if opcode &&& responseIndicator != responseIndicator then throw (.error (.decodeError .notAResponse))
  else do
    let opcode ← orErr (Opcode.tryFrom (opcode &&& ~~~responseIndicator)) (.decodeError .invalidOpcode)
    match ← orErr (ResultCode.tryFrom resultCode) (.decodeError .invalidResultCode) with
    | .error errorCode => throw (.error (.errorCode errorCode))
    | .success => return opcode

/-- Past the length check, `Response::decode` checks the header and decodes the opcode
data from byte 24 on. -/
theorem Response.decode_of_window {buf : List UInt8} (hmin : 24 ≤ buf.length) (hmax : buf.length ≤ 1100) :
    Response.decode buf =
      Response.checkHeader buf[0] buf[1] buf[3] >>= fun opcode =>
        (mapErr (fun _ => .decodeError .invalidOpcodeData) (OpcodeData.decode opcode (buf.drop 24))).map
          fun data => ⟨u32FromBeBytes ⟨((buf.drop 4).take 4).toArray, by simp; omega⟩,
            u32FromBeBytes ⟨((buf.drop 8).take 4).toArray, by simp; omega⟩, data⟩ := by
  have hlo : ¬ buf.length < Response.minSize := by simp only [Response.minSize]; omega
  have hhi : ¬ buf.length > Response.maxSize := by simp only [Response.maxSize]; omega
  rw [Response.decode, if_neg (by simp [hlo, hhi])]
  simp (disch := (try simp only [List.length_take, List.length_drop]); omega) only
    [index_of_lt, range_of_le, rangeFrom_of_le, expectArray_of_length, ok_bind]
  unfold Response.checkHeader
  cases Version.tryFrom buf[0] <;> simp only [orErr, ok_bind, error_bind]
  split
  · rfl
  · cases Opcode.tryFrom (buf[1] &&& ~~~responseIndicator) <;> simp only [ok_bind, error_bind]
    cases ResultCode.tryFrom buf[3] with
    | none => rfl
    | some rc => cases rc <;> rfl

theorem Response.not_panics_checkHeader (version opcode resultCode : UInt8) :
    ¬ Panics (Response.checkHeader version opcode resultCode) := by
  unfold Response.checkHeader
  simp only [panics_bind_iff, not_panics_orErr, false_or, not_exists, not_and]
  intro _ _
  split
  · simp
  · simp only [panics_bind_iff, not_panics_orErr, false_or, not_exists, not_and]
    intro _ _ rc _
    cases rc <;> simp

/-- The header passes for exactly the bytes of a successful response to its opcode. -/
theorem Response.checkHeader_eq_ok {version opcode resultCode : UInt8} {op : Opcode} :
    Response.checkHeader version opcode resultCode = .ok op ↔
      version = Version.pcp.toU8 ∧ opcode = responseIndicator ||| op.toU8 ∧ resultCode = 0 := by
  constructor
  · intro h
    unfold Response.checkHeader at h
    obtain ⟨_, hv, h⟩ := Machine.except_bind_eq_ok.mp h
    split at h
    · cases h
    rename_i hbit
    obtain ⟨op', hop, h⟩ := Machine.except_bind_eq_ok.mp h
    obtain ⟨rc, hrc, h⟩ := Machine.except_bind_eq_ok.mp h
    cases rc with
    | error e => cases h
    | success =>
      cases h
      have hbit' : opcode &&& responseIndicator = responseIndicator := by simpa using hbit
      have hop' := Opcode.tryFrom_eq_some.mp (orErr_eq_ok.mp hop)
      exact ⟨Version.tryFrom_eq_some.mp (orErr_eq_ok.mp hv),
        (response_opcode_iff _ _ (Opcode.toU8_lt op)).mp ⟨hbit', hop'⟩,
        ResultCode.tryFrom_eq_success.mp (orErr_eq_ok.mp hrc)⟩
  · rintro ⟨rfl, rfl, rfl⟩
    obtain ⟨hbit, hop⟩ := (response_opcode_iff (responseIndicator ||| op.toU8) _ (Opcode.toU8_lt op)).mpr rfl
    have hopcode : Opcode.tryFrom op.toU8 = some op := Opcode.tryFrom_eq_some.mpr rfl
    simp [Response.checkHeader, Version.tryFrom, Version.toU8, hbit, hop, hopcode, ResultCode.tryFrom,
      orErr, pure, Except.pure]

theorem OpcodeData.panics_decode_iff (op : Opcode) (buf : List UInt8) :
    Panics (OpcodeData.decode op buf) ↔ op = .map ∧ Panics (MapData.decode buf) := by
  cases op with
  | announce => simp [OpcodeData.decode]
  | map => simp [OpcodeData.decode]

/-- **`Response::decode` panics exactly on a successful MAP response for UDP that carries
more than its MAP data**, within `MAX_SIZE`: the external address is then converted to
`[u8; 16]` from more than 16 bytes. -/
theorem Response.pcp_panics_decode_iff (buf : List UInt8) :
    Panics (Response.decode buf) ↔
      Response.minSize + MapData.encodedSize < buf.length ∧ buf.length ≤ Response.maxSize ∧
        buf[0]? = some 2 ∧ buf[1]? = some 0x81 ∧ buf[3]? = some 0 ∧ buf[36]? = some 17 := by
  by_cases hwin : 24 ≤ buf.length ∧ buf.length ≤ 1100
  · obtain ⟨hmin, hmax⟩ := hwin
    rw [Response.decode_of_window hmin hmax, panics_bind_iff]
    simp only [Response.not_panics_checkHeader, false_or, panics_except_map_iff, panics_mapErr_iff,
      OpcodeData.panics_decode_iff, MapData.panics_decode_iff, Response.checkHeader_eq_ok]
    have hmap : responseIndicator ||| Opcode.map.toU8 = 0x81 := by decide
    rw [List.getElem?_eq_getElem (show 0 < buf.length by omega),
      List.getElem?_eq_getElem (show 1 < buf.length by omega),
      List.getElem?_eq_getElem (show 3 < buf.length by omega), List.getElem?_drop]
    simp only [Option.some.injEq, List.length_drop, Response.minSize, Response.maxSize,
      MapData.encodedSize, Version.toU8]
    constructor
    · rintro ⟨_, ⟨h0, h1, h3⟩, rfl, hlen, h36⟩
      exact ⟨by omega, hmax, h0, hmap ▸ h1, h3, h36⟩
    · rintro ⟨hlen, -, h0, h1, h3, h36⟩
      exact ⟨.map, ⟨h0, hmap ▸ h1, h3⟩, rfl, by omega, h36⟩
  · have hdecode : Response.decode buf = .error (.error (.decodeError .malformed)) := by
      have hout : buf.length < Response.minSize ∨ buf.length > Response.maxSize := by
        simp only [Response.minSize, Response.maxSize]
        omega
      rw [Response.decode, if_pos (by simpa using hout)]
    rw [hdecode]
    simp only [not_panics_error, false_iff, Response.minSize, Response.maxSize, MapData.encodedSize]
    rintro ⟨hlen, hmax, -⟩
    omega

theorem OpcodeData.decode_encode (data : OpcodeData) :
    OpcodeData.decode data.opcode data.encodeInto = .ok data := by
  cases data with
  | announce => rfl
  | mapData d => simp [OpcodeData.decode, OpcodeData.opcode, OpcodeData.encodeInto, MapData.decode_encode]

theorem OpcodeData.length_encodeInto_le (data : OpcodeData) :
    data.encodeInto.length ≤ MapData.encodedSize := by
  cases data <;> simp [OpcodeData.encodeInto]

/-- What the tests' `encode` writes, `decode` reads back. -/
theorem Response.pcp_decode_encode (r : Response) : Response.decode r.encode = .ok r := by
  obtain ⟨lifetimeSeconds, epochTime, data⟩ := r
  have hdata := data.length_encodeInto_le
  have hlen : (Response.encode ⟨lifetimeSeconds, epochTime, data⟩).length = 24 + data.encodeInto.length := by
    simp [Response.encode, Response.minSize]
    omega
  have hheader : Response.checkHeader (Response.encode ⟨lifetimeSeconds, epochTime, data⟩)[0]
      (Response.encode ⟨lifetimeSeconds, epochTime, data⟩)[1]
      (Response.encode ⟨lifetimeSeconds, epochTime, data⟩)[3] = .ok data.opcode :=
    Response.checkHeader_eq_ok.mpr ⟨rfl, rfl, rfl⟩
  rw [Response.decode_of_window (by omega) (by simp [MapData.encodedSize] at hdata; omega), hheader,
    ok_bind]
  simp [Response.encode, Response.minSize, List.drop_append, List.drop_of_length_le,
    OpcodeData.decode_encode, u32FromBeBytes_u32ToBeBytes, Except.map]

end Pcp

/-! ### NAT-PMP -/

namespace NatPmp

theorem Version.tryFrom_eq_some {b : UInt8} {v : Version} : Version.tryFrom b = some v ↔ b = 0 := by
  cases v
  unfold Version.tryFrom
  split <;> simp_all

theorem Opcode.tryFrom_eq_some {b : UInt8} {op : Opcode} : Opcode.tryFrom b = some op ↔ b = op.toU8 := by
  unfold Opcode.tryFrom
  split <;> cases op <;> simp_all [Opcode.toU8]

theorem Opcode.toU8_lt (op : Opcode) : op.toU8 < 2 := by
  cases op <;> decide

theorem ResultCode.tryFrom_eq_success {x : UInt16} : ResultCode.tryFrom x = some .success ↔ x = 0 := by
  unfold ResultCode.tryFrom
  split <;> simp_all

theorem ResultCode.check_eq_ok {rc : ResultCode} {u : Unit} : rc.check = .ok u ↔ rc = .success := by
  cases rc <;> simp [ResultCode.check]

theorem ResultCode.not_panics_check (rc : ResultCode) : ¬ Panics rc.check := by
  cases rc <;> simp [ResultCode.check]

/-- The checks `Response::decode` makes of the header, in its order: the version, the
response bit, the opcode and the result code. -/
def Response.checkHeader (version opcode : UInt8) (resultBytes : UInt16) : Except (Fault Error) Opcode := do
  let _ ← orErr (Version.tryFrom version) .invalidVersion
  if opcode &&& responseIndicator != responseIndicator then throw (.error .notAResponse)
  else do
    let opcode ← orErr (Opcode.tryFrom (opcode &&& ~~~responseIndicator)) .invalidOpcode
    let resultCode ← orErr (ResultCode.tryFrom resultBytes) .invalidResultCode
    resultCode.check
    return opcode

/-- Past the length check, `Response::decode` checks the header and reads the fields of
its opcode; of these only the lifetime of a mapping, `buf[12..16]`, may be out of range. -/
theorem Response.decode_of_window {buf : List UInt8} (hmin : 12 ≤ buf.length) (hmax : buf.length ≤ 16) :
    Response.decode buf =
      Response.checkHeader buf[0] buf[1] (u16FromBeBytes ⟨((buf.drop 2).take 2).toArray, by simp; omega⟩) >>=
        fun opcode => match opcode with
        | .determineExternalAddress =>
          .ok (.publicAddress (u32FromBeBytes ⟨((buf.drop 4).take 4).toArray, by simp; omega⟩)
            ⟨⟨((buf.drop 8).take 4).toArray, by simp; omega⟩⟩)
        | .mapUdp =>
          (range buf 12 16 >>= expectArray 4 "slice has the right len").map fun lifetime =>
            .portMap .udp (u32FromBeBytes ⟨((buf.drop 4).take 4).toArray, by simp; omega⟩)
              (u16FromBeBytes ⟨((buf.drop 8).take 2).toArray, by simp; omega⟩)
              (u16FromBeBytes ⟨((buf.drop 10).take 2).toArray, by simp; omega⟩) (u32FromBeBytes lifetime) := by
  have hlo : ¬ buf.length < Response.minSize := by simp only [Response.minSize]; omega
  have hhi : ¬ buf.length > Response.maxSize := by simp only [Response.maxSize]; omega
  rw [Response.decode, if_neg (by simp [hlo, hhi])]
  simp (disch := (try simp only [List.length_take, List.length_drop]); omega) only
    [index_of_lt, range_of_le, expectArray_of_length, ok_bind]
  unfold Response.checkHeader
  cases Version.tryFrom buf[0] with
  | none => rfl
  | some _ =>
    simp only [orErr, ok_bind]
    split
    · rfl
    · cases Opcode.tryFrom (buf[1] &&& ~~~responseIndicator) with
      | none => rfl
      | some op =>
        simp only [ok_bind]
        cases ResultCode.tryFrom (u16FromBeBytes ⟨((buf.drop 2).take 2).toArray, by simp; omega⟩) with
        | none => rfl
        | some rc => cases rc <;> cases op <;> rfl

theorem Response.not_panics_checkHeader (version opcode : UInt8) (resultBytes : UInt16) :
    ¬ Panics (Response.checkHeader version opcode resultBytes) := by
  unfold Response.checkHeader
  simp only [panics_bind_iff, not_panics_orErr, false_or, not_exists, not_and]
  intro _ _
  split
  · simp
  · simp only [panics_bind_iff, not_panics_orErr, ResultCode.not_panics_check, false_or, not_exists,
      not_and]
    intro _ _ _ _ _ _
    simp

/-- The header passes for exactly the bytes of a successful response to its opcode. -/
theorem Response.checkHeader_eq_ok {version opcode : UInt8} {resultBytes : UInt16} {op : Opcode} :
    Response.checkHeader version opcode resultBytes = .ok op ↔
      version = Version.natPmp.toU8 ∧ opcode = responseIndicator ||| op.toU8 ∧ resultBytes = 0 := by
  constructor
  · intro h
    unfold Response.checkHeader at h
    obtain ⟨_, hv, h⟩ := Machine.except_bind_eq_ok.mp h
    split at h
    · cases h
    rename_i hbit
    obtain ⟨op', hop, h⟩ := Machine.except_bind_eq_ok.mp h
    obtain ⟨rc, hrc, h⟩ := Machine.except_bind_eq_ok.mp h
    obtain ⟨u, hcheck, h⟩ := Machine.except_bind_eq_ok.mp h
    cases h
    have hbit' : opcode &&& responseIndicator = responseIndicator := by simpa using hbit
    have hop' := Opcode.tryFrom_eq_some.mp (orErr_eq_ok.mp hop)
    obtain rfl := ResultCode.check_eq_ok.mp hcheck
    exact ⟨Version.tryFrom_eq_some.mp (orErr_eq_ok.mp hv),
      (response_opcode_iff _ _ (Opcode.toU8_lt op)).mp ⟨hbit', hop'⟩,
      ResultCode.tryFrom_eq_success.mp (orErr_eq_ok.mp hrc)⟩
  · rintro ⟨rfl, rfl, rfl⟩
    obtain ⟨hbit, hop⟩ := (response_opcode_iff (responseIndicator ||| op.toU8) _ (Opcode.toU8_lt op)).mpr rfl
    have hopcode : Opcode.tryFrom op.toU8 = some op := Opcode.tryFrom_eq_some.mpr rfl
    simp [Response.checkHeader, Version.tryFrom, Version.toU8, hbit, hop, hopcode, ResultCode.tryFrom,
      ResultCode.check, orErr, pure, Except.pure]

/-- **`Response::decode` panics exactly on a successful `MapUdp` response of 12 to 15
bytes**: the lifetime, `buf[12..16]`, is then out of range. -/
theorem Response.natPmp_panics_decode_iff (buf : List UInt8) :
    Panics (Response.decode buf) ↔
      Response.minSize ≤ buf.length ∧ buf.length < Response.maxSize ∧
        buf[0]? = some 0 ∧ buf[1]? = some 0x81 ∧ buf[2]? = some 0 ∧ buf[3]? = some 0 := by
  by_cases hwin : 12 ≤ buf.length ∧ buf.length ≤ 16
  · obtain ⟨hmin, hmax⟩ := hwin
    have hpair : (buf.drop 2).take 2 = [buf[2], buf[3]] := by
      rw [List.drop_eq_getElem_cons (by omega), List.drop_eq_getElem_cons (by omega)]
      rfl
    have hmap : responseIndicator ||| Opcode.mapUdp.toU8 = 0x81 := by decide
    rw [Response.decode_of_window hmin hmax, panics_bind_iff]
    simp only [Response.not_panics_checkHeader, false_or, Response.checkHeader_eq_ok, hpair,
      u16FromBeBytes_eq_zero_iff]
    rw [List.getElem?_eq_getElem (show 0 < buf.length by omega),
      List.getElem?_eq_getElem (show 1 < buf.length by omega),
      List.getElem?_eq_getElem (show 2 < buf.length by omega),
      List.getElem?_eq_getElem (show 3 < buf.length by omega)]
    simp only [Option.some.injEq, Response.minSize, Response.maxSize, Version.toU8]
    constructor
    · rintro ⟨op, ⟨h0, h1, h2, h3⟩, hp⟩
      cases op with
      | determineExternalAddress => simp at hp
      | mapUdp =>
        rw [panics_except_map_iff, panics_range_expectArray_iff (show 12 + 4 = 16 from rfl)] at hp
        exact ⟨by omega, by omega, h0, hmap ▸ h1, h2, h3⟩
    · rintro ⟨-, hlen, h0, h1, h2, h3⟩
      refine ⟨.mapUdp, ⟨h0, hmap ▸ h1, h2, h3⟩, ?_⟩
      rw [panics_except_map_iff, panics_range_expectArray_iff (show 12 + 4 = 16 from rfl)]
      omega
  · have hout : buf.length < Response.minSize ∨ buf.length > Response.maxSize := by
      simp only [Response.minSize, Response.maxSize]
      omega
    rw [Response.decode, if_pos (by simpa using hout)]
    simp only [not_panics_error, false_iff, Response.minSize, Response.maxSize]
    rintro ⟨hlen, hmax, -⟩
    omega

/-- What the tests' `encode` writes, `decode` reads back. -/
theorem Response.natPmp_decode_encode (r : Response) : Response.decode r.encode = .ok r := by
  cases r with
  | publicAddress epochTime publicIp =>
    obtain ⟨⟨⟨ip⟩, hip⟩⟩ := publicIp
    have hlen : (Response.encode (.publicAddress epochTime ⟨⟨⟨ip⟩, hip⟩⟩)).length = 12 := by
      simp [Response.encode] at hip ⊢
      omega
    have hheader : Response.checkHeader (Response.encode (.publicAddress epochTime ⟨⟨⟨ip⟩, hip⟩⟩))[0]
        (Response.encode (.publicAddress epochTime ⟨⟨⟨ip⟩, hip⟩⟩))[1]
        (u16FromBeBytes ⟨(((Response.encode (.publicAddress epochTime ⟨⟨⟨ip⟩, hip⟩⟩)).drop 2).take 2).toArray,
          by simp; omega⟩) = .ok .determineExternalAddress := by
      refine Response.checkHeader_eq_ok.mpr ⟨rfl, rfl, ?_⟩
      simp [Response.encode, ResultCode.toU16, List.drop_append, u16FromBeBytes_u16ToBeBytes]
    rw [Response.decode_of_window (by omega) (by omega), hheader, ok_bind]
    simp at hip
    simp [Response.encode, List.drop_append, List.drop_of_length_le, List.take_of_length_le, hip,
      u32FromBeBytes_u32ToBeBytes]
  | portMap proto epochTime privatePort externalPort lifetimeSeconds =>
    have hlen : (Response.encode (.portMap proto epochTime privatePort externalPort lifetimeSeconds)).length = 16 := by
      simp [Response.encode]
    have hheader : Response.checkHeader (Response.encode (.portMap proto epochTime privatePort externalPort lifetimeSeconds))[0]
        (Response.encode (.portMap proto epochTime privatePort externalPort lifetimeSeconds))[1]
        (u16FromBeBytes ⟨(((Response.encode (.portMap proto epochTime privatePort externalPort lifetimeSeconds)).drop 2).take 2).toArray,
          by simp; omega⟩) = .ok .mapUdp := by
      refine Response.checkHeader_eq_ok.mpr ⟨rfl, rfl, ?_⟩
      simp [Response.encode, ResultCode.toU16, List.drop_append, u16FromBeBytes_u16ToBeBytes]
    rw [Response.decode_of_window (by omega) (by omega), hheader, ok_bind]
    cases proto
    simp [Response.encode, List.drop_append, List.drop_of_length_le, List.take_of_length_le, range_of_le,
      expectArray_of_length, u16FromBeBytes_u16ToBeBytes, u32FromBeBytes_u32ToBeBytes, Except.map]

end NatPmp

/-! ### Gateway responses that make the decoders panic -/

/-- A PCP MAP response (zero nonce, ports and address, protocol UDP) followed by one byte
of options. -/
def mapResponseWithOption : List UInt8 :=
  [2, 0x81, 0, 0] ++ List.replicate 32 0 ++ [17] ++ List.replicate 24 0

/-- A NAT-PMP `MapUdp` success response cut after 12 bytes. -/
def shortMapUdpResponse : List UInt8 := [0, 0x81] ++ List.replicate 10 0

theorem decoders_panic_on_gateway_responses :
    Pcp.Response.decode mapResponseWithOption =
        .error (.panic "buffer size was verified: TryFromSliceError(())") ∧
      NatPmp.Response.decode shortMapUdpResponse =
        .error (.panic "range end index 16 out of range for slice of length 12") :=
  ⟨by decide, by decide⟩

end Iroh.Net.Portmapper
