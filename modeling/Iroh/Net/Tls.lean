import Iroh.Lib.Machine

/-! The libp2p TLS certificate (`tls/certificate.rs`) and the rustls verifiers that
bind a connection to a node id (`tls/verifier.rs`).

A certificate is self-signed and carries the libp2p extension: the node's public key
and the node's signature over "libp2p-tls-handshake:" followed by the certificate's
SubjectPublicKeyInfo. `parse` decodes it (`parseUnverified`: one libp2p extension and
no other critical one) and checks it (`P2pCertificate.verify`). The verifiers take one
certificate, compare its node id with the one a client dials, and check the handshake
signature against the certificate's own key and scheme.

DER decoding, the key and signature decoders and the signature checks are outside the
model (`Env`), and so is the clock. `UsesScheme` says which TLS scheme a certificate's
algorithm identifiers name (RFC 8446 §4.2.3); `Binds` is what an accepted handshake
guarantees (`handshake_binds_node_id`). -/

namespace Iroh.Net.Tls

open Machine

/-- An object identifier, by its arcs. -/
abbrev Oid := List Nat

/-- `P2P_EXT_OID`. -/
def p2pExtOid : Oid := [1, 3, 6, 1, 4, 1, 53594, 1, 1]

/-- `P2P_SIGNING_PREFIX`. -/
def p2pSigningPrefix : List UInt8 := "libp2p-tls-handshake:".toUTF8.toList

/-! The identifiers of `oid_registry` that `signature_scheme` compares against. -/

def oidKeyTypeEcPublicKey : Oid := [1, 2, 840, 10045, 2, 1]
def oidEcP256 : Oid := [1, 2, 840, 10045, 3, 1, 7]
def oidNistEcP384 : Oid := [1, 3, 132, 0, 34]
def oidNistEcP521 : Oid := [1, 3, 132, 0, 35]
def oidSigEcdsaWithSha256 : Oid := [1, 2, 840, 10045, 4, 3, 2]
def oidSigEcdsaWithSha384 : Oid := [1, 2, 840, 10045, 4, 3, 3]
def oidSigEcdsaWithSha512 : Oid := [1, 2, 840, 10045, 4, 3, 4]
def oidSigEd25519 : Oid := [1, 3, 101, 112]
def oidSigEd448 : Oid := [1, 3, 101, 113]

/-- The `webpki::Error`s the certificate code returns. -/
inductive WebpkiError where
  | badDer
  | extensionValueInvalid
  | unknownIssuer
  | unsupportedCriticalExtension
  | invalidCertValidity
  | signatureAlgorithmMismatch
  | unsupportedSignatureAlgorithmForPublicKey
  | unsupportedSignatureAlgorithm
  | invalidSignatureForPublicKey
deriving DecidableEq, Repr

/-- `rustls::CertificateError`, as far as the conversions below build it. -/
inductive CertificateError where
  | badEncoding
  | badSignature
  | other (e : WebpkiError)
deriving DecidableEq, Repr

/-- `rustls::PeerMisbehaved`, as far as the verifier reports it. -/
inductive PeerMisbehaved where
  | badCertChainExtensions
deriving DecidableEq, Repr

/-- `rustls::Error`, as far as the verifiers return it. -/
inductive RustlsError where
  | general (message : String)
  | peerMisbehaved (e : PeerMisbehaved)
  | invalidCertificate (e : CertificateError)
deriving DecidableEq, Repr

/-- `rustls::SignatureScheme`. -/
inductive SignatureScheme where
  | rsaPkcs1Sha1
  | ecdsaSha1Legacy
  | rsaPkcs1Sha256
  | ecdsaNistp256Sha256
  | rsaPkcs1Sha384
  | ecdsaNistp384Sha384
  | rsaPkcs1Sha512
  | ecdsaNistp521Sha512
  | rsaPssSha256
  | rsaPssSha384
  | rsaPssSha512
  | ed25519
  | ed448
  | unknown (code : UInt16)
deriving DecidableEq, Repr

/-- The `ring::signature` verification algorithms `public_key` picks. -/
inductive VerificationAlgorithm where
  | ecdsaP256Sha256Asn1
  | ecdsaP384Sha384Asn1
  | ed25519
deriving DecidableEq, Repr

/-! ### The decoded certificate -/

/-- A DER value among an algorithm's parameters. -/
inductive Any where
  | oid (oid : Oid)
  | other (bytes : List UInt8)
deriving DecidableEq, Repr

/-- `Any::as_oid`. -/
def Any.asOid : Any → Option Oid
  | .oid o => some o
  | .other _ => none

/-- `AlgorithmIdentifier`. -/
structure AlgorithmIdentifier where
  algorithm : Oid
  parameters : Option Any
deriving DecidableEq, Repr

/-- `SubjectPublicKeyInfo`: the key's algorithm, the key's bits and the whole DER. -/
structure SubjectPublicKeyInfo where
  algorithm : AlgorithmIdentifier
  subjectPublicKey : List UInt8
  raw : List UInt8
deriving DecidableEq, Repr

/-- `X509Extension`. -/
structure Extension where
  oid : Oid
  critical : Bool
  value : List UInt8
deriving DecidableEq, Repr

/-- `Validity`, in seconds. -/
structure Validity where
  notBefore : Nat
  notAfter : Nat
deriving DecidableEq, Repr

/-- `Validity::is_valid_at`. -/
def Validity.isValidAt (v : Validity) (time : Nat) : Bool :=
  decide (v.notBefore ≤ time) && decide (time ≤ v.notAfter)

/-- `TbsCertificate`, with its DER (`as_ref`). -/
structure TbsCertificate where
  validity : Validity
  subjectPki : SubjectPublicKeyInfo
  extensions : List Extension
  raw : List UInt8
deriving DecidableEq, Repr

/-- `X509Certificate`. -/
structure X509Certificate where
  tbsCertificate : TbsCertificate
  signatureAlgorithm : AlgorithmIdentifier
  signatureValue : List UInt8
deriving DecidableEq, Repr

/-- `SignedKey`, the content of the libp2p extension. -/
structure SignedKey where
  publicKey : List UInt8
  signature : List UInt8
deriving DecidableEq, Repr

/-- What the certificate code takes from outside: the DER decoders, the node key and
signature decoders, the two signature checks and the clock (`ASN1Time::now`). -/
structure Env (K S : Type) where
  fromDer : List UInt8 → Option X509Certificate
  signedKeyFromDer : List UInt8 → Option SignedKey
  publicKeyTryFrom : List UInt8 → Option K
  signatureFromSlice : List UInt8 → Option S
  /-- `PublicKey::verify`, the node key's check. -/
  verifyNodeSignature : K → List UInt8 → S → Bool
  /-- `UnparsedPublicKey::verify`: ring's check under raw key bytes. -/
  verifyRing : VerificationAlgorithm → List UInt8 → List UInt8 → List UInt8 → Bool
  now : Nat

/-- `P2pExtension`. -/
structure P2pExtension (K S : Type) where
  publicKey : K
  signature : S

/-- `P2pCertificate`. -/
structure P2pCertificate (K S : Type) where
  certificate : X509Certificate
  extension : P2pExtension K S

/-- `Option::ok_or`. -/
def okOr {ε α : Type} : Option α → ε → Except ε α
  | some a, _ => .ok a
  | none, e => .error e

@[simp] theorem okOr_eq_ok {ε α : Type} {o : Option α} {e : ε} {a : α} :
    okOr o e = .ok a ↔ o = some a := by
  cases o <;> simp [okOr]

/-! ### Parsing -/

variable {K S : Type} (env : Env K S)

/-- The branch of `parse_unverified` that decodes the libp2p extension. -/
def P2pExtension.fromExtension (ext : Extension) : Except WebpkiError (P2pExtension K S) := do
  let signedKey ← okOr (env.signedKeyFromDer ext.value) .extensionValueInvalid
  let publicKey ← okOr (env.publicKeyTryFrom signedKey.publicKey) .unknownIssuer
  let signature ← okOr (env.signatureFromSlice signedKey.signature) .unknownIssuer
  return ⟨publicKey, signature⟩

/-- The loop of `parse_unverified`, from the libp2p extension found so far. -/
def findExtension : Option (P2pExtension K S) → List Extension →
    Except WebpkiError (Option (P2pExtension K S))
  | found, [] => .ok found
  | found, ext :: exts =>
    if ext.oid = p2pExtOid ∧ found.isSome then .error .badDer
    else if ext.oid = p2pExtOid then do
      let e ← P2pExtension.fromExtension env ext
      findExtension (some e) exts
    -- an extension that is not understood may not be critical
    else if ext.critical then .error .unsupportedCriticalExtension
    else findExtension found exts

/-- `parse_unverified`. -/
def parseUnverified (derInput : List UInt8) : Except WebpkiError (P2pCertificate K S) := do
  let x509 ← okOr (env.fromDer derInput) .badDer
  let libp2pExtension ← findExtension env none x509.tbsCertificate.extensions
  let extension ← okOr libp2pExtension .badDer
  return ⟨x509, extension⟩

/-- `P2pCertificate::peer_id`. -/
def P2pCertificate.peerId (self : P2pCertificate K S) : K := self.extension.publicKey

/-- `P2pCertificate::signature_scheme`. -/
def P2pCertificate.signatureScheme (self : P2pCertificate K S) :
    Except WebpkiError SignatureScheme :=
  let signatureAlgorithm := self.certificate.signatureAlgorithm
  let pkiAlgorithm := self.certificate.tbsCertificate.subjectPki.algorithm
  if pkiAlgorithm.algorithm = oidKeyTypeEcPublicKey then do
    let parameters ← okOr pkiAlgorithm.parameters .badDer
    let signatureParam ← okOr parameters.asOid .badDer
    if signatureParam = oidEcP256 ∧ signatureAlgorithm.algorithm = oidSigEcdsaWithSha256 then
      .ok .ecdsaNistp256Sha256
    else if signatureParam = oidNistEcP384 ∧ signatureAlgorithm.algorithm = oidSigEcdsaWithSha384 then
      .ok .ecdsaNistp384Sha384
    else if signatureParam = oidNistEcP521 ∧ signatureAlgorithm.algorithm = oidSigEcdsaWithSha512 then
      .ok .ecdsaNistp521Sha512
    else .error .unsupportedSignatureAlgorithm
  else if signatureAlgorithm.algorithm = oidSigEd25519 then .ok .ed25519
  else if signatureAlgorithm.algorithm = oidSigEd448 then .ok .ed448
  else .error .unsupportedSignatureAlgorithm

/-- The match of `public_key`: the schemes `ring` verifies. -/
def verificationAlgorithm : SignatureScheme → Except WebpkiError VerificationAlgorithm
  | .ecdsaNistp256Sha256 => .ok .ecdsaP256Sha256Asn1
  | .ecdsaNistp384Sha384 => .ok .ecdsaP384Sha384Asn1
  | .ed25519 => .ok .ed25519
  -- P-521 and Ed448 are not in ring, RSA and SHA-1 are refused
  | _ => .error .unsupportedSignatureAlgorithm

/-- `P2pCertificate::public_key`: an `UnparsedPublicKey`, the algorithm and the key. -/
def P2pCertificate.publicKey (self : P2pCertificate K S) (signatureScheme : SignatureScheme) :
    Except WebpkiError (VerificationAlgorithm × List UInt8) := do
  let currentSignatureScheme ← self.signatureScheme
  if signatureScheme ≠ currentSignatureScheme then
    .error .unsupportedSignatureAlgorithmForPublicKey
  else do
    let algorithm ← verificationAlgorithm signatureScheme
    return (algorithm, self.certificate.tbsCertificate.subjectPki.subjectPublicKey)

/-- `P2pCertificate::verify_signature`. -/
def P2pCertificate.verifySignature (self : P2pCertificate K S) (signatureScheme : SignatureScheme)
    (message signature : List UInt8) : Except WebpkiError Unit := do
  let pk ← self.publicKey signatureScheme
  if env.verifyRing pk.1 pk.2 message signature then return ()
  else throw .invalidSignatureForPublicKey

/-- `P2pCertificate::verify`. -/
def P2pCertificate.verify (self : P2pCertificate K S) : Except WebpkiError Unit :=
  if !self.certificate.tbsCertificate.validity.isValidAt env.now then .error .invalidCertValidity
  else do
    let signatureScheme ← self.signatureScheme
    let rawCertificate := self.certificate.tbsCertificate.raw
    let signature := self.certificate.signatureValue
    (self.verifySignature env signatureScheme rawCertificate signature).mapError
      fun _ => .signatureAlgorithmMismatch
    let msg := p2pSigningPrefix ++ self.certificate.tbsCertificate.subjectPki.raw
    if env.verifyNodeSignature self.extension.publicKey msg self.extension.signature then .ok ()
    else .error .unknownIssuer

/-- `certificate::parse`. -/
def parse (certificate : List UInt8) : Except WebpkiError (P2pCertificate K S) := do
  let certificate ← parseUnverified env certificate
  certificate.verify env
  return certificate

/-! ### The verifiers -/

/-- `From<ParseError> for rustls::Error`. -/
def rustlsErrorOfParseError : WebpkiError → RustlsError
  | .badDer => .invalidCertificate .badEncoding
  | e => .invalidCertificate (.other e)

/-- `From<VerificationError> for rustls::Error`. -/
def rustlsErrorOfVerificationError : WebpkiError → RustlsError
  | .invalidSignatureForPublicKey => .invalidCertificate .badSignature
  | .unsupportedSignatureAlgorithm => .invalidCertificate .badSignature
  | .unsupportedSignatureAlgorithmForPublicKey => .invalidCertificate .badSignature
  | e => .invalidCertificate (.other e)

/-- `Libp2pCertificateVerifier`. -/
structure Libp2pCertificateVerifier (K : Type) where
  remotePeerId : Option K

/-- `verify_presented_certs`. -/
def verifyPresentedCerts (endEntity : List UInt8) (intermediates : List (List UInt8)) :
    Except RustlsError K :=
  if !intermediates.isEmpty then .error (.general "libp2p-tls requires exactly one certificate")
  else do
    let cert ← (parse env endEntity).mapError rustlsErrorOfParseError
    return cert.peerId

/-- `ServerCertVerifier::verify_server_cert`, on the client. -/
def Libp2pCertificateVerifier.verifyServerCert [DecidableEq K] (self : Libp2pCertificateVerifier K)
    (endEntity : List UInt8) (intermediates : List (List UInt8)) : Except RustlsError Unit := do
  let peerId ← verifyPresentedCerts env endEntity intermediates
  match self.remotePeerId with
  | some remotePeerId =>
    if remotePeerId ≠ peerId then .error (.peerMisbehaved .badCertChainExtensions) else .ok ()
  | none => .ok ()

/-- `ClientCertVerifier::verify_client_cert`, on the server: whatever node connects. -/
def verifyClientCert (endEntity : List UInt8) (intermediates : List (List UInt8)) :
    Except RustlsError Unit := do
  let _ ← verifyPresentedCerts env endEntity intermediates

/-- `verify_tls13_signature`, which both verifiers call with the scheme and the signature of
the handshake's `DigitallySignedStruct`. -/
def verifyTls13Signature (cert : List UInt8) (signatureScheme : SignatureScheme)
    (message signature : List UInt8) : Except RustlsError Unit := do
  let c ← (parse env cert).mapError rustlsErrorOfParseError
  (c.verifySignature env signatureScheme message signature).mapError rustlsErrorOfVerificationError

/-- How `get_remote_node_id` fails: a message of its own, or the certificate's. -/
inductive NodeIdError where
  | bail (message : String)
  | parse (e : WebpkiError)
deriving DecidableEq, Repr

/-- `get_remote_node_id` (`endpoint.rs`), on the certificates the connection's peer
presented. -/
def getRemoteNodeId : Option (List (List UInt8)) → Except NodeIdError K
  | none => .error (.bail "no peer certificate found")
  | some [cert] => ((parse env cert).mapError .parse).map P2pCertificate.peerId
  | some certs =>
    .error (.bail ("expected a single peer certificate, but " ++ toString certs.length ++ " found"))

/-! ### What each step checks -/

theorem fromExtension_eq_ok {ext : Extension} {e : P2pExtension K S} :
    P2pExtension.fromExtension env ext = .ok e ↔ ∃ sk, env.signedKeyFromDer ext.value = some sk ∧
      env.publicKeyTryFrom sk.publicKey = some e.publicKey ∧
      env.signatureFromSlice sk.signature = some e.signature := by
  cases e
  simp [P2pExtension.fromExtension, except_bind_eq_ok, pure, Except.pure]

/-- Once the libp2p extension is found, every later extension is another one, and not
critical. -/
theorem findExtension_some {f : P2pExtension K S} {exts : List Extension}
    {r : Option (P2pExtension K S)} (h : findExtension env (some f) exts = .ok r) :
    r = some f ∧ ∀ x ∈ exts, x.oid ≠ p2pExtOid ∧ x.critical = false := by
  induction exts with
  | nil =>
    cases h
    simp
  | cons ext exts ih =>
    simp only [findExtension, Option.isSome_some, and_true] at h
    split at h
    · cases h
    · rename_i hoid
      split at h
      · cases h
      · rename_i hcrit
        obtain ⟨rfl, hrest⟩ := ih h
        simpa [hoid, hcrit] using hrest

/-- The loop accepts a list with the libp2p extension exactly once, decoded, and no other
critical extension. -/
theorem findExtension_none {exts : List Extension} {e : P2pExtension K S}
    (h : findExtension env none exts = .ok (some e)) :
    exts.countP (fun x => x.oid = p2pExtOid) = 1 ∧
      (∀ x ∈ exts, x.oid ≠ p2pExtOid → x.critical = false) ∧
      ∃ x ∈ exts, x.oid = p2pExtOid ∧ P2pExtension.fromExtension env x = .ok e := by
  induction exts with
  | nil => cases h
  | cons ext exts ih =>
    simp only [findExtension, Option.isSome_none, Bool.false_eq_true, and_false, if_false] at h
    split at h
    · -- the first libp2p extension: the rest holds no other and nothing critical
      rename_i hoid
      obtain ⟨e', he', hrest⟩ := except_bind_eq_ok.mp h
      obtain ⟨hsome, hothers⟩ := findExtension_some env hrest
      obtain rfl : e = e' := Option.some.inj hsome
      have hzero : exts.countP (fun x => x.oid = p2pExtOid) = 0 :=
        List.countP_eq_zero.mpr fun x hx => by simpa using (hothers x hx).1
      refine ⟨by simp [hzero, hoid], ?_, ext, List.mem_cons_self, hoid, he'⟩
      intro x hx hne
      rcases List.mem_cons.mp hx with rfl | hx
      · exact absurd hoid hne
      · exact (hothers x hx).2
    · rename_i hoid
      split at h
      · cases h
      · rename_i hcrit
        obtain ⟨hcount, hcrits, x, hx, hxoid, hxe⟩ := ih h
        refine ⟨by simp [hcount, hoid], ?_, x, List.mem_cons_of_mem _ hx, hxoid, hxe⟩
        intro y hy hne
        rcases List.mem_cons.mp hy with rfl | hy
        · simpa using hcrit
        · exact hcrits y hy hne

theorem parseUnverified_eq_ok {derInput : List UInt8} {c : P2pCertificate K S} :
    parseUnverified env derInput = .ok c ↔ env.fromDer derInput = some c.certificate ∧
      findExtension env none c.certificate.tbsCertificate.extensions = .ok (some c.extension) := by
  cases c
  simp [parseUnverified, except_bind_eq_ok, pure, Except.pure]

/-- The TLS scheme that a certificate's algorithm identifiers name, among those `ring`
verifies, with the algorithm that checks it (RFC 8446 §4.2.3): an EC key on P-256 or
P-384 signed with ECDSA and the hash of its size, or an Ed25519 signature by a key that
is not an EC key. -/
inductive UsesScheme (x : X509Certificate) : SignatureScheme → VerificationAlgorithm → Prop
  | p256 : x.tbsCertificate.subjectPki.algorithm.algorithm = oidKeyTypeEcPublicKey →
      x.tbsCertificate.subjectPki.algorithm.parameters = some (.oid oidEcP256) →
      x.signatureAlgorithm.algorithm = oidSigEcdsaWithSha256 →
      UsesScheme x .ecdsaNistp256Sha256 .ecdsaP256Sha256Asn1
  | p384 : x.tbsCertificate.subjectPki.algorithm.algorithm = oidKeyTypeEcPublicKey →
      x.tbsCertificate.subjectPki.algorithm.parameters = some (.oid oidNistEcP384) →
      x.signatureAlgorithm.algorithm = oidSigEcdsaWithSha384 →
      UsesScheme x .ecdsaNistp384Sha384 .ecdsaP384Sha384Asn1
  | ed25519 : x.tbsCertificate.subjectPki.algorithm.algorithm ≠ oidKeyTypeEcPublicKey →
      x.signatureAlgorithm.algorithm = oidSigEd25519 →
      UsesScheme x .ed25519 .ed25519

/-- A scheme names one algorithm. -/
theorem UsesScheme.unique {x : X509Certificate} {s : SignatureScheme} {alg alg' : VerificationAlgorithm}
    (h : UsesScheme x s alg) (h' : UsesScheme x s alg') : alg = alg' := by
  cases h <;> cases h' <;> rfl

theorem Any.eq_oid_of_asOid {a : Any} {o : Oid} (h : a.asOid = some o) : a = .oid o := by
  cases a <;> simp_all [Any.asOid]

/-- A scheme that `signature_scheme` reads off the certificate and `ring` verifies is the
one its algorithm identifiers name. -/
theorem usesScheme_of_signatureScheme {c : P2pCertificate K S} {s : SignatureScheme}
    {alg : VerificationAlgorithm} (hs : c.signatureScheme = .ok s)
    (halg : verificationAlgorithm s = .ok alg) : UsesScheme c.certificate s alg := by
  dsimp only [P2pCertificate.signatureScheme] at hs
  split at hs
  · -- an EC key: the named curve decides, with the matching hash
    rename_i hec
    obtain ⟨p, hp, hs⟩ := except_bind_eq_ok.mp hs
    obtain ⟨o, ho, hs⟩ := except_bind_eq_ok.mp hs
    have hparam := Any.eq_oid_of_asOid (okOr_eq_ok.mp ho)
    rw [okOr_eq_ok] at hp
    split at hs
    · rename_i h
      cases hs
      cases halg
      exact .p256 hec (by rw [hp, hparam, h.1]) h.2
    · split at hs
      · rename_i _ h
        cases hs
        cases halg
        exact .p384 hec (by rw [hp, hparam, h.1]) h.2
      · split at hs
        · cases hs
          cases halg
        · cases hs
  · rename_i hec
    split at hs
    · rename_i h
      cases hs
      cases halg
      exact .ed25519 hec h
    · split at hs
      · cases hs
        cases halg
      · cases hs

theorem publicKey_eq_ok {c : P2pCertificate K S} {s : SignatureScheme}
    {pk : VerificationAlgorithm × List UInt8} (h : c.publicKey s = .ok pk) :
    UsesScheme c.certificate s pk.1 ∧ c.signatureScheme = .ok s ∧
      pk.2 = c.certificate.tbsCertificate.subjectPki.subjectPublicKey := by
  obtain ⟨current, hcurrent, h⟩ := except_bind_eq_ok.mp h
  split at h
  · cases h
  rename_i hsame
  obtain rfl : s = current := not_not.mp hsame
  obtain ⟨alg, halg, h⟩ := except_bind_eq_ok.mp h
  cases h
  exact ⟨usesScheme_of_signatureScheme hcurrent halg, hcurrent, rfl⟩

/-- A signature that `verify_signature` accepts checks under the certificate's key, with
its own scheme. -/
theorem verifySignature_eq_ok {c : P2pCertificate K S} {s : SignatureScheme}
    {message signature : List UInt8} (h : c.verifySignature env s message signature = .ok ()) :
    c.signatureScheme = .ok s ∧ ∃ alg, UsesScheme c.certificate s alg ∧
      env.verifyRing alg c.certificate.tbsCertificate.subjectPki.subjectPublicKey message
        signature = true := by
  obtain ⟨pk, hpk, h⟩ := except_bind_eq_ok.mp h
  obtain ⟨huses, hscheme, hkey⟩ := publicKey_eq_ok hpk
  refine ⟨hscheme, pk.1, huses, ?_⟩
  rw [← hkey]
  split at h
  · assumption
  · cases h

/-- A certificate that `verify` accepts is valid now, signed by its own key with its own
scheme, and its extension's node key signed the certificate's key. -/
theorem verify_eq_ok {c : P2pCertificate K S} (h : c.verify env = .ok ()) :
    c.certificate.tbsCertificate.validity.isValidAt env.now = true ∧
      (∃ s alg, c.signatureScheme = .ok s ∧ UsesScheme c.certificate s alg ∧
        env.verifyRing alg c.certificate.tbsCertificate.subjectPki.subjectPublicKey
          c.certificate.tbsCertificate.raw c.certificate.signatureValue = true) ∧
      env.verifyNodeSignature c.extension.publicKey
        (p2pSigningPrefix ++ c.certificate.tbsCertificate.subjectPki.raw) c.extension.signature = true := by
  unfold P2pCertificate.verify at h
  split at h
  · cases h
  rename_i hvalid
  obtain ⟨s, hs, h⟩ := except_bind_eq_ok.mp h
  obtain ⟨u, hself, h⟩ := except_bind_eq_ok.mp h
  obtain ⟨_, alg, huses, hring⟩ := verifySignature_eq_ok env (mapError_eq_ok.mp hself)
  refine ⟨by simpa using hvalid, ⟨s, alg, hs, huses, hring⟩, ?_⟩
  dsimp only at h
  split at h
  · assumption
  · cases h

theorem parse_eq_ok {certificate : List UInt8} {c : P2pCertificate K S}
    (h : parse env certificate = .ok c) :
    parseUnverified env certificate = .ok c ∧ c.verify env = .ok () := by
  obtain ⟨c', hc', h⟩ := except_bind_eq_ok.mp h
  obtain ⟨u, hverify, h⟩ := except_bind_eq_ok.mp h
  cases h
  exact ⟨hc', hverify⟩

/-! ### What an accepted handshake binds -/

/-- What a certificate `x` accepted with the handshake signature `g` over `m` in scheme `s`
guarantees about node `n`. The libp2p extension is there exactly once and decodes to `n`
and `n`'s signature over the prefix and the certificate's SubjectPublicKeyInfo; no other
extension is critical; the certificate is valid now and self-signed; and `g` checks under
the certificate's key with the scheme the certificate names, one of those `UsesScheme`
allows. -/
structure Binds (x : X509Certificate) (n : K) (s : SignatureScheme) (m g : List UInt8) : Prop where
  oneExtension : x.tbsCertificate.extensions.countP (fun e => e.oid = p2pExtOid) = 1
  extension : ∃ e ∈ x.tbsCertificate.extensions, e.oid = p2pExtOid ∧ ∃ sk σ,
    env.signedKeyFromDer e.value = some sk ∧ env.publicKeyTryFrom sk.publicKey = some n ∧
    env.signatureFromSlice sk.signature = some σ ∧
    env.verifyNodeSignature n (p2pSigningPrefix ++ x.tbsCertificate.subjectPki.raw) σ = true
  noCritical : ∀ e ∈ x.tbsCertificate.extensions, e.oid ≠ p2pExtOid → e.critical = false
  valid : x.tbsCertificate.validity.isValidAt env.now = true
  signed : ∃ alg, UsesScheme x s alg ∧
    env.verifyRing alg x.tbsCertificate.subjectPki.subjectPublicKey x.tbsCertificate.raw
      x.signatureValue = true ∧
    env.verifyRing alg x.tbsCertificate.subjectPki.subjectPublicKey m g = true

/-- A certificate that `parse` accepts, with a signature it verifies, binds its node id. -/
theorem binds_of_parse {certificate : List UInt8} {c : P2pCertificate K S} {s : SignatureScheme}
    {m g : List UInt8} (hparse : parse env certificate = .ok c)
    (hsig : c.verifySignature env s m g = .ok ()) :
    env.fromDer certificate = some c.certificate ∧ Binds env c.certificate c.peerId s m g := by
  obtain ⟨hunverified, hverify⟩ := parse_eq_ok env hparse
  obtain ⟨hder, hfind⟩ := (parseUnverified_eq_ok env).mp hunverified
  obtain ⟨hone, hcrit, e, he, hoid, hdecode⟩ := findExtension_none env hfind
  obtain ⟨sk, hsk, hkey, hsigma⟩ := (fromExtension_eq_ok env).mp hdecode
  obtain ⟨hvalid, ⟨s', alg', hs', huses', hself⟩, hnode⟩ := verify_eq_ok env hverify
  obtain ⟨hs, alg, huses, hring⟩ := verifySignature_eq_ok env hsig
  obtain rfl : s' = s := Except.ok.inj (hs'.symm.trans hs)
  obtain rfl : alg' = alg := huses'.unique huses
  exact ⟨hder, hone, ⟨e, he, hoid, sk, c.extension.signature, hsk, hkey, hsigma, hnode⟩, hcrit,
    hvalid, alg', huses, hself, hring⟩

theorem verifyPresentedCerts_eq_ok {endEntity : List UInt8} {intermediates : List (List UInt8)}
    {n : K} (h : verifyPresentedCerts env endEntity intermediates = .ok n) :
    intermediates = [] ∧ ∃ c, parse env endEntity = .ok c ∧ c.peerId = n := by
  unfold verifyPresentedCerts at h
  split at h
  · cases h
  rename_i hone
  obtain ⟨c, hc, h⟩ := except_bind_eq_ok.mp h
  cases h
  exact ⟨by simpa using hone, c, mapError_eq_ok.mp hc, rfl⟩

/-- A client that dials `n` accepts only a certificate of node `n`. -/
theorem verifyServerCert_eq_ok [DecidableEq K] {verifier : Libp2pCertificateVerifier K} {n : K}
    {endEntity : List UInt8} {intermediates : List (List UInt8)} (hn : verifier.remotePeerId = some n)
    (h : verifier.verifyServerCert env endEntity intermediates = .ok ()) :
    verifyPresentedCerts env endEntity intermediates = .ok n := by
  obtain ⟨peerId, hpeer, h⟩ := except_bind_eq_ok.mp h
  simp only [hn] at h
  split at h
  · cases h
  · rename_i hsame
    rw [hpeer, not_not.mp hsame]

theorem verifyTls13Signature_eq_ok {cert : List UInt8} {s : SignatureScheme} {m g : List UInt8}
    (h : verifyTls13Signature env cert s m g = .ok ()) :
    ∃ c : P2pCertificate K S, parse env cert = .ok c ∧ c.verifySignature env s m g = .ok () := by
  obtain ⟨c, hc, h⟩ := except_bind_eq_ok.mp h
  exact ⟨c, mapError_eq_ok.mp hc, mapError_eq_ok.mp h⟩

theorem getRemoteNodeId_single {cert : List UInt8} :
    getRemoteNodeId env (some [cert]) = ((parse env cert).mapError .parse).map P2pCertificate.peerId :=
  rfl

/-- **A handshake binds the connection to a node id.** On the client, a verifier built for
node `n` that accepts the server's certificates and its handshake signature has seen one
certificate, and it binds `n`. On the server, a verifier that accepts the client's
certificates and signature has seen one certificate, and it binds the node id that
`get_remote_node_id` reads off the connection. -/
theorem handshake_binds_node_id [DecidableEq K] (verifier : Libp2pCertificateVerifier K)
    (c : List UInt8) (intermediates : List (List UInt8)) (s : SignatureScheme) (m g : List UInt8) :
    (∀ n, verifier.remotePeerId = some n →
      verifier.verifyServerCert env c intermediates = .ok () →
      verifyTls13Signature env c s m g = .ok () →
      intermediates = [] ∧ ∃ x, env.fromDer c = some x ∧ Binds env x n s m g) ∧
    (verifyClientCert env c intermediates = .ok () →
      verifyTls13Signature env c s m g = .ok () →
      intermediates = [] ∧ ∃ x, env.fromDer c = some x ∧
        ∃ n, getRemoteNodeId env (some (c :: intermediates)) = .ok n ∧ Binds env x n s m g) := by
  constructor
  · intro n hn hcert hsig
    obtain ⟨hone, p, hp, rfl⟩ := verifyPresentedCerts_eq_ok env (verifyServerCert_eq_ok env hn hcert)
    obtain ⟨p', hp', hsig'⟩ := verifyTls13Signature_eq_ok env hsig
    obtain rfl : p' = p := Except.ok.inj (hp'.symm.trans hp)
    exact ⟨hone, p'.certificate, binds_of_parse env hp' hsig'⟩
  · intro hcert hsig
    obtain ⟨n, hpresented, -⟩ := except_bind_eq_ok.mp hcert
    obtain ⟨hone, p, hp, rfl⟩ := verifyPresentedCerts_eq_ok env hpresented
    obtain ⟨p', hp', hsig'⟩ := verifyTls13Signature_eq_ok env hsig
    obtain rfl : p' = p := Except.ok.inj (hp'.symm.trans hp)
    obtain ⟨hder, hbinds⟩ := binds_of_parse env hp' hsig'
    subst hone
    exact ⟨rfl, p'.certificate, hder, p'.peerId, by simp [getRemoteNodeId_single, hp', Except.map, Except.mapError], hbinds⟩

/-- A certificate of node 1 on an EC P-256 key, valid at time 0. -/
def sampleCertificate : X509Certificate where
  tbsCertificate :=
    { validity := ⟨0, 1⟩
      subjectPki := ⟨⟨oidKeyTypeEcPublicKey, some (.oid oidEcP256)⟩, [], []⟩
      extensions := [⟨p2pExtOid, true, []⟩]
      raw := [] }
  signatureAlgorithm := ⟨oidSigEcdsaWithSha256, none⟩
  signatureValue := []

/-- Decoders that return `sampleCertificate` and node 1, and checks that pass. -/
def sampleEnv : Env Nat Unit where
  fromDer _ := some sampleCertificate
  signedKeyFromDer _ := some ⟨[], []⟩
  publicKeyTryFrom _ := some 1
  signatureFromSlice _ := some ()
  verifyNodeSignature _ _ _ := true
  verifyRing _ _ _ _ := true
  now := 0

theorem handshake_binds_sample :
    (([] : List (List UInt8)) = [] ∧ ∃ x, sampleEnv.fromDer [] = some x ∧
      Binds sampleEnv x 1 .ecdsaNistp256Sha256 [] []) ∧
    (([] : List (List UInt8)) = [] ∧ ∃ x, sampleEnv.fromDer [] = some x ∧
      ∃ n, getRemoteNodeId sampleEnv (some [[]]) = .ok n ∧
        Binds sampleEnv x n .ecdsaNistp256Sha256 [] []) :=
  ⟨(handshake_binds_node_id sampleEnv ⟨some 1⟩ [] [] .ecdsaNistp256Sha256 [] []).1 1 rfl rfl rfl,
    (handshake_binds_node_id sampleEnv ⟨some 1⟩ [] [] .ecdsaNistp256Sha256 [] []).2 rfl rfl⟩

end Iroh.Net.Tls
