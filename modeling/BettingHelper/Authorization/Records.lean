/-
  BettingHelper.Authorization.Records — signed records and the keys that verify them
  (`authorization_semantics.py`): what makes a record valid in itself, whatever it is used for.

  The JSON schema, SHA-256 and the Ed25519 check are parameters. What of a `RevocationRecord`
  the schema says, the results need: it names a content hash, a serial and a key.
-/

import BettingHelper.Hashing.Preimage
import BettingHelper.Lib.DateTime

namespace BettingHelper.Authorization

open BettingHelper.Lib BettingHelper.Lib.Json

inductive PyError where
  | assertion
  | key
  /-- A `ValueError` other than a `CanonicalError`. -/
  | value
  | type
  /-- A `CanonicalError`, with its code. -/
  | canonical (code : String)
  deriving DecidableEq, Repr

structure Host where
  hashing : Hashing.Host
  /-- `registries/canonical-hash-domains.v1.json` -/
  registryBytes : List UInt8
  sha256 : List UInt8 → BitVec 256
  /-- The schema of authorization records has no error. -/
  schemaValid : Doc → Bool
  /-- Ed25519: the public key, the signature and the message. -/
  verify : List UInt8 → List UInt8 → List UInt8 → Bool
  schema_revocation : ∀ r, schemaValid r = true → dictGet r "record_type" = str "RevocationRecord" →
    ∀ k ∈ ["revoked_content_hash", "revoked_serial", "revoked_key_id"], ∃ t, item r k = some (.str t)

/-- Python's `==`. -/
def Host.eq (h : Host) (v w : Doc) : Bool := equal h.hashing.whole v w

/-- `v[k]` -/
def getItem (v : Doc) (k : String) : Except PyError Doc :=
  match v with
  | .obj _ => match item v k with
    | some x => .ok x
    | none => .error .key
  | _ => .error .type

def asString : Doc → Except PyError Text
  | .str s => .ok s
  | _ => .error .assertion

def asObject : Doc → Except PyError Doc
  | .obj l => .ok (.obj l)
  | _ => .error .assertion

def asList : Doc → Except PyError (List Doc)
  | .arr l => .ok l
  | _ => .error .assertion

/-- `_instant`, of a `date-time`. -/
def instantOf (v : Doc) : Except PyError Int := do
  let t ← asString v
  require (t.getLast? = some 'Z'.toNat) .assertion
  match DateTime.instant (String.ofList (t.map Char.ofNat)) with
  | some i => .ok i
  | none => .error .value

/-! ## Hashes and signatures -/

def hashError : Hashing.HashError → PyError
  | .canonical .malformedUtf8OrJson => .canonical "MALFORMED_UTF8_OR_JSON"
  | .canonical .duplicateJsonKey => .canonical "DUPLICATE_JSON_KEY"
  | .canonical .nonNfcOrInvalidUnicode => .canonical "NON_NFC_OR_INVALID_UNICODE"
  | .schemaInvalid => .canonical "SCHEMA_INVALID"
  | .unsupportedVersionOrAlgorithm => .canonical "UNSUPPORTED_VERSION_OR_ALGORITHM"
  | .unregisteredHashExclusion => .canonical "UNREGISTERED_HASH_EXCLUSION"
  | .schemaInvalidBeforeCanonicalHash => .canonical "SCHEMA_INVALID_BEFORE_CANONICAL_HASH"
  | .other => .value

/-- `canonical_content_hash` -/
def contentHash (h : Host) (recordType : Text) (record : Doc) : Except PyError Text :=
  match Hashing.canonicalPreimage h.hashing h.registryBytes recordType record with
  | .ok b => .ok (text (hex (h.sha256 b)))
  | .error e => .error (hashError e)

/-- `bytes.fromhex` -/
def fromHex : Text → Option (List UInt8)
  | [] => some []
  | c :: r =>
    if isBlank c || c = 0x0b || c = 0x0c then fromHex r
    else
      match r with
      | [] => none
      | d :: q => do
        let x ← hexDigit c
        let y ← hexDigit d
        let l ← fromHex q
        some (UInt8.ofNat (16 * x + y) :: l)

def signatureDomain : List UInt8 := encode (text "HYBRID-DISCOVERY/v6.2/SIGNATURE/Ed25519/v1") ++ [0]

/-- `_signature_is_valid` -/
def signatureIsValid (h : Host) (record : Doc) (publicKey : List UInt8) : Except PyError Bool := do
  let signature ← getItem record "signature"
  let s ← asString signature
  match Base64.decode s with
  | none => .ok false
  | some signature =>
    if signature.length ≠ 64 then .ok false
    else do
      let digest ← getItem record "content_hash"
      let d ← asString digest
      match fromHex d with
      | none => .ok false
      | some contentHash => .ok (h.verify publicKey signature (signatureDomain ++ contentHash))

/-! ## Keys -/

structure VerifierKey where
  publicKey : List UInt8
  issuers : List Text
  roles : List Text
  audiences : List Text
  validFrom : Int
  validUntil : Int
  active : Bool
  testOnly : Bool

/-- The keys by their identifiers. -/
abbrev Keys := List (Text × VerifierKey)

def testTrustMode : Text := text "RFC8032_TEST_KEY_TEMPORARILY_TRUSTED_FOR_MECHANISM_TEST_ONLY"

def activeTrustMode : Text := text "ACTIVE_TRUST_ROOT"

def allowedRoles : List (String × List String) :=
  [("GateReceipt", ["PACK_REVIEWER"]), ("DiscoveryRunAuthorization", ["DISCOVERY_OPERATOR"]),
    ("BodyClassApproval", ["DISCOVERY_OPERATOR"]), ("ProviderProbeProtocol", ["PACK_REVIEWER", "PROVIDER_OPERATOR"]),
    ("ProviderCallAuthorization", ["PROVIDER_OPERATOR"]), ("RevocationRecord", ["REVOCATION_AUTHORITY"])]

def expectedAudience : List (String × String) :=
  [("GateReceipt", "hybrid-discovery:bootstrap-gate:v1"),
    ("DiscoveryRunAuthorization", "hybrid-discovery:extension-run-controller:v1"),
    ("BodyClassApproval", "hybrid-discovery:body-broker:v1"), ("ProviderProbeProtocol", "hybrid-discovery:provider-protocol:v1"),
    ("ProviderCallAuthorization", "hybrid-discovery:provider-client:v1"),
    ("RevocationRecord", "hybrid-discovery:revocation-ledger:v1")]

/-- `ALLOWED_ROLES.get(record_type)` -/
def rolesOf (recordType : Text) : Option (List Text) :=
  (allowedRoles.find? fun a => text a.1 = recordType).map fun a => a.2.map text

/-- `EXPECTED_AUDIENCE.get(record_type)` -/
def audienceOf (recordType : Text) : Option Text := (expectedAudience.find? fun a => text a.1 = recordType).map fun a => text a.2

def trustedBy (trustMode : Text) (key : VerifierKey) : Bool :=
  (trustMode = testTrustMode && key.testOnly) || (trustMode = activeTrustMode && key.active)

/-- `_issuance_order_is_valid` -/
def issuanceOrderIsValid (record : Doc) : Except PyError Bool := do
  let i ← getItem record "issued_at"
  let issued ← instantOf i
  let n ← getItem record "not_before"
  let notBefore ← instantOf n
  let e ← getItem record "expires_at"
  let expires ← instantOf e
  return issued ≤ notBefore && notBefore < expires

/-! ## Records valid in themselves -/

/-- What `_record_mechanism_valid` reads under its `try`. -/
structure Mechanism where
  recordType : Text
  digest : Text
  key : Option VerifierKey
  issued : Int
  role : Text
  audience : Text

def readMechanism (h : Host) (keys : Keys) (record : Doc) : Except PyError Mechanism := do
  let t ← getItem record "record_type"
  let recordType ← asString t
  let digest ← contentHash h recordType record
  let k ← getItem record "issuer_key_id"
  let keyId ← asString k
  let i ← getItem record "issued_at"
  let issued ← instantOf i
  let r ← getItem record "issuer_role"
  let role ← asString r
  let a ← getItem record "audience"
  let audience ← asString a
  return ⟨recordType, digest, keys.lookup keyId, issued, role, audience⟩

/-- The errors `_record_mechanism_valid` catches. -/
def PyError.caught : PyError → Bool
  | .type => false
  | _ => true

/-- `_record_mechanism_valid` -/
def recordMechanismValid (h : Host) (trustMode : Text) (keys : Keys) (record : Doc) : Except PyError Bool :=
  if !h.schemaValid record then .ok false
  else
    match readMechanism h keys record with
    | .error e => if e.caught then .ok false else .error e
    | .ok m =>
      match m.key with
      | none => .ok false
      | some key =>
        if trustedBy trustMode key && dictGet record "content_hash" = .str m.digest &&
            ((rolesOf m.recordType).getD []).contains m.role && key.roles.contains m.role &&
            key.issuers.any (fun i => dictGet record "issuer" = .str i) && key.audiences.contains m.audience &&
            audienceOf m.recordType = some m.audience && key.validFrom ≤ m.issued && m.issued ≤ key.validUntil then do
          let ordered ← issuanceOrderIsValid record
          if ordered then signatureIsValid h record key.publicKey else .ok false
        else .ok false

/-! ## What a result tells -/

theorem getItem_ok {v x : Doc} {k : String} (hx : getItem v k = .ok x) : item v k = some x := by
  cases v with
  | obj l =>
    rw [getItem] at hx
    cases hi : item (.obj l : Doc) k with
    | none =>
      rw [hi] at hx
      cases hx
    | some y =>
      rw [hi] at hx
      cases hx
      rfl
  | _ => cases hx

theorem getItem_get {v x : Doc} {k : String} (hx : getItem v k = .ok x) : dictGet v k = x := by
  rw [dictGet, getItem_ok hx]
  rfl

theorem asString_ok {v : Doc} {t : Text} (ht : asString v = .ok t) : v = .str t := by
  cases v with
  | str s =>
    cases ht
    rfl
  | _ => cases ht

theorem asList_ok {v : Doc} {l : List Doc} (hl : asList v = .ok l) : v = .arr l := by
  cases v with
  | arr s =>
    cases hl
    rfl
  | _ => cases hl

theorem asObject_ok {v w : Doc} (hw : asObject v = .ok w) : w = v ∧ ∃ l, v = .obj l := by
  cases v with
  | obj l =>
    cases hw
    exact ⟨rfl, l, rfl⟩
  | _ => cases hw

theorem item_of_get {v : Doc} {k : String} {t : Text} (hv : dictGet v k = .str t) : item v k = some (.str t) := by
  rw [dictGet] at hv
  cases hi : item v k with
  | none =>
    rw [hi] at hv
    cases hv
  | some x =>
    rw [hi] at hv
    exact congrArg some hv

theorem object_of_item {v x : Doc} {k : String} (hv : item v k = some x) : ∃ l, v = .obj l := by
  cases v with
  | obj l => exact ⟨l, rfl⟩
  | _ => cases hv

theorem getItem_of_item {v x : Doc} {k : String} (hv : item v k = some x) : getItem v k = .ok x := by
  obtain ⟨l, rfl⟩ := object_of_item hv
  simp only [getItem, hv]

theorem contentHash_ok {h : Host} {recordType : Text} {r : Doc} {b : List UInt8}
    (hb : Hashing.canonicalPreimage h.hashing h.registryBytes recordType r = .ok b) :
    contentHash h recordType r = .ok (text (hex (h.sha256 b))) := by simp only [contentHash, hb]

theorem mechanism_ok {h : Host} {trustMode : Text} {keys : Keys} {r : Doc} {m : Mechanism} {key : VerifierKey}
    (hschema : h.schemaValid r = true) (hread : readMechanism h keys r = .ok m) (hkey : m.key = some key)
    (htrusted : trustedBy trustMode key = true) (hdigest : dictGet r "content_hash" = .str m.digest)
    (hrole : ((rolesOf m.recordType).getD []).contains m.role = true) (hkeyRole : key.roles.contains m.role = true)
    (hissuer : key.issuers.any (fun i => dictGet r "issuer" = .str i) = true) (haudience : key.audiences.contains m.audience = true)
    (hexpected : audienceOf m.recordType = some m.audience) (hfrom : key.validFrom ≤ m.issued) (huntil : m.issued ≤ key.validUntil)
    (hordered : issuanceOrderIsValid r = .ok true) :
    recordMechanismValid h trustMode keys r = signatureIsValid h r key.publicKey := by
  simp only [recordMechanismValid, hschema, hread, hkey, htrusted, hdigest, hrole, hkeyRole, hissuer, haudience, hexpected, hfrom, huntil,
    hordered, Bool.not_true, Bool.false_eq_true, if_false, decide_true, Bool.and_self, if_true, bind, Except.bind]

end BettingHelper.Authorization
