/-
  BettingHelper.Authorization.Evaluate — the evaluation of a signed record against its reference
  and the state it is used in (`_evaluate_record`): every check adds its faults, and the result
  is the first fault in the order of precedence, or none.

  What the checks of the consumption ledger keep over a history of evaluations is in
  `Authorization.Consumption`.
-/

import BettingHelper.Authorization.Revocation

namespace BettingHelper.Authorization

open BettingHelper.Lib BettingHelper.Lib.Json

/-! ## Faults -/

inductive Fault where
  | malformedUtf8OrJson
  | duplicateJsonKey
  | schemaInvalid
  | nonNfcOrInvalidUnicode
  | unsupportedVersionOrAlgorithm
  | contentHashMismatch
  | untrustedKeyId
  | keyRoleOrIssuanceInvalid
  | signatureInvalid
  | packHashMismatch
  | baselineMismatch
  | buildHashMismatch
  | audienceMismatch
  | revoked
  | clockUntrusted
  | notYetValid
  | expired
  | prerequisiteGateInvalid
  | scopeBindingMismatch
  | consumptionStoreUnavailable
  | alreadyConsumed
  | serialConflict
  | localStateConflict
  deriving DecidableEq

def Fault.code : Fault → String
  | malformedUtf8OrJson => "MALFORMED_UTF8_OR_JSON"
  | duplicateJsonKey => "DUPLICATE_JSON_KEY"
  | schemaInvalid => "SCHEMA_INVALID"
  | nonNfcOrInvalidUnicode => "NON_NFC_OR_INVALID_UNICODE"
  | unsupportedVersionOrAlgorithm => "UNSUPPORTED_VERSION_OR_ALGORITHM"
  | contentHashMismatch => "CONTENT_HASH_MISMATCH"
  | untrustedKeyId => "UNTRUSTED_KEY_ID"
  | keyRoleOrIssuanceInvalid => "KEY_ROLE_OR_ISSUANCE_INVALID"
  | signatureInvalid => "SIGNATURE_INVALID"
  | packHashMismatch => "PACK_HASH_MISMATCH"
  | baselineMismatch => "BASELINE_MISMATCH"
  | buildHashMismatch => "BUILD_HASH_MISMATCH"
  | audienceMismatch => "AUDIENCE_MISMATCH"
  | revoked => "REVOKED"
  | clockUntrusted => "CLOCK_UNTRUSTED"
  | notYetValid => "NOT_YET_VALID"
  | expired => "EXPIRED"
  | prerequisiteGateInvalid => "PREREQUISITE_GATE_INVALID"
  | scopeBindingMismatch => "SCOPE_BINDING_MISMATCH"
  | consumptionStoreUnavailable => "CONSUMPTION_STORE_UNAVAILABLE"
  | alreadyConsumed => "ALREADY_CONSUMED"
  | serialConflict => "SERIAL_CONFLICT"
  | localStateConflict => "LOCAL_STATE_CONFLICT"

def failurePrecedence : List Fault :=
  [.malformedUtf8OrJson, .duplicateJsonKey, .schemaInvalid, .nonNfcOrInvalidUnicode, .unsupportedVersionOrAlgorithm,
    .contentHashMismatch, .untrustedKeyId, .keyRoleOrIssuanceInvalid, .signatureInvalid, .packHashMismatch, .baselineMismatch,
    .buildHashMismatch, .audienceMismatch, .revoked, .clockUntrusted, .notYetValid, .expired, .prerequisiteGateInvalid,
    .scopeBindingMismatch, .consumptionStoreUnavailable, .alreadyConsumed, .serialConflict, .localStateConflict]

structure Evaluation where
  /-- None is `VALID`. -/
  result : Option Fault
  faults : List Fault

/-- `_evaluation` -/
def evaluation (faults : List Fault) : Evaluation := ⟨failurePrecedence.find? (· ∈ faults), faults⟩

/-- Every fault counts: none is outside the precedence. -/
theorem evaluation_valid {faults : List Fault} : (evaluation faults).result = none ↔ faults = [] := by
  constructor
  · intro hv
    refine List.eq_nil_iff_forall_not_mem.mpr fun f hf => ?_
    have hp : f ∈ failurePrecedence := by cases f <;> decide
    exact absurd hf (by simpa using List.find?_eq_none.mp hv f hp)
  · rintro rfl
    exact List.find?_eq_none.mpr fun f _ => by simp

/-- The fault of a `CanonicalError`. -/
def canonicalFault (code : String) : Fault := (failurePrecedence.find? (·.code = code)).getD .unsupportedVersionOrAlgorithm

def fault (p : Bool) (f : Fault) : List Fault := if p then [f] else []

theorem fault_nil {p : Bool} {f : Fault} : fault p f = [] ↔ p = false := by cases p <;> simp [fault]

/-! ## What the checks are made of -/

/-- `a or b or …` -/
def anyOf : List (Except PyError Bool) → Except PyError Bool
  | [] => .ok false
  | x :: l => do
    let p ← x
    if p then .ok true else anyOf l

/-- `v.get(k, d)` -/
def getOr (v : Doc) (k : String) (d : Doc) : Doc := (item v k).getD d

/-- `v in s`, of a frozen set of texts. -/
def inSet (v : Doc) (s : List Text) : Except PyError Bool :=
  match v with
  | .str t => .ok (s.contains t)
  | .arr _ => .error .type
  | .obj _ => .error .type
  | _ => .ok false

/-- `int(_as_string(v, …))` -/
def intOf (v : Doc) : Except PyError Int := do
  let s ← asString v
  match sequenceOf (.str s) with
  | some n => .ok n
  | none => .error .value

/-- `list(v)`, where a list is expected. -/
def iterate (v : Doc) : Except PyError (List Doc) :=
  match Hashing.tuple v with
  | .ok l => .ok l
  | .error _ => .error .type

/-- `_overlay_expected` -/
def overlayExpected (expected context : Doc) (mapping : List (String × String)) : Doc :=
  mapping.foldl (fun v m =>
    match v, item context m.2 with
    | .obj l, some x => .obj (update l (text m.1) x)
    | v, _ => v) expected

section Checks

variable (h : Host)

/-- `record[field] != reference[field]` -/
def differs (record reference : Doc) (field : String) : Except PyError Bool := do
  let a ← getItem record field
  let b ← getItem reference field
  return !h.eq a b

/-- A fault for each of the fields that differs. -/
def fieldFaults (record reference : Doc) (f : Fault) : List String → Except PyError (List Fault)
  | [] => .ok []
  | field :: l => do
    let d ← differs h record reference field
    let rest ← fieldFaults record reference f l
    return fault d f ++ rest

/-! ## Key, signature and bindings -/

def keyFaults (trustMode : Text) (keys : Keys) (record reference : Doc) (recordType : Text) : Except PyError (List Fault) := do
  let k ← getItem record "issuer_key_id"
  let keyId ← asString k
  let key := keys.lookup keyId
  let mode := fault (!(trustMode = testTrustMode || trustMode = activeTrustMode)) .keyRoleOrIssuanceInvalid
  let trusted := fault (!(key.any (trustedBy trustMode))) .untrustedKeyId
  match rolesOf recordType with
  | none => .error .key
  | some allowed => do
    let r ← getItem record "issuer_role"
    let role ← asString r
    let i ← getItem record "issued_at"
    let issued ← instantOf i
    match key with
    | none => return mode ++ trusted ++ [.keyRoleOrIssuanceInvalid]
    | some key => do
      let invalid ← anyOf [
        .ok (!allowed.contains role),
        .ok (!key.roles.contains role),
        do
          let issuer ← getItem record "issuer"
          let known ← inSet issuer key.issuers
          return !known,
        differs h record reference "issuer",
        do
          let audience ← getItem record "audience"
          let known ← inSet audience key.audiences
          return !known,
        .ok (!(key.validFrom ≤ issued && issued ≤ key.validUntil)),
        do
          let ordered ← issuanceOrderIsValid record
          return !ordered]
      let signed ← signatureIsValid h record key.publicKey
      return mode ++ trusted ++ fault invalid .keyRoleOrIssuanceInvalid ++ fault (!signed) .signatureInvalid

def packMapping : List (String × String) :=
  [("final_pack_zip_sha256", "expected_pack_zip_sha256"), ("pack_manifest_sha256", "expected_pack_manifest_sha256"),
    ("repo0_baseline_receipt_sha256", "expected_repo0_baseline_receipt_sha256"),
    ("repo0_git_commit_oid", "expected_repo0_git_commit_oid"), ("repo0_git_tree_oid", "expected_repo0_git_tree_oid"),
    ("repo0_tree_sha256", "expected_repo0_tree_sha256")]

def implementationMapping : List (String × String) :=
  [("implementation_build_hash", "expected_implementation_build_hash"), ("dependency_lock_hash", "expected_dependency_lock_hash"),
    ("schema_vendor_hash", "expected_schema_vendor_hash")]

def bindingFaults (record reference context : Doc) : Except PyError (List Fault) := do
  let p ← getItem reference "pack_bindings"
  let p ← asObject p
  let expectedPack := overlayExpected p context packMapping
  let a ← getItem record "pack_bindings"
  let actualPack ← asObject a
  let pack ← anyOf (["final_pack_zip_sha256", "pack_manifest_sha256"].map (differs h actualPack expectedPack))
  let baseline ← anyOf (["repo0_baseline_receipt_sha256", "repo0_git_commit_oid", "repo0_git_tree_oid", "repo0_tree_sha256"].map
    (differs h actualPack expectedPack))
  let i ← getItem reference "implementation_bindings"
  let i ← asObject i
  let implementation ← getItem record "implementation_bindings"
  return fault pack .packHashMismatch ++ fault baseline .baselineMismatch ++
    fault (!h.eq implementation (overlayExpected i context implementationMapping)) .buildHashMismatch

def audienceFaults (record context : Doc) (recordType : Text) : Except PyError (List Fault) :=
  match audienceOf recordType with
  | none => .error .key
  | some expected => do
    let audience ← getItem record "audience"
    return fault (!h.eq audience (getOr context "expected_audience" (.str expected)) || audience ≠ .str expected) .audienceMismatch

/-- `_validation_time` -/
def validationTime (record context : Doc) : Except PyError Int := do
  let notBefore ← getItem record "not_before"
  instantOf (getOr context "validation_time" notBefore)

/-! ## Clock and time -/

def clockKeys : List String := ["clock_domain_id", "boot_id", "unit", "value", "resolution"]

/-- The monotonic times of one clock. -/
def monotonicFaults (start deadline current : Doc) : Except PyError (List Fault) := do
  let s ← getItem start "value"
  let startValue ← intOf s
  let d ← getItem deadline "value"
  let deadlineValue ← intOf d
  let c ← getItem current "value"
  let currentMonotonic ← intOf c
  return fault (startValue > currentMonotonic || deadlineValue ≤ startValue) .clockUntrusted ++
    fault (deadlineValue - startValue > 1800000000) .clockUntrusted ++ fault (currentMonotonic ≥ deadlineValue) .expired

/-- The faults of a lease when the clock evidence is as required. -/
def leaseFaults (record start deadline wall current : Doc) : Except PyError (List Fault) := do
  let identity ← anyOf [
    .ok (!hasKeys start clockKeys || !hasKeys deadline clockKeys || !hasKeys current clockKeys),
    anyOf (["clock_domain_id", "boot_id", "unit"].map fun field =>
      anyOf [differs h start deadline field, differs h start current field]),
    .ok (!h.eq (dictGet wall "boot_id") (dictGet start "boot_id"))]
  let times ← (if identity then .ok [.clockUntrusted] else monotonicFaults start deadline current)
  let w ← getItem wall "value"
  let anchor ← instantOf w
  let i ← getItem record "issued_at"
  let issued ← instantOf i
  return times ++ fault (anchor > issued) .clockUntrusted

def verifierClockFaults (record context : Doc) : Except PyError (List Fault) := do
  let c ← getItem record "verifier_clock"
  let clock ← asObject c
  let s ← getItem clock "monotonic_start"
  let start ← asObject s
  let d ← getItem clock "monotonic_deadline"
  let deadline ← asObject d
  let w ← getItem clock "trusted_wall_anchor"
  let wall ← asObject w
  match dictGet context "current_monotonic" with
  | .obj l =>
    if dictGet context "backend_restart_detected" ≠ .bool false || dictGet context "wall_clock_rollback_detected" ≠ .bool false ||
        dictGet context "monotonic_regression_detected" ≠ .bool false || dictGet context "clock_evidence_verified" ≠ .bool true then
      .ok [.clockUntrusted]
    else leaseFaults h record start deadline wall (.obj l)
  | _ => .ok [.clockUntrusted]

/-- `_add_clock_and_time_faults` -/
def clockAndTimeFaults (record context : Doc) (recordType : Text) (now : Int) : Except PyError (List Fault) := do
  let clock ← (if recordType ∈ [text "DiscoveryRunAuthorization", text "ProviderCallAuthorization"] then
    verifierClockFaults h record context else .ok [])
  let n ← getItem record "not_before"
  let notBefore ← instantOf n
  let e ← getItem record "expires_at"
  let expires ← instantOf e
  return clock ++ fault (now < notBefore) .notYetValid ++ fault (now ≥ expires) .expired

/-! ## Prerequisites -/

section Linked

variable (trustMode : Text) (keys : Keys)

/-- A prerequisite gate that the run cannot rest on. -/
def gateInvalid (record context binding receipt : Doc) (now : Int) (expectedKind : String) (expectedPrerequisites : List Doc) :
    Except PyError Bool := do
  let revoked ← isRevoked h trustMode keys receipt context now
  anyOf [
    .ok (!h.eq (dictGet binding "gate_kind") (str expectedKind)),
    .ok (!h.eq (dictGet receipt "gate_kind") (str expectedKind)),
    .ok (!h.eq (dictGet binding "content_hash") (dictGet receipt "content_hash")),
    .ok (!h.eq (dictGet receipt "gate_result") (str "PASS")),
    .ok (!h.eq (dictGet receipt "declared_use_semantics") (str "SINGLE_USE")),
    .ok (dictGet receipt "one_use" ≠ .bool true),
    .ok (!h.eq (dictGet receipt "consumed_before") (str "ATOMIC_LEDGER_COMMIT_BEFORE_GATE_USE")),
    .ok (!h.eq (dictGet receipt "prerequisite_receipt_hashes") (.arr expectedPrerequisites)),
    .ok (!h.eq (dictGet receipt "pack_bindings") (dictGet record "pack_bindings")),
    .ok (!h.eq (dictGet receipt "implementation_bindings") (dictGet record "implementation_bindings")),
    do
      let valid ← recordMechanismValid h trustMode keys receipt
      return !valid,
    .ok revoked.1,
    .ok (!revoked.2),
    do
      let n ← getItem receipt "not_before"
      let notBefore ← instantOf n
      return now < notBefore,
    do
      let e ← getItem receipt "expires_at"
      let expires ← instantOf e
      return now ≥ expires]

/-- The loop over the gates: each has the one before it as its prerequisite. -/
def gateFaults (record context : Doc) (now : Int) : List Doc → List String → List (Doc × Doc) → Except PyError (List Fault)
  | prerequisites, kind :: kinds, (b, r) :: rest => do
    let binding ← asObject b
    let receipt ← asObject r
    let invalid ← gateInvalid h trustMode keys record context binding receipt now kind prerequisites
    let c ← getItem receipt "content_hash"
    let contentHash ← asString c
    let faults ← gateFaults record context now [.str contentHash] kinds rest
    return fault invalid .prerequisiteGateInvalid ++ faults
  | _, _, _ => .ok []

def runGateFaults (record reference context : Doc) (now : Int) : Except PyError (List Fault) := do
  let bindings ← getItem record "prerequisite_gates"
  let expected ← getItem reference "prerequisite_gates"
  match h.eq bindings expected, dictGet context "prerequisite_gate_records" with
  | true, .arr supplied =>
    if supplied.length ≠ 3 then .ok [.prerequisiteGateInvalid]
    else do
      let bindings ← iterate bindings
      let faults ← gateFaults h trustMode keys record context now []
        ["R0_REPAIR_ACCEPTED", "F0A_FOUNDATION_ACCEPTED", "DISCOVERY_SECURITY_ACCEPTED"] (bindings.zip supplied)
      -- `strict=True`, of two lists
      require (bindings.length = supplied.length) .value
      return faults
  | _, _ => .ok [.prerequisiteGateInvalid]

/-- `_add_prerequisite_faults` -/
def prerequisiteFaults (record reference context : Doc) (recordType : Text) (now : Int) : Except PyError (List Fault) :=
  if recordType = text "DiscoveryRunAuthorization" then runGateFaults h trustMode keys record reference context now
  else if recordType = text "GateReceipt" then
    fieldFaults h record reference .prerequisiteGateInvalid ["prerequisite_receipt_hashes"]
  else .ok []

/-! ## Scope -/

def browserFields : List String :=
  ["browser_id", "profile_id", "browser_run_id", "window_id", "tab_id", "tab_instance_id", "document_id", "navigation_id",
    "origin", "pathname"]

def browserFaults (record reference context : Doc) : Except PyError (List Fault) := do
  let a ← getItem record "browser_binding"
  let actual ← asObject a
  let e ← getItem reference "browser_binding"
  let expected ← asObject e
  return fault (!h.eq actual (overlayExpected expected context (browserFields.map fun f => (f, "expected_" ++ f)))) .scopeBindingMismatch

def runScopeFaults (record reference : Doc) : Except PyError (List Fault) := do
  let fields ← fieldFaults h record reference .scopeBindingMismatch
    ["authorization_mode", "discovery_run_id", "pairing_secret_commitment", "verifier_clock", "prerequisite_gates", "budget"]
  let mode ← getItem record "authorization_mode"
  return fields ++
    fault (h.eq mode (str "NEW_RUN") && (item record "resume_binding").isSome) .scopeBindingMismatch ++
    fault (h.eq mode (str "RESUME_EXISTING_RUN") && ((item record "resume_binding").isNone ||
      !h.eq (dictGet record "resume_binding") (dictGet reference "resume_binding"))) .scopeBindingMismatch

def gateScopeFaults (record reference context : Doc) : Except PyError (List Fault) := do
  let fields ← fieldFaults h record reference .scopeBindingMismatch ["gate_kind", "gate_result", "criteria_evidence_hashes"]
  let kind ← getItem record "gate_kind"
  let boundRun := getOr context "expected_bound_run_id" (dictGet reference "bound_run_id")
  let manifest := getOr context "expected_accepted_sanitized_export_manifest_hash"
    (dictGet reference "accepted_sanitized_export_manifest_hash")
  return fields ++ fault (h.eq kind (str "EVIDENCE_EXPORT_ACCEPTED") && (!h.eq (dictGet record "bound_run_id") boundRun ||
    !h.eq (dictGet record "accepted_sanitized_export_manifest_hash") manifest)) .scopeBindingMismatch

/-- The first entry of a list that has the record's identifier. -/
def entryOf (entries : Doc) (k : String) (identifier : Doc) : Option Doc :=
  match entries with
  | .arr l => l.find? fun v => Hashing.isObject v && h.eq (dictGet v k) identifier
  | _ => none

/-- A provider protocol that does not allow the call. -/
def protocolInvalid (record context protocol : Doc) (now : Int) : Except PyError Bool := do
  let revoked ← isRevoked h trustMode keys protocol context now
  let endpoint := entryOf h (dictGet protocol "endpoint_templates") "endpoint_template_id" (dictGet record "endpoint_template_id")
  let window := entryOf h (dictGet protocol "sample_windows") "window_id" (dictGet record "sample_window_id")
  anyOf [
    do
      let valid ← recordMechanismValid h trustMode keys protocol
      return !valid,
    .ok revoked.1,
    .ok (!revoked.2),
    do
      let n ← getItem protocol "not_before"
      let notBefore ← instantOf n
      return now < notBefore,
    do
      let e ← getItem protocol "expires_at"
      let expires ← instantOf e
      return now ≥ expires,
    .ok (!h.eq (dictGet protocol "protocol_id") (dictGet record "protocol_id")),
    .ok (!h.eq (dictGet protocol "content_hash") (dictGet record "protocol_content_hash")),
    .ok endpoint.isNone,
    .ok window.isNone,
    .ok (!h.eq (dictGet (endpoint.getD .null) "method") (dictGet record "method")),
    .ok (!h.eq (dictGet (endpoint.getD .null) "body_policy") (dictGet record "body_policy")),
    do
      let r ← getItem record "maximum_response_bytes"
      let ceiling ← intOf r
      let p ← getItem protocol "maximum_response_bytes"
      let protocolCeiling ← intOf p
      return ceiling > protocolCeiling]

def callScopeFaults (record reference context : Doc) (now : Int) : Except PyError (List Fault) := do
  let fields ← fieldFaults h record reference .scopeBindingMismatch
    ["provider_call_id", "protocol_id", "protocol_content_hash", "endpoint_template_id", "sample_window_id", "sample_id", "method",
      "body_policy", "maximum_response_bytes", "verifier_clock"]
  match dictGet context "provider_protocol_record" with
  | .obj l => do
    let invalid ← protocolInvalid h trustMode keys record context (.obj l) now
    return fields ++ fault invalid .scopeBindingMismatch
  | _ => return fields ++ [.scopeBindingMismatch]

/-- The fields a record of the type has in common with its reference, and what else is bound. -/
def typeScopeFaults (record reference context : Doc) (recordType : Text) (now : Int) : Except PyError (List Fault) :=
  if recordType = text "DiscoveryRunAuthorization" then runScopeFaults h record reference
  else if recordType = text "GateReceipt" then gateScopeFaults h record reference context
  else if recordType = text "BodyClassApproval" then
    fieldFaults h record reference .scopeBindingMismatch
      ["discovery_run_id", "body_class", "metadata_only_evidence_hash", "test_only_manifest_hash"]
  else if recordType = text "ProviderProbeProtocol" then
    fieldFaults h record reference .scopeBindingMismatch
      ["protocol_id", "protocol_state", "endpoint_templates", "sample_windows", "deterministic_sampling_rule", "retry_policy",
        "maximum_response_bytes", "allowed_fields", "denominators", "cadence", "budget", "licensing", "credential_class",
        "accepted_schema_versions", "prohibited_outputs"]
  else if recordType = text "ProviderCallAuthorization" then callScopeFaults h trustMode keys record reference context now
  else .ok []

/-- `_add_scope_faults` -/
def scopeFaults (record reference context : Doc) (recordType : Text) (now : Int) : Except PyError (List Fault) := do
  let scope ← differs h record reference "scope"
  let browser ← (if recordType ∈ [text "DiscoveryRunAuthorization", text "BodyClassApproval"] then
    browserFaults h record reference context else .ok [])
  let rest ← typeScopeFaults h trustMode keys record reference context recordType now
  return fault scope .scopeBindingMismatch ++ browser ++ rest

end Linked

/-! ## The consumption ledger -/

/-- The values of the fields, if the record has them all. -/
def fieldsOf (record : Doc) (fields : List String) : Option (List Doc) := fields.mapM (item record)

/-- `_consumption_identity` -/
def consumptionIdentity (record : Doc) : Option (List Doc) := fieldsOf record ["issuer", "issuer_key_id", "audience", "serial"]

/-- `==`, of tuples or `None`. -/
def sameTuple : Option (List Doc) → Option (List Doc) → Bool
  | none, none => true
  | some l, some m => h.eq (.arr l) (.arr m)
  | _, _ => false

def fieldsByType : List (String × List String) :=
  [("GateReceipt", ["gate_kind", "bound_run_id"]), ("DiscoveryRunAuthorization", ["discovery_run_id", "browser_binding"]),
    ("BodyClassApproval", ["discovery_run_id", "browser_binding", "body_class"]), ("ProviderProbeProtocol", ["protocol_id"]),
    ("ProviderCallAuthorization", ["protocol_id", "endpoint_template_id", "sample_window_id", "sample_id"]),
    ("RevocationRecord", ["ledger_id"])]

/-- `_scope_binding_hash` -/
def scopeBindingHash (record : Doc) : Except PyError Text := do
  let t ← getItem record "record_type"
  let recordType ← asString t
  let scope ← getItem record "scope"
  match fieldsByType.find? fun a => text a.1 = recordType with
  | none => .error .key
  | some a =>
    let fields := a.2.filterMap fun field => (item record field).map fun v => (text field, v)
    match h.hashing.jcs (.obj ((text "record_type", .str recordType) :: (text "scope", scope) :: fields)) with
    | some canonical =>
      return text (hex (h.sha256 (encode (text "HYBRID-DISCOVERY/v6.2/AUTHORIZATION-SCOPE-BINDING/v1") ++ [0] ++ canonical)))
    | none => .error .value

/-- `_nonce_scope`. It catches whatever `_scope_binding_hash` raises. -/
def nonceScope (record : Doc) : Option (List Doc) :=
  match fieldsOf record ["issuer", "issuer_key_id", "audience"] with
  | none => none
  | some l =>
    match dictGet record "scope_binding_hash" with
    | .null =>
      match scopeBindingHash h record with
      | .ok t => some (l ++ [.str t])
      | .error _ => none
    | v => some (l ++ [v])

/-- The loop over the consumed records of the content hash. -/
def replayFaults (record contentHash : Doc) : List Doc → Except PyError (List Fault)
  | [] => .ok []
  | value :: l => do
    let consumed ← asObject value
    let rest ← replayFaults record contentHash l
    let other := (consumptionIdentity consumed).isSome && !sameTuple h (consumptionIdentity consumed) (consumptionIdentity record)
    if h.eq (dictGet consumed "content_hash") contentHash then return (if other then Fault.localStateConflict else .alreadyConsumed) :: rest
    else return rest

/-- `_add_consumption_faults` -/
def consumptionFaults (record context : Doc) : Except PyError (List Fault) := do
  let oneUse ← getItem record "one_use"
  if oneUse ≠ .bool true then .ok []
  else do
    let contentHash ← getItem record "content_hash"
    let hashes ← asList (getOr context "consumed_content_hashes" (.arr []))
    let records ← asList (getOr context "consumed_records" (.arr []))
    let replayed ← replayFaults h record contentHash records
    return fault (hashes.any (h.eq contentHash)) .alreadyConsumed ++ replayed

/-- `consumed.get("content_hash") != record["content_hash"]` -/
def otherHash (consumed record : Doc) : Except PyError Bool := do
  let contentHash ← getItem record "content_hash"
  return !h.eq (dictGet consumed "content_hash") contentHash

/-- Another record of the same serial. -/
def serialConflict (consumed record : Doc) : Except PyError Bool :=
  if sameTuple h (consumptionIdentity consumed) (consumptionIdentity record) then otherHash h consumed record else .ok false

/-- Another record of the same nonce, in the same scope. -/
def nonceConflict (consumed record : Doc) : Except PyError Bool :=
  if (nonceScope h consumed).isSome && sameTuple h (nonceScope h consumed) (nonceScope h record) then do
    let nonce ← getItem record "nonce"
    if h.eq (dictGet consumed "nonce") nonce then otherHash h consumed record else .ok false
  else .ok false

def conflictFaults (record : Doc) : List Doc → Except PyError (List Fault)
  | [] => .ok []
  | value :: l => do
    let consumed ← asObject value
    let serial ← serialConflict h consumed record
    let nonce ← nonceConflict h consumed record
    let rest ← conflictFaults record l
    return fault serial .serialConflict ++ fault nonce .localStateConflict ++ rest

/-- A revocation is the next of its ledger. -/
def sequenceFaults (record reference : Doc) (recordType : Text) : Except PyError (List Fault) :=
  if recordType = text "RevocationRecord" then do
    let sequence ← fieldFaults h record reference .serialConflict ["revocation_sequence"]
    let previous ← fieldFaults h record reference .localStateConflict ["previous_revocation_hash"]
    return sequence ++ previous
  else .ok []

/-- `_add_serial_and_local_state_faults` -/
def serialAndLocalStateFaults (record reference context : Doc) (recordType : Text) : Except PyError (List Fault) := do
  let sequence ← sequenceFaults h record reference recordType
  let records ← asList (getOr context "consumed_records" (.arr []))
  let conflicts ← conflictFaults h record records
  return sequence ++ conflicts

/-! ## The evaluation -/

section Evaluation

variable (trustMode : Text) (keys : Keys)

/-- The faults of a record whose content hash could be computed. -/
def recordFaults (record reference context : Doc) (recordType computedHash : Text) : Except PyError (List Fault) := do
  let contentHash ← getItem record "content_hash"
  let keyed ← keyFaults h trustMode keys record reference recordType
  let bound ← bindingFaults h record reference context
  let audience ← audienceFaults h record context recordType
  let now ← validationTime record context
  let revoked ← isRevoked h trustMode keys record context now
  let timed ← clockAndTimeFaults h record context recordType now
  let prerequisites ← prerequisiteFaults h trustMode keys record reference context recordType now
  let scope ← scopeFaults h trustMode keys record reference context recordType now
  let store := fault (getOr context "consumption_store_available" (.bool true) ≠ .bool true) .consumptionStoreUnavailable
  let consumed ← consumptionFaults h record context
  let serial ← serialAndLocalStateFaults h record reference context recordType
  return fault (contentHash ≠ .str computedHash) .contentHashMismatch ++ keyed ++ bound ++ audience ++
    fault revoked.1 .revoked ++ fault (!revoked.2) .localStateConflict ++ timed ++ prerequisites ++ scope ++ store ++ consumed ++ serial

/-- `_evaluate_record` -/
def evaluateRecord (record reference context : Doc) : Except PyError Evaluation :=
  if !h.schemaValid record then .ok (evaluation [.schemaInvalid])
  else do
    let t ← getItem record "record_type"
    let recordType ← asString t
    match contentHash h recordType record with
    | .error (.canonical code) => .ok (evaluation [canonicalFault code])
    | .error e => .error e
    | .ok computedHash => do
      let faults ← recordFaults h trustMode keys record reference context recordType computedHash
      return evaluation faults

end Evaluation

end Checks

end BettingHelper.Authorization
