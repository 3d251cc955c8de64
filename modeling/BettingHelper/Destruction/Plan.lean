/-
  BettingHelper.Destruction.Plan — the plan of a whole-run destruction: the export it
  rests on, the intent it will persist, the receipt that authorizes it, and the row that
  consumes the receipt.

  Hashes are SHA-256 over canonical bytes. SHA-256, the signature check and the closed
  schema of a gate receipt are what `Trust` stands for; everything else is computed.

  Proved: `proof_conforms`, the deletion proof built for a plan that was validated meets
  the schema it is checked against before it is written.
-/

import BettingHelper.Lib.DateTime
import BettingHelper.Lib.JsonText

namespace BettingHelper.Destruction

open BettingHelper.Lib.Json BettingHelper.Lib.DateTime

/-! ## Documents -/

def texts (l : List (String × String)) : Doc := record (l.map fun m => (m.1, str m.2))

/-! ## The records -/

structure Receipt where
  schemaVersion : String
  recordType : String
  recordId : String
  issuer : String
  issuerRole : String
  issuerKeyId : String
  signatureAlgorithm : String
  audience : String
  packBindings : List (String × String)
  implementationBindings : List (String × String)
  scope : String
  serial : String
  nonce : String
  issuedAt : String
  notBefore : String
  expiresAt : String
  revocationCheckpoint : List (String × String)
  oneUse : Bool
  consumedBefore : String
  productionAuthority : String
  contentHash : String
  signature : String
  gateKind : String
  gateResult : String
  prerequisiteReceiptHashes : List String
  criteriaEvidenceHashes : List String
  declaredUseSemantics : String
  boundRunId : String
  acceptedSanitizedExportManifestHash : String

def Receipt.fields (r : Receipt) : List (String × Doc) :=
  [("schema_version", str r.schemaVersion), ("record_type", str r.recordType), ("record_id", str r.recordId),
   ("issuer", str r.issuer), ("issuer_role", str r.issuerRole), ("issuer_key_id", str r.issuerKeyId),
   ("signature_algorithm", str r.signatureAlgorithm), ("audience", str r.audience),
   ("pack_bindings", texts r.packBindings), ("implementation_bindings", texts r.implementationBindings),
   ("scope", str r.scope), ("serial", str r.serial), ("nonce", str r.nonce), ("issued_at", str r.issuedAt),
   ("not_before", str r.notBefore), ("expires_at", str r.expiresAt),
   ("revocation_checkpoint", texts r.revocationCheckpoint), ("one_use", .bool r.oneUse),
   ("consumed_before", str r.consumedBefore), ("production_authority", str r.productionAuthority),
   ("content_hash", str r.contentHash), ("signature", str r.signature), ("gate_kind", str r.gateKind),
   ("gate_result", str r.gateResult), ("prerequisite_receipt_hashes", strs r.prerequisiteReceiptHashes),
   ("criteria_evidence_hashes", strs r.criteriaEvidenceHashes),
   ("declared_use_semantics", str r.declaredUseSemantics), ("bound_run_id", str r.boundRunId),
   ("accepted_sanitized_export_manifest_hash", str r.acceptedSanitizedExportManifestHash)]

structure Intent where
  recordType : String
  schemaVersion : String
  destructionIntentId : String
  contentHashAlgorithm : String
  contentHashDomain : String
  contentHash : String
  runId : String
  runState : String
  writerCount : String
  exportStatus : String
  acceptedSanitizedExportManifestHash : String
  accountingStatus : String
  requiredArtifactsIncluded : List String
  destructionAuthorizationId : String
  destructionGateReceiptContentHash : String
  destructionGateReceipt : Receipt
  destructionGateReceiptVerification : String
  destructionAuthorizationConsumptionId : String
  destructionAuthorityConsumptionState : String
  humanInvocation : Bool
  humanInvocationMode : String
  preDeleteInventoryHash : String
  externalIntentPath : String
  createdAt : String
  immutable : Bool

def Intent.fields (i : Intent) : List (String × Doc) :=
  [("record_type", str i.recordType), ("schema_version", str i.schemaVersion),
   ("destruction_intent_id", str i.destructionIntentId), ("content_hash_algorithm", str i.contentHashAlgorithm),
   ("content_hash_domain", str i.contentHashDomain), ("content_hash", str i.contentHash), ("run_id", str i.runId),
   ("run_state", str i.runState), ("writer_count", str i.writerCount), ("export_status", str i.exportStatus),
   ("accepted_sanitized_export_manifest_hash", str i.acceptedSanitizedExportManifestHash),
   ("accounting_status", str i.accountingStatus), ("required_artifacts_included", strs i.requiredArtifactsIncluded),
   ("destruction_authorization_id", str i.destructionAuthorizationId),
   ("destruction_gate_receipt_content_hash", str i.destructionGateReceiptContentHash),
   ("destruction_gate_receipt", record i.destructionGateReceipt.fields),
   ("destruction_gate_receipt_verification", str i.destructionGateReceiptVerification),
   ("destruction_authorization_consumption_id", str i.destructionAuthorizationConsumptionId),
   ("destruction_authority_consumption_state", str i.destructionAuthorityConsumptionState),
   ("human_invocation", .bool i.humanInvocation), ("human_invocation_mode", str i.humanInvocationMode),
   ("pre_delete_inventory_hash", str i.preDeleteInventoryHash), ("external_intent_path", str i.externalIntentPath),
   ("created_at", str i.createdAt), ("immutable", .bool i.immutable)]

def Intent.doc (i : Intent) : Doc := record i.fields

/-- `plan["export"]`; the inventory is what `inventory` reported when the run was captured. -/
structure Export where
  testScope : String
  runId : String
  inventory : Doc
  requiredArtifacts : List String

def Export.doc (e : Export) : Doc :=
  record [("test_scope", str e.testScope), ("run_id", str e.runId), ("inventory", e.inventory),
    ("required_artifacts", strs e.requiredArtifacts)]

structure Plan where
  testScope : String
  runId : String
  exported : Export
  intent : Intent

structure DeletionProof where
  contentHash : String
  deletionProofId : String
  runId : String
  destructionIntentId : String
  extensionStoreState : String
  backendStoreState : String
  proofState : String
  externalProofPath : String
  secureErasureClaim : Bool
  completedAt : String
  immutable : Bool

def DeletionProof.fields (p : DeletionProof) : List (String × Doc) :=
  [("record_type", str "DeletionProof"), ("schema_version", str "1"), ("content_hash", str p.contentHash),
   ("deletion_proof_id", str p.deletionProofId), ("run_id", str p.runId),
   ("destruction_intent_id", str p.destructionIntentId), ("extension_store_state", str p.extensionStoreState),
   ("backend_store_state", str p.backendStoreState), ("proof_state", str p.proofState),
   ("external_proof_path", str p.externalProofPath), ("secure_erasure_claim", .bool p.secureErasureClaim),
   ("completed_at", str p.completedAt), ("immutable", .bool p.immutable)]

def DeletionProof.doc (p : DeletionProof) : Doc := record p.fields


inductive Cell where
  | text (s : String)
  | int (n : Int)
  deriving DecidableEq, Repr

/-- A row by its columns. -/
abbrev Row := List (String × Cell)

def Cell.doc : Cell → Doc
  | .text s => str s
  | .int n => .int n

def Row.doc (r : Row) : Doc := record (r.map fun c => (c.1, c.2.doc))

/-! ## Hashes and schemas -/

structure Trust where
  sha256 : List UInt8 → BitVec 256
  /-- `_signature_is_valid`, of the signature and the content hash. -/
  signatureIsValid : String → String → Bool
  /-- The closed schema of a gate receipt. -/
  gateReceipt : Receipt → Bool
  /-- The clauses of the store's schema on the shape of a consumption's texts. -/
  formats : Row → Bool

def digest (t : Trust) (d : Doc) : String := hex (t.sha256 d.bytes)

/-- The fields the registry leaves out of a record's own hash. -/
def excluded (recordType : String) : List String :=
  if recordType = "GateReceipt" then ["content_hash", "signature"] else ["content_hash"]

def contentHash (t : Trust) (recordType : String) (fields : List (String × Doc)) : String :=
  hex (t.sha256 (encode (text ("HYBRID-DISCOVERY/v6.2/" ++ recordType ++ "/v1\x00")) ++
    (record (fields.filter fun m => m.1 ∉ excluded recordType)).bytes))

def Intent.hash (t : Trust) (i : Intent) : String := Destruction.contentHash t i.recordType i.fields

def Receipt.hash (t : Trust) (r : Receipt) : String := Destruction.contentHash t r.recordType r.fields

def DeletionProof.hash (t : Trust) (p : DeletionProof) : String := Destruction.contentHash t "DeletionProof" p.fields

def isHexDigit (c : Char) : Bool := c.isDigit || ('a' ≤ c && c ≤ 'f')

/-- `$` of a pattern also matches before a line feed that ends the text. -/
def beforeEnd (s : String) : List Char := if s.toList.getLast? = some '\n' then s.toList.dropLast else s.toList

/-- `^[0-9a-f]{64}$` -/
def isHash (s : String) : Bool := (beforeEnd s).length = 64 && (beforeEnd s).all isHexDigit

/-- `^[A-Z][A-Z0-9_]*:[0-9a-f]{64}$` -/
def isArtifactId (s : String) : Bool :=
  let kind := (beforeEnd s).takeWhile (· ≠ ':')
  let rest := (beforeEnd s).dropWhile (· ≠ ':')
  kind.head?.any Char.isUpper && kind.all (fun c => c.isUpper || c.isDigit || c = '_') &&
    rest.length = 65 && rest.tail.all isHexDigit

/-- The format `uuid`. -/
def isUuid (s : String) : Bool :=
  let digits := s.toList.filter (· ≠ '-')
  digits.length = 32 && digits.all (fun c => isHexDigit c.toLower) &&
    [8, 13, 18, 23].all fun i => s.toList[i]? = some '-'

/-- `str(UUID(s, version=4)) == s`. -/
def isUuid4 (s : String) : Bool :=
  let l := s.toList
  l.length = 36 && (List.range 36).all fun i =>
    if i ∈ [8, 13, 18, 23] then l[i]? = some '-'
    else if i = 14 then l[i]? = some '4'
    else if i = 19 then l[i]?.any (· ∈ ['8', '9', 'a', 'b'])
    else l[i]?.any isHexDigit

/-- A pattern of `.local/destruction/`, 36 characters of a run id, and an ending. -/
def isExternalPath (ending s : String) : Bool :=
  let l := beforeEnd s
  let id := (l.drop 19).take 36
  l.take 19 = ".local/destruction/".toList && id.length = 36 && id.all (fun c => isHexDigit c || c = '-') &&
    l.drop 55 = ending.toList

def artifacts : List String := ["GAPS", "MAPPINGS", "MAPPING_CLOSURES", "DERIVED_REVISIONS", "PRE_DELETE_INVENTORY"]

/-- The fields of `RunDestructionIntent` the durability schema fixes. -/
def Intent.fixed (i : Intent) : Bool :=
  i.recordType = "RunDestructionIntent" && i.schemaVersion = "1" && i.contentHashAlgorithm = "HD-JCS-SHA256-v1" &&
  i.contentHashDomain = "HYBRID-DISCOVERY/v6.2/RunDestructionIntent/v1\x00" && i.runState = "RUN_CLOSED" &&
  i.writerCount = "0" && i.exportStatus = "VALIDATED_REPLAYED_SECRET_SCANNED_ACCEPTED" &&
  i.accountingStatus = "ALL_ROWS_ACK_CHAIN_OR_EXPLICIT_GAP_EXPORT_ACCOUNTED" && i.requiredArtifactsIncluded = artifacts &&
  i.destructionGateReceipt.gateKind = "EVIDENCE_EXPORT_ACCEPTED" &&
  i.destructionGateReceiptVerification =
    "CANONICAL_BYTES_CONTENT_HASH_AND_ED25519_SIGNATURE_VERIFIED_BEFORE_CONSUMPTION" &&
  i.destructionAuthorityConsumptionState = "COMMITTED_BEFORE_WHOLE_RUN_DESTRUCTION" && i.humanInvocation &&
  i.humanInvocationMode = "EXPLICIT_HUMAN_INVOCATION" && i.immutable

/-- `RunDestructionIntent` of the durability schema. -/
def Intent.conforms (t : Trust) (i : Intent) : Bool :=
  i.fixed && t.gateReceipt i.destructionGateReceipt && isArtifactId i.destructionAuthorizationConsumptionId &&
  isHash i.contentHash && isHash i.acceptedSanitizedExportManifestHash && isUuid i.destructionAuthorizationId &&
  isHash i.destructionGateReceiptContentHash && isHash i.preDeleteInventoryHash && isDateTime i.createdAt &&
  isUuid i.runId && isArtifactId i.destructionIntentId && isExternalPath ".intent.json" i.externalIntentPath

/-- `DeletionProof` of the durability schema. -/
def DeletionProof.conforms (p : DeletionProof) : Bool :=
  isHash p.contentHash && isArtifactId p.deletionProofId && isUuid p.runId && isArtifactId p.destructionIntentId &&
  p.extensionStoreState ∈ ["PRESENT", "DELETED", "UNKNOWN"] && p.backendStoreState ∈ ["PRESENT", "DELETED", "UNKNOWN"] &&
  p.proofState ∈ ["PARTIAL_RESUMABLE", "COMPLETE_LOGICAL_DELETION", "UNKNOWN"] &&
  isExternalPath ".deletion-proof.json" p.externalProofPath && !p.secureErasureClaim && isDateTime p.completedAt &&
  p.immutable


/-! ## Validation -/

inductive Error where
  | runId
  | disposableOnly
  | humanInvocation
  | authorityRun
  | inventoryHash
  | authorityHash
  | intentPrecommit
  | schema
  | authoritySignature
  | authorityRequired
  | immutableArtifact
  | proofStoresPresent
  | proof
  /-- The store refuses a statement. -/
  | integrity
  | missingDatabase
  /-- A file that is no JSON document. -/
  | decode
  /-- The call waits at its checkpoint until it is killed. -/
  | paused
  deriving DecidableEq, Repr

def Error.code : Error → Option String
  | .runId => some "E_DESTRUCTION_RUN_ID"
  | .disposableOnly => some "E_DESTRUCTION_DISPOSABLE_ONLY"
  | .humanInvocation => some "E_DESTRUCTION_HUMAN_INVOCATION"
  | .authorityRun => some "E_DESTRUCTION_AUTHORITY_RUN"
  | .inventoryHash => some "E_DESTRUCTION_INVENTORY_HASH"
  | .authorityHash => some "E_DESTRUCTION_AUTHORITY_HASH"
  | .intentPrecommit => some "E_DESTRUCTION_INTENT_PRECOMMIT"
  | .authoritySignature => some "E_DESTRUCTION_AUTHORITY_SIGNATURE"
  | .authorityRequired => some "E_DESTRUCTION_AUTHORITY_REQUIRED"
  | .immutableArtifact => some "E_DESTRUCTION_IMMUTABLE_ARTIFACT"
  | .proofStoresPresent => some "E_DESTRUCTION_PROOF_STORES_PRESENT"
  | .proof => some "E_DESTRUCTION_PROOF"
  | .missingDatabase => some "E_STORE_MISSING_DATABASE"
  | .schema | .integrity | .decode | .paused => none

def testScope : String := "DISPOSABLE_DESTRUCTION_OWNER_ONLY_NO_EXTERNAL_AUTHORITY"

def testKeyId : String := "key:ed25519:21fe31dfa154a261626bf854046fd2271b7bed4b6abe45aa58877ef47f9721b9"

def intentPath (runId : String) : String := ".local/destruction/" ++ runId ++ ".intent.json"

def proofPath (runId : String) : String := ".local/destruction/" ++ runId ++ ".deletion-proof.json"

def validatePlan (t : Trust) (p : Plan) : Except Error Unit :=
  let i := p.intent
  let r := i.destructionGateReceipt
  if p.testScope ≠ testScope ∨ p.exported.testScope ≠ testScope then .error .disposableOnly
  else if i.humanInvocation ≠ true then .error .humanInvocation
  else if ¬(p.runId = i.runId ∧ i.runId = p.exported.runId ∧ p.exported.runId = r.boundRunId) then .error .authorityRun
  else if i.preDeleteInventoryHash ≠ digest t p.exported.inventory then .error .inventoryHash
  else if ¬(i.acceptedSanitizedExportManifestHash = r.acceptedSanitizedExportManifestHash ∧
      r.acceptedSanitizedExportManifestHash = digest t p.exported.doc) then .error .authorityHash
  else if i.externalIntentPath ≠ intentPath p.runId ∨ i.destructionAuthorizationId ≠ r.recordId ∨
      i.destructionGateReceiptContentHash ≠ r.contentHash ∨ i.contentHash ≠ i.hash t then .error .intentPrecommit
  else if i.conforms t = false then .error .schema
  else if r.issuerKeyId ≠ testKeyId ∨ r.issuerRole ≠ "PACK_REVIEWER" ∨
      r.audience ≠ "hybrid-discovery:bootstrap-gate:v1" ∨ r.contentHash ≠ r.hash t ∨
      t.signatureIsValid r.signature r.contentHash = false then .error .authoritySignature
  else .ok ()

/-- The row that consumes the receipt; the store keeps `True` as 1. -/
def consumption (t : Trust) (p : Plan) : Row :=
  let i := p.intent
  let r := i.destructionGateReceipt
  [("consumption_id", .text i.destructionAuthorizationConsumptionId),
   ("run_id", .text p.runId),
   ("receipt_record_type", .text r.recordType),
   ("receipt_schema_version", .text r.schemaVersion),
   ("receipt_id", .text r.recordId),
   ("destruction_intent_id", .text i.destructionIntentId),
   ("precommitted_destruction_intent_content_hash", .text i.contentHash),
   ("staged_pre_delete_inventory_hash", .text i.preDeleteInventoryHash),
   ("staged_intent_created_at", .text i.createdAt),
   ("intent_authorization_id", .text r.recordId),
   ("intent_consumption_id", .text i.destructionAuthorizationConsumptionId),
   ("intent_run_id", .text p.runId),
   ("receipt_scope", .text r.scope),
   ("gate_kind", .text r.gateKind),
   ("gate_result", .text r.gateResult),
   ("receipt_bound_run_id", .text r.boundRunId),
   ("accepted_sanitized_export_manifest_hash", .text i.acceptedSanitizedExportManifestHash),
   ("receipt_bound_sanitized_export_manifest_hash", .text r.acceptedSanitizedExportManifestHash),
   ("issuer", .text r.issuer),
   ("issuer_key_id", .text r.issuerKeyId),
   ("audience", .text r.audience),
   ("serial", .text r.serial),
   ("nonce", .text r.nonce),
   ("signature_algorithm", .text r.signatureAlgorithm),
   ("signature", .text r.signature),
   ("one_use", .int (if r.oneUse then 1 else 0)),
   ("declared_use_semantics", .text r.declaredUseSemantics),
   ("consumed_before", .text r.consumedBefore),
   ("scope_binding_hash", .text (digest t (record [("run_id", str p.runId),
     ("manifest", str r.acceptedSanitizedExportManifestHash)]))),
   ("receipt_content_hash", .text r.contentHash),
   ("intent_receipt_content_hash", .text r.contentHash),
   ("receipt_verification_state", .text "CANONICAL_BYTES_CONTENT_HASH_AND_ED25519_SIGNATURE_VERIFIED"),
   ("consumption_commit_state", .text "COMMITTED_BEFORE_WHOLE_RUN_DESTRUCTION"),
   ("explicit_human_invocation", .int 1),
   ("verifier_clock_domain_id", .text p.runId),
   ("verifier_boot_id", .text p.runId),
   ("verifier_clock_unit", .text "MICROSECOND"),
   ("verifier_monotonic_value", .int 10),
   ("verifier_clock_resolution_us", .int 1),
   ("consumed_at_us", .int 10)]

/-! ## What the store accepts -/

def Row.is (r : Row) (column value : String) : Bool := r.lookup column = some (.text value)

def Row.agree (r : Row) (a b : String) : Bool := (r.lookup a).isSome && r.lookup a = r.lookup b

def Row.null (r : Row) (column : String) : Bool := (r.lookup column).isNone

inductive RunStatus where
  | open
  | closed
  | destructionPending
  deriving DecidableEq, Repr

def RunStatus.name : RunStatus → String
  | .open => "OPEN"
  | .closed => "CLOSED"
  | .destructionPending => "DESTRUCTION_PENDING"

/-- The run's database; `facts` is everything else `read_gap_state` reports of it. -/
structure Database where
  runId : String
  runStatus : RunStatus
  authorizationConsumptions : List Row
  facts : List (String × Doc)

/-- The last alternative of the table's CHECK. -/
def Row.destroys (r : Row) : Bool :=
  r.is "receipt_record_type" "GateReceipt" && r.is "receipt_schema_version" "gate-receipt/v1" &&
  r.is "gate_kind" "EVIDENCE_EXPORT_ACCEPTED" && r.is "gate_result" "PASS" &&
  r.is "receipt_scope" "WHOLE_RUN_DESTRUCTION_AFTER_ACCEPTED_EXPORT" && !r.null "run_id" &&
  !r.null "destruction_intent_id" && !r.null "precommitted_destruction_intent_content_hash" &&
  !r.null "staged_pre_delete_inventory_hash" && !r.null "staged_intent_created_at" &&
  r.agree "intent_authorization_id" "receipt_id" && r.agree "intent_consumption_id" "consumption_id" &&
  r.agree "intent_run_id" "run_id" && r.agree "receipt_bound_run_id" "run_id" &&
  r.agree "receipt_bound_sanitized_export_manifest_hash" "accepted_sanitized_export_manifest_hash" &&
  r.agree "intent_receipt_content_hash" "receipt_content_hash" && r.is "declared_use_semantics" "SINGLE_USE" &&
  r.is "consumed_before" "ATOMIC_LEDGER_COMMIT_BEFORE_WHOLE_RUN_DESTRUCTION" &&
  r.is "consumption_commit_state" "COMMITTED_BEFORE_WHOLE_RUN_DESTRUCTION" &&
  r.lookup "explicit_human_invocation" = some (.int 1)

/-- The columns every other alternative wants empty. -/
def destructionColumns : List String :=
  ["destruction_intent_id", "precommitted_destruction_intent_content_hash", "staged_pre_delete_inventory_hash",
   "staged_intent_created_at", "intent_authorization_id", "intent_consumption_id", "intent_run_id",
   "receipt_bound_run_id", "accepted_sanitized_export_manifest_hash", "receipt_bound_sanitized_export_manifest_hash",
   "intent_receipt_content_hash", "explicit_human_invocation"]

def Row.authorizes (r : Row) (recordType schemaVersion scope consumedBefore : String) : Bool :=
  r.is "receipt_record_type" recordType && r.is "receipt_schema_version" schemaVersion && r.is "receipt_scope" scope &&
  destructionColumns.all r.null && r.is "consumed_before" consumedBefore &&
  r.is "consumption_commit_state" "COMMITTED_BEFORE_AUTHORIZED_ACTION"

def gateKinds : List String :=
  ["REPO0_BASELINE_ACCEPTED", "R0_REPAIR_ACCEPTED", "F0A_FOUNDATION_ACCEPTED", "DISCOVERY_SECURITY_ACCEPTED",
   "OPERATOR_DISCOVERY_ACCEPTED", "PROVIDER_FEASIBILITY_ACCEPTED", "DISCOVERY_EVIDENCE_ACCEPTED", "SCOPE0_FROZEN"]

/-- The other alternatives of the table's CHECK. -/
def Row.authorizesAction (r : Row) : Bool :=
  (["gate_kind", "gate_result", "declared_use_semantics"].all r.null && !r.null "run_id" &&
    (r.authorizes "DiscoveryRunAuthorization" "discovery-run-authorization/v1" "AUTHENTICATED_PASSIVE_DISCOVERY"
        "ATOMIC_LEDGER_COMMIT_BEFORE_DEBUGGER_ATTACH" ||
      r.authorizes "BodyClassApproval" "body-class-approval/v1" "TEST_ONLY_APPROVED_INBOUND_BODY_CLASS"
        "ATOMIC_LEDGER_COMMIT_BEFORE_BODY_TICKET_CREATION" ||
      r.authorizes "ProviderCallAuthorization" "provider-call-authorization/v1" "ONE_PROVIDER_FEASIBILITY_GET"
        "ATOMIC_LEDGER_COMMIT_BEFORE_PROVIDER_IO")) ||
  (gateKinds.any (r.is "gate_kind") && r.is "gate_result" "PASS" && r.is "declared_use_semantics" "SINGLE_USE" &&
    r.null "run_id" && r.authorizes "GateReceipt" "gate-receipt/v1" "IMPLEMENTATION_GATE_ONLY"
      "ATOMIC_LEDGER_COMMIT_BEFORE_GATE_USE")

/-- The checks on single columns, shapes apart. -/
def Row.columns (r : Row) : Bool :=
  r.is "signature_algorithm" "Ed25519" &&
  r.is "receipt_verification_state" "CANONICAL_BYTES_CONTENT_HASH_AND_ED25519_SIGNATURE_VERIFIED" &&
  r.lookup "one_use" = some (.int 1) && r.is "verifier_clock_unit" "MICROSECOND"

/-- A key no two rows share. -/
def keys : List (List String) :=
  [["consumption_id"], ["receipt_id"], ["receipt_content_hash"], ["issuer", "issuer_key_id", "audience", "serial"],
   ["issuer", "issuer_key_id", "audience", "scope_binding_hash", "nonce"]]

def Row.clashes (r used : Row) : Bool := keys.any fun k => k.all fun c => r.agree c c && used.lookup c = r.lookup c

/-- The INSERT into `authorization_consumptions` with its constraints and its trigger. -/
def Database.accepts (t : Trust) (d : Database) (r : Row) : Bool :=
  t.formats r && r.columns && (r.destroys || r.authorizesAction) &&
  ["run_id", "intent_run_id", "receipt_bound_run_id"].all (fun c => r.null c || r.is c d.runId) &&
  (!r.is "gate_kind" "EVIDENCE_EXPORT_ACCEPTED" || d.runStatus = .closed) &&
  d.authorizationConsumptions.all fun used => !r.clashes used

/-- What `run_meta_update_guard` wants of a consumption before the run is marked for
destruction. -/
def Row.guards (r : Row) (runId : String) : Bool :=
  r.is "run_id" runId && r.is "receipt_record_type" "GateReceipt" && r.is "receipt_schema_version" "gate-receipt/v1" &&
  r.is "gate_kind" "EVIDENCE_EXPORT_ACCEPTED" && r.is "gate_result" "PASS" && !r.null "destruction_intent_id" &&
  !r.null "precommitted_destruction_intent_content_hash" && !r.null "staged_pre_delete_inventory_hash" &&
  !r.null "staged_intent_created_at" && r.agree "intent_authorization_id" "receipt_id" &&
  r.agree "intent_consumption_id" "consumption_id" && r.is "intent_run_id" runId &&
  r.is "receipt_scope" "WHOLE_RUN_DESTRUCTION_AFTER_ACCEPTED_EXPORT" && r.is "receipt_bound_run_id" runId &&
  r.agree "receipt_bound_sanitized_export_manifest_hash" "accepted_sanitized_export_manifest_hash" &&
  r.agree "intent_receipt_content_hash" "receipt_content_hash" && r.is "signature_algorithm" "Ed25519" &&
  !r.null "signature" &&
  r.is "receipt_verification_state" "CANONICAL_BYTES_CONTENT_HASH_AND_ED25519_SIGNATURE_VERIFIED" &&
  r.lookup "one_use" = some (.int 1) && r.is "declared_use_semantics" "SINGLE_USE" &&
  r.is "consumed_before" "ATOMIC_LEDGER_COMMIT_BEFORE_WHOLE_RUN_DESTRUCTION" &&
  r.is "consumption_commit_state" "COMMITTED_BEFORE_WHOLE_RUN_DESTRUCTION" &&
  r.lookup "explicit_human_invocation" = some (.int 1)


variable {t : Trust} {p : Plan}

/-- The row the store accepts is one that lets the run be marked for destruction. -/
theorem accepts_guards {d : Database} (ha : d.accepts t (consumption t p)) : (consumption t p).guards d.runId := by
  simp only [Database.accepts, Bool.and_eq_true, Bool.or_eq_true] at ha
  obtain ⟨⟨⟨⟨⟨-, hc⟩, hk⟩, hf⟩, -⟩, -⟩ := ha
  have hd : (consumption t p).destroys := by
    rcases hk with hk | hk
    · exact hk
    · -- the other alternatives want another commit state
      exfalso
      simp [Row.authorizesAction, Row.authorizes, Row.is, Row.null, consumption, List.lookup] at hk
  simp [Row.destroys, Row.guards, Row.columns, Row.is, Row.null, Row.agree, consumption, List.lookup] at hc hd hf ⊢
  tauto

/-- A row that is there is not inserted again. -/
theorem accepts_once {d : Database} (hd : consumption t p ∈ d.authorizationConsumptions) :
    d.accepts t (consumption t p) = false := by
  have hc : (consumption t p).clashes (consumption t p) := by
    refine List.any_eq_true.mpr ⟨["consumption_id"], List.mem_cons_self, ?_⟩
    simp [Row.agree, consumption, List.lookup]
  rw [Database.accepts]
  have : (d.authorizationConsumptions.all fun used => !(consumption t p).clashes used) = false :=
    List.all_eq_false.mpr ⟨_, hd, by simp [hc]⟩
  rw [this, Bool.and_false]

/-! ## The proof that is written meets its schema -/

def createdAt : String := "2030-01-01T00:00:00.000000Z"

/-- The proof `write_proof` builds, its id drawn at random. -/
def deletionProof (t : Trust) (p : Plan) (id : BitVec 256) : DeletionProof :=
  let unsealed : DeletionProof :=
    { contentHash := String.ofList (List.replicate 64 '0')
      deletionProofId := "DELETION_PROOF:" ++ hex id
      runId := p.runId
      destructionIntentId := p.intent.destructionIntentId
      extensionStoreState := "DELETED"
      backendStoreState := "DELETED"
      proofState := "COMPLETE_LOGICAL_DELETION"
      externalProofPath := proofPath p.runId
      secureErasureClaim := false
      completedAt := createdAt
      immutable := true }
  { unsealed with contentHash := unsealed.hash t }

/-- The hash leaves out the field that holds it. -/
theorem deletionProof_hash (id : BitVec 256) : (deletionProof t p id).contentHash = (deletionProof t p id).hash t := by
  simp [deletionProof, DeletionProof.hash, DeletionProof.fields, contentHash, excluded]

theorem beforeEnd_eq {s : String} (hs : s.toList.getLast? ≠ some '\n') : beforeEnd s = s.toList := if_neg hs

theorem beforeEnd_digits {s : String} (hs : s.toList.all isHexDigit) : beforeEnd s = s.toList := by
  refine beforeEnd_eq fun hl => ?_
  cases List.all_eq_true.mp hs _ (List.mem_of_getLast? hl)

theorem hex_digits (x : BitVec 256) : (hex x).toList.length = 64 ∧ (hex x).toList.all isHexDigit := by
  have hd : ∀ n < 16, isHexDigit (Nat.digitChar n) := by decide
  simp only [hex, String.toList_ofList, List.length_map, List.length_range, List.all_map, true_and]
  exact List.all_eq_true.mpr fun i _ => hd _ (Nat.mod_lt _ (by decide))

theorem isHash_hex (x : BitVec 256) : isHash (hex x) := by
  obtain ⟨hl, hd⟩ := hex_digits x
  rw [isHash, beforeEnd_digits hd, hl, hd]
  rfl

theorem isArtifactId_hex (x : BitVec 256) : isArtifactId ("DELETION_PROOF:" ++ hex x) := by
  obtain ⟨hl, hd⟩ := hex_digits x
  have hn : ("DELETION_PROOF:" ++ hex x).toList.getLast? ≠ some '\n' := by
    rw [String.toList_append, List.getLast?_append]
    cases hx : (hex x).toList.getLast? with
    | none => decide
    | some c =>
      rintro h
      cases h
      cases List.all_eq_true.mp hd _ (List.mem_of_getLast? hx)
  rw [isArtifactId, beforeEnd_eq hn, String.toList_append]
  simp [hl, hd]

theorem isExternalPath_iff {ending s : String} (he : ∃ c ∈ ending.toList.getLast?, c ≠ '\n') :
    isExternalPath ending (".local/destruction/" ++ s ++ ending) ↔
      s.toList.length = 36 ∧ s.toList.all fun c => isHexDigit c || c = '-' := by
  obtain ⟨c, hc, hne⟩ := he
  have hb : beforeEnd (".local/destruction/" ++ s ++ ending) =
      ".local/destruction/".toList ++ (s.toList ++ ending.toList) := by
    rw [beforeEnd_eq, String.toList_append, String.toList_append, List.append_assoc]
    rw [String.toList_append, List.getLast?_append, hc]
    intro h
    cases h
    exact hne rfl
  have h19 : ".local/destruction/".toList.length = 19 := by decide
  have htake : (".local/destruction/".toList ++ (s.toList ++ ending.toList)).take 19 = ".local/destruction/".toList := by
    rw [← h19, List.take_left]
  have hdrop : (".local/destruction/".toList ++ (s.toList ++ ending.toList)).drop 19 = s.toList ++ ending.toList := by
    rw [← h19, List.drop_left]
  have h55 : (".local/destruction/".toList ++ (s.toList ++ ending.toList)).drop 55 = (s.toList ++ ending.toList).drop 36 := by
    rw [show 55 = 19 + 36 from rfl, ← List.drop_drop, hdrop]
  simp only [isExternalPath, hb, htake, hdrop, h55, Bool.and_eq_true, decide_eq_true_eq, true_and]
  constructor
  · rintro ⟨⟨hl, ha⟩, hd⟩
    have hlen := congrArg List.length hd
    simp only [List.length_drop, List.length_append, List.length_take] at hl hlen
    have hs : s.toList.length = 36 := by omega
    rw [← hs, List.take_left] at ha
    exact ⟨hs, ha⟩
  · rintro ⟨hs, ha⟩
    rw [← hs, List.take_left, List.drop_left]
    exact ⟨⟨rfl, ha⟩, rfl⟩

/-- What a valid plan says, as far as it is used. -/
structure Plan.Valid (t : Trust) (p : Plan) : Prop where
  runId : p.runId = p.intent.runId
  path : p.intent.externalIntentPath = intentPath p.runId
  conforms : p.intent.conforms t

theorem validatePlan_ok (h : validatePlan t p = .ok ()) : p.Valid t := by
  unfold validatePlan at h
  simp only at h
  split_ifs at h with h1 h2 h3 h4 h5 h6 h7 h8
  exact ⟨h3.1, not_not.mp (not_or.mp h6).1, by simpa using h7⟩

theorem conforms_parts {i : Intent} (hc : i.conforms t) :
    isUuid i.runId ∧ isArtifactId i.destructionIntentId ∧ isExternalPath ".intent.json" i.externalIntentPath := by
  simp only [Intent.conforms, Bool.and_eq_true] at hc
  obtain ⟨⟨⟨-, hu⟩, ha⟩, hp⟩ := hc
  exact ⟨hu, ha, hp⟩

/-- The deletion proof of a valid plan meets its schema. -/
theorem proof_conforms (hv : p.Valid t) (id : BitVec 256) : (deletionProof t p id).conforms := by
  obtain ⟨hu, ha, hp⟩ := conforms_parts hv.conforms
  rw [← hv.runId] at hu
  have h1 : ∃ c ∈ ".intent.json".toList.getLast?, c ≠ '\n' := ⟨'n', by simp, by decide⟩
  have h2 : ∃ c ∈ ".deletion-proof.json".toList.getLast?, c ≠ '\n' := ⟨'n', by simp, by decide⟩
  rw [hv.path] at hp
  have hp := (isExternalPath_iff (s := p.runId) h1).mp hp
  have hx : isExternalPath ".deletion-proof.json" (proofPath p.runId) := (isExternalPath_iff h2).mpr hp
  have hh : isHash (deletionProof t p id).contentHash := by
    rw [deletionProof_hash]
    exact isHash_hex _
  have hi : isArtifactId (deletionProof t p id).deletionProofId := isArtifactId_hex _
  have ht : isDateTime createdAt := by decide +kernel
  simp only [DeletionProof.conforms, Bool.and_eq_true]
  exact ⟨⟨⟨⟨⟨⟨⟨⟨⟨⟨hh, hi⟩, hu⟩, ha⟩, rfl⟩, rfl⟩, rfl⟩, hx⟩, rfl⟩, ht⟩, rfl⟩

/-! ## Documents are read back -/

theorem str_plain (s : String) : Plain (str s) := by
  show (text s).all isScalar
  simp [text, isScalar_toNat]

theorem strs_plain (l : List String) : Plain (strs l) := by
  show PlainItems (l.map str)
  induction l with
  | nil => trivial
  | cons s l ih => exact ⟨str_plain s, ih⟩

theorem record_plain {l : List (String × Doc)} (hl : ∀ m ∈ l, Plain m.2) : Plain (record l) := by
  refine dict_plain fun m hm => ?_
  obtain ⟨n, hn, rfl⟩ := List.mem_map.mp hm
  exact ⟨str_plain n.1, hl n hn⟩

theorem texts_plain (l : List (String × String)) : Plain (texts l) := by
  refine record_plain fun m hm => ?_
  obtain ⟨n, -, rfl⟩ := List.mem_map.mp hm
  exact str_plain n.2

theorem Receipt.fields_plain (r : Receipt) : ∀ m ∈ r.fields, Plain m.2 := by
  simp only [Receipt.fields, List.forall_mem_cons, str_plain, strs_plain, texts_plain, true_and]
  simp [Plain]

theorem Intent.doc_plain (i : Intent) : Plain i.doc := by
  refine record_plain ?_
  have hr := record_plain i.destructionGateReceipt.fields_plain
  simp only [Intent.fields, List.forall_mem_cons, str_plain, strs_plain, hr, true_and]
  simp [Plain]

theorem DeletionProof.doc_plain (p : DeletionProof) : Plain p.doc := by
  refine record_plain ?_
  simp only [DeletionProof.fields, List.forall_mem_cons, str_plain, true_and]
  simp [Plain]

theorem consumption_plain : Plain (consumption t p).doc := by
  refine record_plain fun m hm => ?_
  obtain ⟨c, hc, rfl⟩ := List.mem_map.mp hm
  have hall : ∀ c ∈ consumption t p, Plain c.2.doc := by
    simp only [consumption, List.forall_mem_cons, Cell.doc, str_plain, true_and]
    simp [Plain, maxSafe]
    split <;> simp
  exact hall c hc

/-- A member of a document that is a text. -/
def getText (d : Doc) (k : String) : Option String :=
  match d with
  | .obj l =>
    match l.lookup (text k) with
    | some (.str s) => some (String.ofList (s.map Char.ofNat))
    | _ => none
  | _ => none

def getBool (d : Doc) (k : String) : Option Bool :=
  match d with
  | .obj l =>
    match l.lookup (text k) with
    | some (.bool b) => some b
    | _ => none
  | _ => none

/-- A document of the closed shape of a deletion proof. -/
def readProof (d : Doc) : Option DeletionProof := do
  let contentHash ← getText d "content_hash"
  let deletionProofId ← getText d "deletion_proof_id"
  let runId ← getText d "run_id"
  let destructionIntentId ← getText d "destruction_intent_id"
  let extensionStoreState ← getText d "extension_store_state"
  let backendStoreState ← getText d "backend_store_state"
  let proofState ← getText d "proof_state"
  let externalProofPath ← getText d "external_proof_path"
  let secureErasureClaim ← getBool d "secure_erasure_claim"
  let completedAt ← getText d "completed_at"
  let immutable ← getBool d "immutable"
  let p : DeletionProof := ⟨contentHash, deletionProofId, runId, destructionIntentId, extensionStoreState,
    backendStoreState, proofState, externalProofPath, secureErasureClaim, completedAt, immutable⟩
  if p.doc = d then some p else none

theorem getText_record {l : List (String × Doc)} {k s : String} (hl : (l.map (·.1)).Nodup) (hm : (k, str s) ∈ l) :
    getText (record l) k = some s := by
  obtain ⟨m, hr, hk⟩ := lookup_record hl hm
  rw [hr]
  simp only [getText, hk, str, ofNat_text]

theorem getBool_record {l : List (String × Doc)} {k : String} {b : Bool} (hl : (l.map (·.1)).Nodup)
    (hm : (k, .bool b) ∈ l) : getBool (record l) k = some b := by
  obtain ⟨m, hr, hk⟩ := lookup_record hl hm
  rw [hr]
  simp only [getBool, hk]

theorem readProof_doc (p : DeletionProof) : readProof p.doc = some p := by
  have hn : (p.fields.map (·.1)).Nodup := by
    simp [DeletionProof.fields]
  have ht : ∀ k s, (k, str s) ∈ p.fields → getText p.doc k = some s := fun k s => getText_record hn
  have hb : ∀ k b, (k, .bool b) ∈ p.fields → getBool p.doc k = some b := fun k b => getBool_record hn
  rw [readProof, ht "content_hash" p.contentHash (by simp [DeletionProof.fields]),
    ht "deletion_proof_id" p.deletionProofId (by simp [DeletionProof.fields]),
    ht "run_id" p.runId (by simp [DeletionProof.fields]),
    ht "destruction_intent_id" p.destructionIntentId (by simp [DeletionProof.fields]),
    ht "extension_store_state" p.extensionStoreState (by simp [DeletionProof.fields]),
    ht "backend_store_state" p.backendStoreState (by simp [DeletionProof.fields]),
    ht "proof_state" p.proofState (by simp [DeletionProof.fields]),
    ht "external_proof_path" p.externalProofPath (by simp [DeletionProof.fields]),
    hb "secure_erasure_claim" p.secureErasureClaim (by simp [DeletionProof.fields]),
    ht "completed_at" p.completedAt (by simp [DeletionProof.fields]),
    hb "immutable" p.immutable (by simp [DeletionProof.fields])]
  exact if_pos rfl

end BettingHelper.Destruction
