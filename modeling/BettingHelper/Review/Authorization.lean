/-
  BettingHelper.Review.Authorization — a host's authorization to launch a review, and the
  receipt of the review's execution (`review_authorization.py`).

  The JSON schemas, SHA-256 and the Ed25519 check are parameters. Instants are microseconds
  from the beginning of the year 1.

  Proved (`receipt_within_iff`): the execution an accepted receipt tells of began and ended
  before the authorization expired and before now, and took four hours at most. That the
  authorization was not consumed before it was valid is checked nowhere.
-/

import BettingHelper.Lib.Checked
import BettingHelper.Lib.PyValue
import BettingHelper.Lib.DateTime

namespace BettingHelper.Review

open BettingHelper.Lib.Json BettingHelper.Lib.DateTime BettingHelper.Lib

inductive ReviewError where
  /-- `E_REVIEW_AUTH_SCHEMA` -/
  | authSchema
  /-- `E_REVIEW_AUTH_SIGNATURE` -/
  | authSignature
  /-- `E_REVIEW_AUTH_EXPIRY` -/
  | authExpiry
  /-- `E_REVIEW_AUTH_BINDING` -/
  | authBinding
  /-- `E_REVIEW_RECEIPT_FRESHNESS` -/
  | receiptFreshness
  /-- `E_REVIEW_RECEIPT_BINDING` -/
  | receiptBinding
  /-- `E_REVIEW_IDENTITY` -/
  | identity
  /-- A `KeyError`, or what rfc8785 raises. -/
  | other
  deriving DecidableEq, Repr

structure Host where
  /-- `_schema_validate` against a definition: it does not raise. -/
  schemaValid : String → Doc → Bool
  sha256 : List UInt8 → BitVec 256
  /-- Ed25519: `public_key.verify(signature, message)`. -/
  verify : List UInt8 → List UInt8 → List UInt8 → Bool
  /-- The integer a float equals. -/
  whole : Text → Option Int

def bytes (s : String) : List UInt8 := encode (text s)

def launchIdDomain : List UInt8 := bytes "HD636/REVIEW-LAUNCH/ID/v1" ++ [0]

def launchSignDomain : List UInt8 := bytes "HD636/REVIEW-LAUNCH/SIGN/v1" ++ [0]

def receiptIdDomain : List UInt8 := bytes "HD636/REVIEW-RECEIPT/ID/v1" ++ [0]

def receiptSignDomain : List UInt8 := bytes "HD636/REVIEW-RECEIPT/SIGN/v1" ++ [0]

def descendantIdentityFields : List String :=
  ["repository_qualification_receipt_sha256", "repository_identity_kind", "repository_commit_oid", "repository_tree_oid",
    "repository_file_tree_root_sha256"]

/-- `review_identity`: the values of the fields, in their order. -/
def reviewIdentity (value : Doc) : Except ReviewError (List Doc) := do
  require (dictGet value "repository_identity_kind" = str "DESCENDANT") .identity
  require (descendantIdentityFields.all fun f => match dictGet value f with
    | .str t => t ≠ []
    | _ => false) .identity
  return descendantIdentityFields.map (dictGet value)

/-- `_projection` -/
def projection (value : Doc) (excluded : List String) : Except ReviewError (List UInt8) :=
  match value with
  | .obj l =>
    match dumps some (.obj (l.filter fun m => excluded.all fun k => m.1 ≠ text k) : Doc) with
    | some t => .ok (encode t)
    | none => .error .other
  | _ => .error .other

/-- `_identifier` -/
def identifier (h : Host) (value : Doc) (label : String) (domain : List UInt8) (derived : String) : Except ReviewError Text := do
  let p ← projection value ["signature", derived]
  return text label ++ text (hex (h.sha256 (domain ++ p)))

/-- `_instant`, of a member. -/
def instantOf (value : Doc) (k : String) (e : ReviewError) : Except ReviewError Int :=
  match item value k with
  | none => .error .other
  | some (.str t) =>
    match instant (String.ofList (t.map Char.ofNat)) with
    | some i => .ok i
    | none => .error e
  | some _ => .error e

def keyId (h : Host) (publicKey : List UInt8) : Text := text "key:ed25519:" ++ text (hex (h.sha256 publicKey))

/-- `_verify_signature` -/
def verifySignature (h : Host) (value : Doc) (publicKey domain : List UInt8) : Except ReviewError Unit :=
  match dictGet value "signature" with
  | .str t =>
    match Base64.decode t with
    | none => .error .authSignature
    | some signature => do
      require (signature.length = 64) .authSignature
      let p ← projection value ["signature"]
      require (h.verify publicKey signature (domain ++ p)) .authSignature
  | _ => .error .authSignature

def mountOk (mount : Doc) : Bool :=
  (match mount with | .obj _ => true | _ => false) && dictGet mount "mode" = str "READ_ONLY" &&
    match dictGet mount "source_root" with
    | .str t => dictGet mount "workspace_mount" = .str t
    | _ => false

/-- `_verify_mounts` -/
def verifyMounts (authorization : Doc) : Except ReviewError Unit :=
  match dictGet authorization "input_mounts" with
  | .arr mounts => do
    require (mounts.length = 5) .authBinding
    require (mounts.all mountOk) .authBinding
    require (mounts.map fun m => dictGet m "source_root").Nodup .authBinding
  | _ => .error .authBinding

/-- Four hours. -/
def maximumDuration : Int := 14400 * 1000000

def verifyReviewLaunchAuthorization (h : Host) (authorization : Doc) (publicKey : List UInt8)
    (expectedRole expectedWorkspace expectedPackSha256 : Doc) (expectedHostBootId expectedTrustEpoch : Option Doc) (now : Int) :
    Except ReviewError Text := do
  require (h.schemaValid "ReviewLaunchAuthorization" authorization) .authSchema
  let expectedId ← identifier h authorization "REVIEW-LAUNCH:" launchIdDomain "authorization_id"
  require (dictGet authorization "authorization_id" = .str expectedId) .authBinding
  require (dictGet authorization "issuer_key_id" = .str (keyId h publicKey)) .authBinding
  verifySignature h authorization publicKey launchSignDomain
  let issued ← instantOf authorization "issued_at" .authExpiry
  let notBefore ← instantOf authorization "not_before" .authExpiry
  let expires ← instantOf authorization "expires_at" .authExpiry
  let is := fun k v => equal h.whole (dictGet authorization k) v
  require (is "production_authority" (str "NONE") && is "issuer_role" (str "HOST_REVIEW_AUTHORITY") &&
    is "audience" (str "hybrid-discovery:independent-review-launcher:v1") && is "signature_algorithm" (str "Ed25519") &&
    dictGet authorization "fresh_session_required" = .bool true && is "maximum_duration_seconds" (.int 14400)) .authBinding
  require (issued ≤ notBefore && notBefore ≤ now && now < expires && expires - issued = maximumDuration) .authBinding
  require (is "review_role" expectedRole && is "workspace_root" expectedWorkspace && is "pack_zip_sha256" expectedPackSha256 &&
    expectedHostBootId.all (is "host_boot_id") && expectedTrustEpoch.all (is "trust_epoch")) .authBinding
  verifyMounts authorization
  return expectedId

/-- `[mount["content_root_sha256"] for mount in mounts]` -/
def contentRoots (authorization : Doc) : Except ReviewError (List Doc) :=
  match dictGet authorization "input_mounts" with
  | .arr mounts =>
    match mounts.mapM (item · "content_root_sha256") with
    | some roots => .ok roots
    | none => .error .other
  | _ => .error .other

def need (value : Doc) (k : String) : Except ReviewError Doc :=
  match item value k with
  | some v => .ok v
  | none => .error .other

/-- A human attests to a session of its own for the review. -/
def freshSession (fresh : Doc) : Bool :=
  (match fresh with | .obj _ => true | _ => false) && dictGet fresh "attestation_type" = str "HUMAN_FRESH_CODEX_SESSION" &&
    dictGet fresh "attested" = .bool true && dictGet fresh "procedural_not_cryptographic" = .bool true

def sameIdentity (current : Bool) (receipt authorization : Doc) : Except ReviewError Unit :=
  if current then do
    let ours ← reviewIdentity receipt
    let theirs ← reviewIdentity authorization
    require (ours = theirs) .identity
  else .ok ()

/-- `now` is told, or the clock is read at each of the two checks: `launchNow`, then `now`. -/
def verifyReviewExecutionReceipt (h : Host) (receipt authorization : Doc) (publicKey : List UInt8) (resultSha256 : Text)
    (expectedHostBootId expectedTrustEpoch : Option Doc) (launchNow now : Int) : Except ReviewError Text := do
  let role ← need authorization "review_role"
  let workspace ← need authorization "workspace_root"
  let pack ← need authorization "pack_zip_sha256"
  let _ ← verifyReviewLaunchAuthorization h authorization publicKey role workspace pack expectedHostBootId expectedTrustEpoch launchNow
  require (h.schemaValid "ReviewExecutionReceipt" receipt) .authSchema
  let expectedId ← identifier h receipt "REVIEW-RECEIPT:" receiptIdDomain "receipt_id"
  let is := fun k v => equal h.whole (dictGet receipt k) v
  require (is "receipt_id" (.str expectedId)) .receiptBinding
  let issuerKeyId ← need authorization "issuer_key_id"
  require (is "issuer_key_id" issuerKeyId) .receiptBinding
  verifySignature h receipt publicKey receiptSignDomain
  let version ← need authorization "schema_version"
  let current := version = str "review-launch-authorization/v2"
  require (is "schema_version" (str (if current then "review-execution-receipt/v2" else "review-execution-receipt/v1"))) .identity
  sameIdentity current receipt authorization
  let expectedRoots ← contentRoots authorization
  let started ← instantOf receipt "started_at" .receiptFreshness
  let finished ← instantOf receipt "finished_at" .receiptFreshness
  let consumed ← instantOf receipt "authorization_consumed_at" .receiptFreshness
  let expires ← instantOf authorization "expires_at" .receiptFreshness
  require (["authorization_id", "review_role", "review_run_id", "workspace_root", "host_boot_id", "trust_epoch"].all fun k =>
    (item authorization k).any (is k)) .receiptBinding
  require (is "issuer_role" (str "HOST_REVIEW_AUTHORITY") && is "input_content_roots" (.arr expectedRoots) &&
    is "result_sha256" (.str resultSha256) && is "production_authority" (str "NONE") && is "signature_algorithm" (str "Ed25519") &&
    is "unexpected_changed_paths" (.arr [])) .receiptBinding
  require (match dictGet receipt "allowed_changed_paths" with
    | .arr l => l ≠ []
    | _ => false) .receiptBinding
  require (freshSession (dictGet receipt "fresh_session_attestation")) .receiptBinding
  require (consumed ≤ started && started ≤ finished && finished ≤ expires && finished ≤ now) .receiptBinding
  require (finished - started ≤ maximumDuration) .receiptBinding
  return expectedId

/-! ## The window -/

/-- The instants the window is told by. -/
structure Instants where
  notBefore : Int
  consumed : Int
  started : Int
  finished : Int
  expires : Int

def instants (receipt authorization : Doc) : Except ReviewError Instants := do
  let notBefore ← instantOf authorization "not_before" .authExpiry
  let consumed ← instantOf receipt "authorization_consumed_at" .receiptFreshness
  let started ← instantOf receipt "started_at" .receiptFreshness
  let finished ← instantOf receipt "finished_at" .receiptFreshness
  let expires ← instantOf authorization "expires_at" .receiptFreshness
  return { notBefore, consumed, started, finished, expires }

/-- The execution was within the window of its authorization, and is over. -/
def Instants.Within (i : Instants) (now : Int) : Prop :=
  i.notBefore ≤ i.consumed ∧ i.consumed ≤ i.started ∧ i.started ≤ i.finished ∧ i.finished ≤ i.expires ∧ i.finished ≤ now ∧
    i.finished - i.started ≤ maximumDuration

/-- The order of the instants of an accepted authorization. -/
theorem launch_instants {h : Host} {authorization : Doc} {publicKey : List UInt8} {role workspace pack : Doc}
    {hostBootId trustEpoch : Option Doc} {now : Int} {id : Text}
    (hok : verifyReviewLaunchAuthorization h authorization publicKey role workspace pack hostBootId trustEpoch now = .ok id) :
    ∃ issued notBefore expires, instantOf authorization "issued_at" .authExpiry = .ok issued ∧
      instantOf authorization "not_before" .authExpiry = .ok notBefore ∧
      instantOf authorization "expires_at" .authExpiry = .ok expires ∧
      issued ≤ notBefore ∧ notBefore ≤ now ∧ now < expires ∧ expires - issued = maximumDuration := by
  unfold verifyReviewLaunchAuthorization at hok
  obtain ⟨-, hok⟩ := require_bind_ok.mp hok
  obtain ⟨expectedId, -, hok⟩ := bind_ok.mp hok
  obtain ⟨-, hok⟩ := require_bind_ok.mp hok
  obtain ⟨-, hok⟩ := require_bind_ok.mp hok
  obtain ⟨⟨⟩, -, hok⟩ := bind_ok.mp hok
  obtain ⟨issued, hi, hok⟩ := bind_ok.mp hok
  obtain ⟨notBefore, hn, hok⟩ := bind_ok.mp hok
  obtain ⟨expires, he, hok⟩ := bind_ok.mp hok
  obtain ⟨-, hok⟩ := require_bind_ok.mp hok
  obtain ⟨hw, hok⟩ := require_bind_ok.mp hok
  refine ⟨issued, notBefore, expires, hi, hn, he, ?_⟩
  simp only [Bool.and_eq_true, decide_eq_true_eq] at hw
  exact ⟨hw.1.1.1, hw.1.1.2, hw.1.2, hw.2⟩

/-- The order of the instants of an accepted receipt. -/
theorem receipt_instants {h : Host} {receipt authorization : Doc} {publicKey : List UInt8} {resultSha256 : Text}
    {hostBootId trustEpoch : Option Doc} {launchNow now : Int} {id : Text}
    (hok : verifyReviewExecutionReceipt h receipt authorization publicKey resultSha256 hostBootId trustEpoch launchNow now = .ok id) :
    ∃ i, instants receipt authorization = .ok i ∧ i.notBefore ≤ launchNow ∧ i.consumed ≤ i.started ∧ i.started ≤ i.finished ∧
      i.finished ≤ i.expires ∧ i.finished ≤ now ∧ i.finished - i.started ≤ maximumDuration := by
  unfold verifyReviewExecutionReceipt at hok
  obtain ⟨role, -, hok⟩ := bind_ok.mp hok
  obtain ⟨workspace, -, hok⟩ := bind_ok.mp hok
  obtain ⟨pack, -, hok⟩ := bind_ok.mp hok
  obtain ⟨launchId, hl, hok⟩ := bind_ok.mp hok
  obtain ⟨-, notBefore, -, -, hn, -, -, hnow, -⟩ := launch_instants hl
  obtain ⟨-, hok⟩ := require_bind_ok.mp hok
  obtain ⟨expectedId, -, hok⟩ := bind_ok.mp hok
  obtain ⟨-, hok⟩ := require_bind_ok.mp hok
  obtain ⟨issuerKeyId, -, hok⟩ := bind_ok.mp hok
  obtain ⟨-, hok⟩ := require_bind_ok.mp hok
  obtain ⟨⟨⟩, -, hok⟩ := bind_ok.mp hok
  obtain ⟨version, -, hok⟩ := bind_ok.mp hok
  obtain ⟨-, hok⟩ := require_bind_ok.mp hok
  obtain ⟨⟨⟩, -, hok⟩ := bind_ok.mp hok
  obtain ⟨expectedRoots, -, hok⟩ := bind_ok.mp hok
  obtain ⟨started, hs, hok⟩ := bind_ok.mp hok
  obtain ⟨finished, hf, hok⟩ := bind_ok.mp hok
  obtain ⟨consumed, hc, hok⟩ := bind_ok.mp hok
  obtain ⟨expires, he, hok⟩ := bind_ok.mp hok
  obtain ⟨-, hok⟩ := require_bind_ok.mp hok
  obtain ⟨-, hok⟩ := require_bind_ok.mp hok
  obtain ⟨-, hok⟩ := require_bind_ok.mp hok
  obtain ⟨-, hok⟩ := require_bind_ok.mp hok
  obtain ⟨hw, hok⟩ := require_bind_ok.mp hok
  obtain ⟨hd, hok⟩ := require_bind_ok.mp hok
  simp only [Bool.and_eq_true, decide_eq_true_eq] at hw hd
  refine ⟨⟨notBefore, consumed, started, finished, expires⟩, ?_, hnow, hw.1.1.1, hw.1.1.2, hw.1.2, hw.2, hd⟩
  simp only [instants, hn, hc, hs, hf, he]
  rfl

/-- An accepted receipt tells of an execution within its window iff the authorization was not
consumed before it was valid. -/
theorem receipt_within_iff {h : Host} {receipt authorization : Doc} {publicKey : List UInt8} {resultSha256 : Text}
    {hostBootId trustEpoch : Option Doc} {launchNow now : Int} {id : Text}
    (hok : verifyReviewExecutionReceipt h receipt authorization publicKey resultSha256 hostBootId trustEpoch launchNow now = .ok id) :
    ∃ i, instants receipt authorization = .ok i ∧ (i.Within now ↔ i.notBefore ≤ i.consumed) := by
  obtain ⟨i, hi, -, hcs, hsf, hfe, hfn, hd⟩ := receipt_instants hok
  refine ⟨i, hi, fun hw => hw.1, fun hn => ?_⟩
  exact ⟨hn, hcs, hsf, hfe, hfn, hd⟩

/-! ## An authorization consumed before it was valid -/

section Early

/-- A digest of one digit. -/
def digest (c : Char) : Doc := .str (List.replicate 64 c.toNat)

def mount (root : String) (c : Char) : Doc :=
  record [("source_root", str root), ("workspace_mount", str root), ("mode", str "READ_ONLY"), ("content_root_sha256", digest c)]

/-! Of the key, of the authorization and of the receipts without identifier and signature, and of the result. -/

def reviewKeyHash : BitVec 256 := 0x434d258cb21a6a64c3ffa1913c948c05198e94b9c979123d596673d19843f320

def newYearHash : BitVec 256 := 0xd55a6bb6b1933e17895b3cb86172e851e3887c6be90e9499c1661bde2590d4b0

def earlyHash : BitVec 256 := 0x79b6e69c719ee80b87c311cb3798304791f98e0157a269d0eb5243db8269870e

def resultHash : BitVec 256 := 0x98d844ea900c08231a1f6e1e12a4aeacf82570dc71285911ff5e66c9f1bb1915

/-- Valid for four hours from the beginning of 2030. -/
def newYear : Doc := record [
  ("schema_version", str "review-launch-authorization/v1"), ("issuer_role", str "HOST_REVIEW_AUTHORITY"),
  ("audience", str "hybrid-discovery:independent-review-launcher:v1"), ("review_role", str "IMPLEMENTATION_READINESS_REVIEWER"),
  ("review_run_id", str "11111111-1111-4111-8111-111111111111"),
  ("pack_zip_sha256", digest 'a'),
  ("pack_manifest_sha256", digest 'b'),
  ("repo0_receipt_sha256", digest 'c'),
  ("repo0_commit_oid", .str (List.replicate 40 'd'.toNat)),
  ("repo0_tree_oid", .str (List.replicate 40 'e'.toNat)),
  ("repo0_file_tree_root_sha256", digest 'f'),
  ("workspace_root", str "/home/thenam176/betting-helper/review-workspaces/hybrid-discovery-v6.3.6/review-a"),
  ("input_mounts", .arr [
    mount "/sealed/input-0" '0',
    mount "/sealed/input-1" '1',
    mount "/sealed/input-2" '2',
    mount "/sealed/input-3" '3',
    mount "/sealed/input-4" '4']),
  ("excluded_roots", .arr [str "/authoring", str "/peer"]),
  ("allowed_output_root", str "/home/thenam176/betting-helper/reviews/hybrid-discovery-v6.3.6/review-a"),
  ("prompt_sha256", digest '1'),
  ("command_registry_sha256", digest '2'),
  ("issued_at", str "2030-01-01T00:00:00+00:00"), ("not_before", str "2030-01-01T00:00:00+00:00"),
  ("expires_at", str "2030-01-01T04:00:00+00:00"), ("maximum_duration_seconds", .int 14400),
  ("one_use_serial", .str (List.replicate 32 '3'.toNat)), ("nonce", .str (List.replicate 43 'A'.toNat)),
  ("fresh_session_required", .bool true), ("production_authority", str "NONE"), ("signature_algorithm", str "Ed25519"),
  ("host_boot_id", str "00000000-0000-0000-0000-000000000000"), ("trust_epoch", .int 0),
  ("issuer_key_id", .str (text "key:ed25519:" ++ text (hex reviewKeyHash))),
  ("authorization_id", .str (text "REVIEW-LAUNCH:" ++ text (hex newYearHash))),
  ("signature", str "L2CHGaJVnjTzzzEBhKc-1htjIGWuZvsjBgBjD0rAi1-_6eXaaHmh98sGboTlt1DXE4zU7j5Qeg-1FxJCo_gGAQ")]

/-- Consumed one hour before the window. -/
def earlyReceipt : Doc := record [
  ("schema_version", str "review-execution-receipt/v1"),
  ("authorization_id", .str (text "REVIEW-LAUNCH:" ++ text (hex newYearHash))),
  ("issuer_role", str "HOST_REVIEW_AUTHORITY"), ("review_role", str "IMPLEMENTATION_READINESS_REVIEWER"),
  ("review_run_id", str "11111111-1111-4111-8111-111111111111"),
  ("workspace_root", str "/home/thenam176/betting-helper/review-workspaces/hybrid-discovery-v6.3.6/review-a"),
  ("workspace_attestation_sha256", digest '4'),
  ("input_content_roots", .arr [digest '0', digest '1', digest '2', digest '3', digest '4']),
  ("result_sha256", .str (text (hex resultHash))),
  ("commands_executed_root", digest '5'),
  ("allowed_changed_paths", .arr [str "result.json"]), ("unexpected_changed_paths", .arr []),
  ("started_at", str "2030-01-01T00:00:01+00:00"), ("finished_at", str "2030-01-01T00:00:02+00:00"),
  ("authorization_consumed_at", str "2029-12-31T23:00:00+00:00"),
  ("fresh_session_attestation", record [
    ("attestation_type", str "HUMAN_FRESH_CODEX_SESSION"), ("attested", .bool true), ("attested_by", str "reviewer"),
    ("attested_at", str "2030-01-01T00:00:00+00:00"), ("procedural_not_cryptographic", .bool true)]),
  ("production_authority", str "NONE"), ("signature_algorithm", str "Ed25519"),
  ("host_boot_id", str "00000000-0000-0000-0000-000000000000"), ("trust_epoch", .int 0),
  ("preparation_commands_root", digest '6'),
  ("issuer_key_id", .str (text "key:ed25519:" ++ text (hex reviewKeyHash))),
  ("receipt_id", .str (text "REVIEW-RECEIPT:" ++ text (hex earlyHash))), ("signature", str "BtPVnf8mlJF06UH_JPG-Z3WB6m8L5FbtdyfjMIh-3vvK0KEaV31HihGMRiEd0FTm6N6jCFZAyRfah2Yk-N8aBQ")]

def reviewKey : List UInt8 := [
  0x2a, 0x42, 0x14, 0x66, 0x90, 0x3a, 0xf7, 0xe1, 0xb6, 0xb0, 0x34, 0x68, 0x7c, 0xef, 0xbb, 0xed,
  0xbb, 0xb6, 0x3d, 0xaa, 0x8e, 0x3f, 0xd9, 0xec, 0x50, 0xd0, 0x24, 0x2a, 0xeb, 0xa8, 0x18, 0xdd]

/-- The host on `newYear` and `earlyReceipt`: SHA-256 of what is hashed there. -/
def newYearHost : Host where
  schemaValid _ _ := true
  sha256 m :=
    if launchIdDomain.isPrefixOf m then newYearHash
    else if receiptIdDomain.isPrefixOf m then earlyHash
    else reviewKeyHash
  verify _ _ _ := true
  whole _ := none

/-- The receipt is accepted ten seconds into the window. -/
theorem early_accepted : (verifyReviewExecutionReceipt newYearHost earlyReceipt newYear reviewKey (text (hex resultHash)) none none
    64029052810000000 64029052810000000).isOk = true ∧
    (instants earlyReceipt newYear).toOption.map (fun i => (i.notBefore, i.consumed)) = some (64029052800000000, 64029049200000000) := by
  generalize ha : newYear = a, hr : earlyReceipt = r
  unfold verifyReviewExecutionReceipt verifyReviewLaunchAuthorization verifyMounts mountOk
  simp only [need, item, dictGet, keyId, instants, instantOf, instant, newYearHost, sameIdentity, contentRoots, freshSession,
    launchIdDomain, launchSignDomain, receiptIdDomain, receiptSignDomain, bytes, List.all_cons, List.all_nil, str]
  -- the literals of the two documents, then those of the code
  simp only [newYear, mount, digest, record, str, List.map_cons, List.map_nil] at ha
  simp only [earlyReceipt, digest, record, str, List.map_cons, List.map_nil] at hr
  repeat rewrite [text_ofList] at ha
  repeat rewrite [text_ofList] at hr
  repeat rewrite [text_ofList]
  rw [← ha, ← hr]
  simp only [hex, text, String.toList_ofList]
  decide +kernel

/-- An authorization consumed before it was valid, and the receipt is accepted. -/
theorem early_not_within : ¬∀ (h : Host) (receipt authorization : Doc) (publicKey : List UInt8) (resultSha256 : Text)
    (hostBootId trustEpoch : Option Doc) (launchNow now : Int) (id : Text),
    verifyReviewExecutionReceipt h receipt authorization publicKey resultSha256 hostBootId trustEpoch launchNow now = .ok id →
      ∃ i, instants receipt authorization = .ok i ∧ i.Within now := by
  intro hall
  obtain ⟨hok, hinstants⟩ := early_accepted
  cases hv : verifyReviewExecutionReceipt newYearHost earlyReceipt newYear reviewKey (text (hex resultHash)) none none
      64029052810000000 64029052810000000 with
  | error e =>
    rw [hv] at hok
    cases hok
  | ok id =>
    obtain ⟨i, hi, hw⟩ := hall _ _ _ _ _ _ _ _ _ _ hv
    rw [hi] at hinstants
    obtain ⟨hn, hc⟩ := Prod.mk.inj (Option.some.inj hinstants)
    have hle := hw.1
    omega

theorem receipt_within_early : ∃ id i, verifyReviewExecutionReceipt newYearHost earlyReceipt newYear reviewKey
    (text (hex resultHash)) none none 64029052810000000 64029052810000000 = .ok id ∧
    instants earlyReceipt newYear = .ok i ∧ (i.Within 64029052810000000 ↔ i.notBefore ≤ i.consumed) := by
  cases hv : verifyReviewExecutionReceipt newYearHost earlyReceipt newYear reviewKey (text (hex resultHash)) none none
      64029052810000000 64029052810000000 with
  | error e =>
    have hok := early_accepted.1
    rw [hv] at hok
    cases hok
  | ok id =>
    obtain ⟨i, hi, hw⟩ := receipt_within_iff hv
    exact ⟨id, i, rfl, hi, hw⟩

end Early

end BettingHelper.Review
