/-
  BettingHelper.Seal.Sealing — `seal_review_pack`, which writes the manifest, the archive,
  its sidecar and the attestation of a pack, and `verify_sealed_review_pack`, which seals a
  copy of the pack again and compares.

  The sealer writes to the disk as it goes, so it returns the disk it leaves. An output may
  lie in the pack, or be the same file as another.
-/

import BettingHelper.Seal.Pack

namespace BettingHelper.Seal

open BettingHelper.Lib.Json BettingHelper.Lib.DateTime

/-! ## Files on disk -/

inductive Place where
  | inside (r : Text)
  /-- A file out of the pack, by its identity. -/
  | outside (id : Text)
  deriving DecidableEq

/-- A path given for an output. -/
structure Target where
  name : Text
  /-- `path.resolve()`. -/
  resolved : Text
  place : Place
  /-- `path.is_relative_to(pack)`. -/
  relative : Bool
  /-- The path is its own `resolve()`, and what is there is a file with one link. -/
  plain : Bool

structure World where
  pack : Pack
  outside : Text → Option Bytes

def World.read (w : World) : Place → Option Bytes
  | .inside r => w.pack.read r
  | .outside id => w.outside id

def World.write (w : World) (p : Place) (b : Bytes) : Option World :=
  match p with
  | .inside r => (w.pack.write r b).map fun p => { w with pack := p }
  | .outside id => some { w with outside := Function.update w.outside id (some b) }

structure Outputs where
  zip : Target
  sidecar : Target
  attestation : Target

def Outputs.targets (o : Outputs) : List Target := [o.zip, o.sidecar, o.attestation]

variable {κ : Type} [DecidableEq κ] (t : Tools κ)

/-! ## The self-review -/

def noFutureSeal : Doc := .arr [record [("check_id", str "NO_FUTURE_SEAL_IDENTITY"), ("result", str "PASS")]]

/-- `_descendant_self_review`. -/
def descendantSelfReview (p : Pack) (c : κ) : Option Doc := do
  let copied ← t.assembly p (t.sourcePath c)
  guard (copied = c ∧ t.hasDescendantReceipt c)
  let receipt ← t.qualification c
  let governed ← verifiedGovernedRoot t p
  let root ← get governed "root_sha256"
  let own ← p.read descendantReceipt
  let tasks ← p.read taskManifest
  some (record [("schema_version", str "runtime-self-review/v2"), ("governed_content_root", root),
    ("repository_qualification_receipt_sha256", .str (hexdigest t own)),
    ("candidate_qualification_sha256", receipt.candidateQualificationSha256),
    ("task_manifest_sha256", .str (hexdigest t tasks)), ("command_result_root", receipt.commandResultRoot),
    ("repository_identity_kind", receipt.repositoryIdentityKind), ("repository_commit_oid", receipt.repositoryCommit),
    ("repository_tree_oid", receipt.repositoryTree),
    ("repository_file_tree_root_sha256", receipt.repositoryFileRootSha256), ("checks", noFutureSeal),
    ("authority_granted", str "NONE")])

/-- `f"{value}"` of the governed root, which is a text. -/
def plainText (d : Doc) : Text :=
  match d with
  | .str s => s
  | _ => []

/-- `_self_review_bytes`. -/
def selfReviewBytes (r : Doc) : Option (Bytes × Bytes) := do
  let root ← get r "governed_content_root"
  some (line r, encode (text "# Runtime self-review\n\nGoverned content root: `" ++ plainText root ++
    text "`.\n\nAuthority granted: NONE.\n"))

/-- `build_runtime_self_review`, of a descendant's pack. -/
def buildRuntimeSelfReview (p : Pack) (c : κ) : Option Pack := do
  let b ← p.read descendantReceipt
  let s ← t.detected b
  let receipt ← (loads (plainHooks ()) s).toOption
  guard (get receipt "schema_version" = some (str "descendant-repository-qualification-receipt/v1"))
  let r ← descendantSelfReview t p c
  let (json, markdown) ← selfReviewBytes r
  let p ← p.write reviewJson json
  p.write reviewMarkdown markdown

/-! ## Sealing -/

def isHexDigit (c : Nat) : Bool := (0x30 ≤ c && c ≤ 0x39) || (0x61 ≤ c && c ≤ 0x66)

/-- `_hex`. -/
def isHex (length : Nat) (d : Option Doc) : Bool :=
  match d with
  | some (.str s) => s.length = length && s.all isHexDigit
  | _ => false

def receiptHashes : List String :=
  ["baseline_file_root_sha256", "candidate_qualification_sha256", "candidate_command_evidence_sha256",
   "command_result_root", "baseline_registry_sha256", "vendor_root_sha256", "normative_source_map_sha256",
   "normative_source_set_root"]

/-- What `_validate_inputs` asks of the three documents of a baseline's pack. -/
def inputsOk (governed review receipt : Doc) : Bool :=
  get governed "schema_version" = some (str "governed-content-root/v1") &&
  get governed "algorithm" = some (str "HD636-GOVERNED-ROOT-SHA256-v1") &&
  get review "authority_granted" = some (str "NONE") &&
  get review "schema_version" = some (str "runtime-self-review/v1") &&
  ["manifest_sha256", "zip_sha256", "sidecar_sha256"].all (fun k => (get review k).isNone) &&
  get receipt "schema_version" = some (str "repo0-baseline-receipt/v2") &&
  get receipt "production_authority" = some (str "NONE") &&
  isHex 64 (get governed "root_sha256") && receiptHashes.all (fun k => isHex 64 (get receipt k)) &&
  isHex 40 (get receipt "baseline_commit") && isHex 40 (get receipt "baseline_tree")

/-- `_validate_inputs`. -/
def validateInputs (p : Pack) (context : Option κ) : Option Doc :=
  match context with
  | some c => do
    let r ← descendantSelfReview t p c
    let (json, markdown) ← selfReviewBytes r
    guard (p.read reviewJson = some json ∧ p.read reviewMarkdown = some markdown)
    some r
  | none => do
    guard ((p.node descendantReceipt).isNone)
    let governed ← (p.read governedRootFile).bind readObject
    let review ← (p.read reviewJson).bind readObject
    let receipt ← (p.read repo0Receipt).bind readObject
    guard (inputsOk governed review receipt)
    some receipt

/-- `_write_zip`: the archive is opened before the pack is walked, so an archive in the pack
is among its own members, with the bytes `flushed` by then. -/
def writeZip (flushed : Bytes) (w : World) (target : Target) : Option World := do
  guard (target.relative = false)
  let w ← w.write target.place []
  let files ← safeFiles t w.pack true false
  let files := files.map fun m => if target.place = .inside m.1 then (m.1, flushed) else m
  w.write target.place (t.zip files)

/-- What every attestation says. -/
def commonFields (now : Text) (p : Pack) (z : Bytes) (receipt : Doc) : Option (List (String × Doc)) := do
  let manifest ← p.read manifestFile
  let governed ← (p.read governedRootFile).bind readObject
  let root ← get governed "root_sha256"
  let markdown ← p.read reviewMarkdown
  let json ← p.read reviewJson
  let tasks ← p.read taskManifest
  let candidate ← get receipt "candidate_qualification_sha256"
  some [("artifact_type", str "RUNTIME_PACK"), ("artifact", .str p.name), ("authorized_production_phases", str "NONE"),
    ("created_at", .str now), ("zip_sha256", .str (hexdigest t z)), ("manifest_sha256", .str (hexdigest t manifest)),
    ("governed_content_root", root), ("self_review_markdown_sha256", .str (hexdigest t markdown)),
    ("self_review_json_sha256", .str (hexdigest t json)), ("task_manifest_sha256", .str (hexdigest t tasks)),
    ("candidate_receipt_sha256", candidate)]

/-- What it says by its version. -/
def versionFields (p : Pack) (receipt : Doc) : Option (List (String × Doc)) :=
  if get receipt "schema_version" = some (str "runtime-self-review/v2") then do
    let qualification ← get receipt "repository_qualification_receipt_sha256"
    let kind ← get receipt "repository_identity_kind"
    let commit ← get receipt "repository_commit_oid"
    let tree ← get receipt "repository_tree_oid"
    let fileRoot ← get receipt "repository_file_tree_root_sha256"
    some [("schema_version", str "external-seal-attestation/v7"), ("repository_qualification_receipt_sha256", qualification),
      ("repository_identity_kind", kind), ("repository_commit_oid", commit), ("repository_tree_oid", tree),
      ("repository_file_tree_root_sha256", fileRoot)]
  else do
    let repo0 ← p.read repo0Receipt
    let fileRoot ← get receipt "baseline_file_root_sha256"
    let commit ← get receipt "baseline_commit"
    let tree ← get receipt "baseline_tree"
    some [("schema_version", str "external-seal-attestation/v6"), ("repo0_receipt_sha256", .str (hexdigest t repo0)),
      ("baseline_file_root_sha256", fileRoot), ("baseline_commit", commit), ("baseline_tree", tree)]

/-- `_attestation`. -/
def attestation (now : Text) (p : Pack) (z : Bytes) (receipt : Doc) : Option Doc := do
  let version ← versionFields t p receipt
  let common ← commonFields t now p z receipt
  some (record (version ++ common))

/-- The text of the sidecar. -/
def sidecarText (z : Bytes) (name : Text) : Text := hexdigest t z ++ text "  " ++ name ++ text "\n"

/-- `_current_external_paths`. -/
def externalPaths (o : Outputs) : Bool := o.targets.all fun x => x.plain && !x.relative

/-- `seal_review_pack`. -/
def sealReviewPack (now : Text) (flushed : Bytes) (w : World) (o : Outputs) (context : Option κ) : Option (World × Doc) := do
  guard (o.targets.map (·.resolved)).Nodup
  guard (context.isSome → externalPaths o)
  let receipt ← validateInputs t w.pack context
  let pack ← writeManifest t w.pack
  let w ← writeZip t flushed { w with pack } o.zip
  let z ← w.read o.zip.place
  guard (o.zip.name.all isScalar)
  let w ← w.write o.sidecar.place (encode (sidecarText t z o.zip.name))
  let record ← attestation t now w.pack (← w.read o.zip.place) receipt
  let w ← w.write o.attestation.place (line record)
  some (w, record)

/-! ## Verifying -/

/-- The four arguments that give the context of a descendant's pack: none of them, all
(the config's recorded locator, and whether the other three are the pack's own), or some. -/
inductive Context where
  | absent
  | given (recorded : Text) (own : Bool)
  | partly

/-- `read_text` translates line ends. -/
def newlines : Text → Text
  | 0x0d :: 0x0a :: s => 0x0a :: newlines s
  | 0x0d :: s => 0x0a :: newlines s
  | c :: s => c :: newlines s
  | [] => []

/-- A path in the new temporary directory. -/
def temporary (pack : Pack) (x : Target) : Target :=
  { name := x.name
    resolved := x.name
    place := if x.name = pack.name then .inside [] else .outside x.name
    relative := x.name = pack.name
    plain := t.temporaryResolved }

def temporaryOutputs (pack : Pack) (o : Outputs) : Outputs :=
  { zip := temporary t pack o.zip
    sidecar := temporary t pack o.sidecar
    attestation := temporary t pack o.attestation }

/-- `expected["created_at"] = value`. -/
def setCreatedAt (d value : Doc) : Doc :=
  match d with
  | .obj l => .obj (l.map fun m => if m.1 = text "created_at" then (m.1, value) else m)
  | d => d

def isV7 (a : Doc) : Bool := get a "schema_version" = some (str "external-seal-attestation/v7")

/-- The context of an attestation of a descendant's pack; a baseline's has none. -/
def loadContext (w : World) (o : Outputs) (a : Doc) (given : Context) : Option (Option (κ × Text)) :=
  if isV7 a then
    match given with
    | .given recorded true => do
      let c ← t.assembly w.pack recorded
      guard (externalPaths o)
      let _ ← validateInputs t w.pack (some c)
      some (some (c, recorded))
    | _ => none
  else
    match given with
    | .absent => some none
    | _ => none

/-- The checks on the attestation and the sidecar that need no reconstruction. -/
def externalOk (a : Doc) (z sidecar : Bytes) (name : Text) : Bool :=
  (get a "schema_version" = some (str "external-seal-attestation/v6") || isV7 a) &&
  get a "artifact_type" = some (str "RUNTIME_PACK") && get a "authorized_production_phases" = some (str "NONE") &&
  get a "zip_sha256" = some (.str (hexdigest t z)) && (decode sidecar).map newlines = some (sidecarText t z name) &&
  match get a "created_at" with
  | none => false
  | some d =>
    if isV7 a then
      match d with
      | .str s => isDateTime (String.ofList (s.map Char.ofNat))
      | _ => false
    else t.isIsoFormat d

/-- The copy with its governed root and, of a descendant's pack, its self-review built
again. -/
def rebuild (p : Pack) (context : Option (κ × Text)) : Option (Pack × Option κ) := do
  let copy ← p.copy t
  let (rebuilt, _) ← computeGovernedContentRoot t copy
  match context with
  | none => some (rebuilt, none)
  | some (_, recorded) => do
    let c ← t.assembly rebuilt recorded
    let rebuilt ← buildRuntimeSelfReview t rebuilt c
    some (rebuilt, some c)

/-- `verify_sealed_review_pack`. -/
def verifySealedReviewPack (now : Text) (w : World) (o : Outputs) (given : Context) : Option Doc := do
  let _ ← safeFiles t w.pack true true
  let a ← (w.read o.attestation.place).bind readObject
  let context ← loadContext t w o a given
  let z ← w.read o.zip.place
  let sidecar ← w.read o.sidecar.place
  guard (externalOk t a z sidecar o.zip.name)
  let (rebuilt, c) ← rebuild t w.pack context
  let paths := temporaryOutputs t w.pack o
  let (after, expected) ← sealReviewPack t now [] ⟨rebuilt, fun _ => none⟩ paths c
  let created ← get a "created_at"
  guard (setCreatedAt expected created = a)
  guard (after.read paths.zip.place = some z)
  guard (isV7 a → (exclusions.all fun r => (after.pack.read r).isSome && after.pack.read r = w.pack.read r) ∧
    after.read paths.sidecar.place = some sidecar)
  some a

end BettingHelper.Seal
