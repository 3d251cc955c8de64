/-
  BettingHelper.Trees.Roots — the three roots of a directory tree: the governed content
  root, the root of the vendored tree, and the hash a pack's manifest declares.

  Each is the SHA-256 of a framing of the sorted list of files: a path behind its length
  before a digest, or a path, a decimal size and a hexadecimal digest in a line. A file name
  may hold a newline, and no NUL. An error of any text is an error here.
-/

import BettingHelper.Lib.Framing
import BettingHelper.Seal.Pack
import BettingHelper.Hashing.Preimage

namespace BettingHelper.Trees

open BettingHelper.Lib.Json BettingHelper.Lib.Framing BettingHelper.Seal

variable {κ : Type} (t : Tools κ)

/-! ## The walk -/

def parts (r : Text) : List Text := r.splitOn slash

/-- `_valid_repo_path`. -/
def validRepoPath (r : Text) : Bool :=
  !(r.any fun c => c = 0xfeff || c = '\\'.toNat || c = 0) && t.nfc r = r && (parts r).all (· ∉ [[], text ".", text ".."])

/-- A character `_PORTABLE_PATH` admits. -/
def portableChar (c : Nat) : Bool :=
  ('A'.toNat ≤ c && c ≤ 'Z'.toNat) || ('a'.toNat ≤ c && c ≤ 'z'.toNat) || isDigit c ||
    c = '.'.toNat || c = '_'.toNat || c = '/'.toNat || c = '-'.toNat

/-- `_safe_relative_path` returns. -/
def safeRelativePath (r : Text) : Bool :=
  t.nfc r = r && r.all portableChar && (parts r).all (· ∉ [[], text ".", text ".."])

/-- `visit`: the regular files, when no path is refused, a directory's among them, nothing is
a link and no file has two. -/
def visit (good : Text → Bool) : List (Text × Node) → Option (List (Text × Bytes))
  | [] => some []
  | (r, .directory) :: l => if good r then visit good l else none
  | (r, .file b links) :: l => if good r && links = 1 then (visit good l).map ((r, b) :: ·) else none
  | _ :: _ => none

/-! ## The roots -/

/-- What `compute_governed_content_root` asks of the registry it is given. -/
def acceptsRegistry (registry : Bytes) : Bool :=
  match readObject registry with
  | none => false
  | some d =>
    get d "schema_version" = some (str "seal-exclusions/v2") &&
    get d "governed_root_exclusions" = some (.arr (exclusions.map .str)) &&
    get d "external_outputs_must_be_outside_root" = some (.bool true)

def leafOf (m : Text × Bytes) : Bytes := fileDomain ++ encode m.1 ++ [0] ++ digestBytes (t.sha256 m.2)

def rootOf (files : List (Text × Bytes)) : Bytes := rootDomain ++ files.flatMap (framed t)

/-- `compute_governed_content_root`: the pack with the record in it, and the root. -/
def computeGovernedContentRoot (registry : Bytes) (p : Pack) : Option (Pack × Text) := do
  guard (acceptsRegistry registry)
  let files ← governedFiles t p
  guard (files.all fun m => (encode m.1).length < 2 ^ 32)
  let root := hexdigest t (rootOf t files)
  let p ← p.write governedRootFile (line (record [("schema_version", str "governed-content-root/v1"),
    ("algorithm", str "HD636-GOVERNED-ROOT-SHA256-v1"), ("root_sha256", .str root), ("file_count", .int files.length),
    ("exclusion_registry", .str exclusionRegistry)]))
  some (p, root)

/-- A path, a size and a digest, as `compute_vendor_tree_root` and `_verify_pack` join them. -/
def treeLine (m : Text × Nat × Text) : Bytes :=
  encode m.1 ++ [0] ++ encode (decimal m.2.1) ++ [0] ++ encode m.2.2 ++ [0x0a]

def sized (m : Text × Bytes) : Text × Nat × Text := (m.1, m.2.length, hexdigest t m.2)

def schemaManifest : Text := text "SCHEMA_SHA256.json"

def computeVendorTreeRoot (p : Pack) : Option Text := do
  guard p.isDirectory
  let files ← visit (validRepoPath t) p.entries
  let files := files.filter (·.1 ≠ schemaManifest)
  guard (files.all (·.1.all isScalar))
  some (hexdigest t ((sortFiles files).flatMap fun m => treeLine (sized t m)))

/-! ## The manifest of a pack -/

def packDirectoryName : Text := text "hybrid-discovery-v6.2"

def sourceFiles (p : Pack) : Option (List (Text × Bytes)) := do
  guard (p.name = packDirectoryName && p.isDirectory)
  visit (safeRelativePath t) p.entries

/-- `set(_) == {...}`. -/
def keysAre (l : List (Text × Doc)) (names : List String) : Bool :=
  (l.map (·.1)).all (· ∈ names.map text) && names.all (text · ∈ l.map (·.1))

/-- A value that is a SHA-256 in hexadecimal. -/
def digestText : Option Doc → Option Text
  | some (.str s) => if Wire.hex64 s then some s else none
  | _ => none

/-- One of the manifest's files: its path, size and digest. -/
def declaredFile : Doc → Option (Text × Nat × Text)
  | .obj l =>
    if keysAre l ["path", "size_bytes", "sha256"] then
      match l.lookup (text "path"), l.lookup (text "size_bytes"), digestText (l.lookup (text "sha256")) with
      | some (.str path), some (.int size), some digest =>
        if 0 ≤ size ∧ size ≤ maxSafe ∧ safeRelativePath t path ∧ path ≠ manifestFile then some (path, size.toNat, digest)
        else none
      | _, _, _ => none
    else none
  | _ => none

/-- `rfc8785.dumps(_) + b"\n"`. -/
def jcsLine (d : Doc) : Option Bytes := (dumps some d).map fun s => encode s ++ [0x0a]

/-- What the manifest is asked for, apart from the files it lists: its hash and these. -/
def manifestFields : Doc → Option (Text × List Doc)
  | .obj l =>
    if keysAre l ["schema_version", "pack_version", "pack_hash", "implementation_baseline_hash", "files",
        "self_excluded_path", "production_authority"] ∧
      l.lookup (text "schema_version") = some (str "pack-manifest/v1") ∧ l.lookup (text "pack_version") = some (str "6.2") ∧
      l.lookup (text "self_excluded_path") = some (.str manifestFile) ∧
      l.lookup (text "production_authority") = some (str "NONE") ∧
      (digestText (l.lookup (text "implementation_baseline_hash"))).isSome then
      match digestText (l.lookup (text "pack_hash")), l.lookup (text "files") with
      | some hash, some (.arr items) => if items ≠ [] ∧ items.length ≤ 4096 then some (hash, items) else none
      | _, _ => none
    else none
  | _ => none

/-- `_verify_pack` of the files of a pack: the pack hash it accepts. -/
def verifyFiles (files : List (Text × Bytes)) : Option Text := do
  let raw ← files.lookup manifestFile
  let manifest ← (Wire.parseStrictJson (fun s => t.nfc s = s) raw).toOption
  let (hash, items) ← manifestFields manifest
  let declared ← items.mapM (declaredFile t)
  guard (declared.map (·.1)).Nodup
  guard (jcsLine manifest = some raw)
  guard ((declared.map (·.1)).Pairwise fun a b => encode a ≤ encode b)
  guard (files.all fun m => m.1 = manifestFile || m.1 ∈ declared.map (·.1))
  guard (declared.all fun d => (files.lookup d.1).any fun b => (b.length, hexdigest t b) = d.2)
  guard (hexdigest t (declared.flatMap treeLine) = hash)
  some hash

/-- `_verify_pack`: the pack hash it accepts and the files it returns. -/
def verifyPack (p : Pack) : Option (Text × List (Text × Bytes)) := do
  let files ← sourceFiles t p
  let hash ← verifyFiles t files
  some (hash, files)

end BettingHelper.Trees
