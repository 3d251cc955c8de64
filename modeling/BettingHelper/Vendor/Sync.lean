/-
  BettingHelper.Vendor.Sync — the pack's governed files copied below `vendor/`, with a
  manifest of them and a lock.

  `sync_pack_assets` walks what is vendored, reads the pack's source map, and then either
  compares (`check`) or copies file by file and writes the two artifacts. What it reads and
  what it writes are two trees: the pack's `docs` and a runtime root.
-/

import BettingHelper.Lib.Checked
import BettingHelper.Lib.JsonIndent
import BettingHelper.Lib.PyValue
import BettingHelper.Vendor.Paths

namespace BettingHelper.Vendor

open BettingHelper.Lib.Json BettingHelper.Lib.FileTree

abbrev Bytes := List UInt8

/-- A regular file: `S_IMODE`, `st_nlink` and what is in it. -/
structure VendorFile where
  mode : Nat
  links : Nat
  bytes : Bytes
  deriving DecidableEq

/-- What stands behind `E_VENDOR:`. -/
inductive Code where
  | path
  | entry
  | symlink
  | hardlink
  | mode
  | map
  | source
  | hash
  | collision
  | reserved
  | fileSet
  | bytes
  | taskRegistry
  | manifest
  | packRequired
  deriving DecidableEq, Repr

inductive VendorError where
  /-- `ValueError("E_VENDOR:…")`, and the path or name it ends with, if it does. -/
  | vendor (code : Code) (detail : Option Text)
  /-- An exception of Python's own. -/
  | python
  deriving DecidableEq

/-- What the tools run on. -/
structure Host where
  sha256 : Bytes → BitVec 256
  /-- `unicodedata.normalize("NFC", _)` -/
  nfc : Text → Text
  system : Tree.System Name
  /-- The integer that a float equals. -/
  whole : Text → Option Int
  /-- `str(_)` of what is neither text nor integer. -/
  shown : Doc → Text

variable (host : Host)

def hexdigest (b : Bytes) : Text := text (hex (host.sha256 b))

def component (s : String) (h : Component (text s)) : Name := ⟨text s, h⟩

def manifestName : Name := component "SCHEMA_SHA256.json" (by decide)

/-- `MANIFEST`, below the vendor directory. -/
def manifestPath : Path := [manifestName]

def mapPath : Path := [component "registries" (by decide), component "normative-source-map.v1.json" (by decide)]

def registryPath : Path :=
  [component "docs" (by decide), component "registries" (by decide), component "task-command-registry.v1.json" (by decide)]

/-! ## The walk -/

/-- What `walk` asks of the entry at a path. No name in a directory is empty or made of dots. -/
def visit (p : Path) (e : Entry VendorFile) : Except VendorError (Option VendorFile) :=
  if p.any (fun n => host.nfc n.val ≠ n.val) then .error (.vendor .path (posix p))
  else match e with
    | .symlink _ => .error (.vendor .symlink (posix p))
    | .directory => .ok none
    | .special => .error (.vendor .entry (posix p))
    | .file f =>
      if f.links ≠ 1 then .error (.vendor .hardlink (posix p))
      else if f.mode ≠ 0o644 ∧ f.mode ≠ 0o755 then .error (.vendor .mode (posix p))
      else .ok (some f)

def walk : List (Path × Entry VendorFile) → Except VendorError (List (Path × VendorFile))
  | [] => .ok []
  | (p, e) :: l => do
    match ← visit host p e with
    | some f => return (p, f) :: (← walk l)
    | none => walk l

/-- `_tree_files`: every file below the root. -/
def treeFiles (t : Tree Name VendorFile) (missingOk : Bool) : Except VendorError (List (Path × VendorFile)) :=
  match t.find [] with
  | none => if missingOk then .ok [] else .error (.vendor .entry (posix []))
  | some (.symlink _) => .error (.vendor .symlink (posix []))
  | some .directory => walk host (t.entries.filter (·.1 ≠ []))
  | some _ => .error (.vendor .entry (posix []))

def asFile (m : Path × Entry VendorFile) : Option (Path × VendorFile) :=
  match m.2 with
  | .file f => some (m.1, f)
  | _ => none

/-- The files below the root, by kind alone. -/
def filesBelow (t : Tree Name VendorFile) : List (Path × VendorFile) := (t.entries.filter (·.1 ≠ [])).filterMap asFile

/-- What a walk lets pass. -/
structure Passes (m : Path × Entry VendorFile) : Prop where
  normalized : ∀ n ∈ m.1, host.nfc n.val = n.val
  kind : m.2 = .directory ∨ ∃ f, m.2 = .file f ∧ f.links = 1 ∧ (f.mode = 0o644 ∨ f.mode = 0o755)

section Walk

variable {host} {t : Tree Name VendorFile} {fs : List (Path × VendorFile)}

theorem visit_ok {p : Path} {e : Entry VendorFile} {o : Option VendorFile} : visit host p e = .ok o ↔
    Passes host (p, e) ∧ (asFile (p, e)) = o.map (p, ·) := by
  have hnfc : p.any (fun n => host.nfc n.val ≠ n.val) = false ↔ ∀ n ∈ p, host.nfc n.val = n.val := by
    simp [List.any_eq_false]
  unfold visit
  split_ifs with hp
  · refine iff_of_false (by simp) fun h => ?_
    rw [hnfc.mpr h.1.normalized] at hp
    cases hp
  · have hp := hnfc.mp (Bool.eq_false_iff.mpr hp)
    cases e with
    | directory =>
      constructor
      · intro h
        cases h
        exact ⟨⟨hp, .inl rfl⟩, rfl⟩
      · rintro ⟨-, h⟩
        cases o with
        | none => rfl
        | some f => cases h
    | symlink target => exact iff_of_false (by simp) fun h => by rcases h.1.kind with h | ⟨f, h, -⟩ <;> cases h
    | special => exact iff_of_false (by simp) fun h => by rcases h.1.kind with h | ⟨f, h, -⟩ <;> cases h
    | file f =>
      show (if f.links ≠ 1 then _ else if f.mode ≠ 0o644 ∧ f.mode ≠ 0o755 then _ else Except.ok (some f)) = _ ↔ _
      by_cases hl : f.links = 1
      · by_cases hm : f.mode = 0o644 ∨ f.mode = 0o755
        · rw [if_neg (not_not.mpr hl), if_neg (by rw [not_and_or, not_not, not_not]; exact hm), Except.ok.injEq]
          constructor
          · rintro rfl
            exact ⟨⟨hp, .inr ⟨f, rfl, hl, hm⟩⟩, rfl⟩
          · rintro ⟨-, h⟩
            cases o with
            | none => cases h
            | some g => cases h; rfl
        · rw [if_neg (not_not.mpr hl), if_pos (not_or.mp hm)]
          refine iff_of_false (by simp) fun h => ?_
          rcases h.1.kind with h | ⟨g, h, -, hg⟩
          · cases h
          · cases h
            exact hm hg
      · rw [if_pos hl]
        refine iff_of_false (by simp) fun h => ?_
        rcases h.1.kind with h | ⟨g, h, hg, -⟩
        · cases h
        · cases h
          exact hl hg

theorem walk_ok {l : List (Path × Entry VendorFile)} : walk host l = .ok fs ↔ (∀ m ∈ l, Passes host m) ∧ fs = l.filterMap asFile := by
  induction l generalizing fs with
  | nil => simp [walk, eq_comm]
  | cons m l ih =>
    obtain ⟨p, e⟩ := m
    rw [walk, Lib.bind_ok, List.forall_mem_cons, List.filterMap_cons]
    constructor
    · rintro ⟨o, ho, hr⟩
      obtain ⟨hpass, hfile⟩ := visit_ok.mp ho
      rw [hfile]
      cases o with
      | none =>
        obtain ⟨hl, he⟩ := ih.mp hr
        exact ⟨⟨hpass, hl⟩, he⟩
      | some f =>
        obtain ⟨gs, hg, he⟩ := Lib.bind_ok.mp hr
        obtain ⟨hl, rfl⟩ := ih.mp hg
        exact ⟨⟨hpass, hl⟩, (Lib.pure_ok.mp he).symm⟩
    · rintro ⟨⟨hpass, hl⟩, he⟩
      have hall := ih.mpr ⟨hl, rfl⟩
      rcases hpass.kind with hd | ⟨f, hf, -⟩
      · obtain rfl : e = .directory := hd
        exact ⟨none, visit_ok.mpr ⟨hpass, rfl⟩, by rw [hall, he]; rfl⟩
      · obtain rfl : e = .file f := hf
        exact ⟨some f, visit_ok.mpr ⟨hpass, rfl⟩, Lib.bind_ok.mpr ⟨_, hall, by rw [he]; rfl⟩⟩

theorem treeFiles_ok : treeFiles host t false = .ok fs ↔ t.find [] = some .directory ∧
    (∀ p e, p ≠ [] → t.find p = some e → Passes host (p, e)) ∧ fs = filesBelow t := by
  have hmem : (∀ m ∈ t.entries.filter (·.1 ≠ []), Passes host m) ↔ ∀ p e, p ≠ [] → t.find p = some e → Passes host (p, e) := by
    constructor
    · exact fun h p e hp he => h (p, e) (List.mem_filter.mpr ⟨Tree.mem_iff_find.mpr he, decide_eq_true hp⟩)
    · rintro h ⟨p, e⟩ hm
      obtain ⟨hm, hp⟩ := List.mem_filter.mp hm
      exact h p e (of_decide_eq_true hp) (Tree.mem_iff_find.mp hm)
  unfold treeFiles
  split
  · next h => simp [h]
  · next h => simp [h]
  · next h => rw [walk_ok, hmem]; simp [h, filesBelow]
  · next e hlink hdir h => exact iff_of_false (by simp) fun hf => hdir (Option.some.inj (h.symm.trans hf.1))

/-- Where nothing is there, the walk that may miss its root finds no file. -/
theorem treeFiles_missing : treeFiles host t true = .ok fs ↔ t.find [] = none ∧ fs = [] ∨ treeFiles host t false = .ok fs := by
  unfold treeFiles
  cases t.find [] with
  | none => simp [eq_comm]
  | some e => cases e <;> simp

theorem mem_filesBelow {p : Path} {f : VendorFile} : (p, f) ∈ filesBelow t ↔ p ≠ [] ∧ t.find p = some (.file f) := by
  rw [filesBelow, List.mem_filterMap]
  constructor
  · rintro ⟨⟨q, e⟩, hm, hf⟩
    obtain ⟨hm, hq⟩ := List.mem_filter.mp hm
    cases e with
    | file g =>
      cases hf
      exact ⟨of_decide_eq_true hq, Tree.mem_iff_find.mp hm⟩
    | _ => cases hf
  · rintro ⟨hp, hf⟩
    exact ⟨(p, .file f), List.mem_filter.mpr ⟨Tree.mem_iff_find.mpr hf, decide_eq_true hp⟩, rfl⟩

theorem filesBelow_sorted (t : Tree Name VendorFile) : (filesBelow t).Pairwise fun a b => a.1 < b.1 := by
  refine List.Pairwise.filterMap asFile (fun a b hab c hc d hd => ?_) (t.sorted.filter _)
  have hkey : ∀ {m : Path × Entry VendorFile} {n : Path × VendorFile}, asFile m = some n → n.1 = m.1 := by
    rintro ⟨p, e⟩ n h
    cases e <;> cases h
    rfl
  rw [hkey hc, hkey hd]
  exact hab

end Walk

/-! ## The source map -/

/-- A pack, by its `docs` directory. -/
structure Pack where
  docs : Tree Name VendorFile

def Pack.mapping (pack : Pack) : Except VendorError Doc :=
  match (pack.docs.find mapPath).bind Entry.content with
  | none => .error (.vendor .map none)
  | some f =>
    match decode f.bytes with
    | none => .error .python
    | some s => (loads (plainHooks (VendorError.vendor .map none)) s)

/-- The three lists of a map that is accepted: inherited entries, plan entries, overrides. -/
def mapLists (mapping : Doc) : Except VendorError (List Doc × List Doc × List Doc) :=
  if dictGet mapping "schema_version" = str "normative-source-map/v1" ∧ dictGet mapping "owner_phase" = str "MIG0" ∧
    dictGet mapping "vendor_prefix" = str "runtime/vendor/hybrid-discovery-v6.3.6/" ∧
    dictGet mapping "plan_namespace" = str "docs/" then
    match dictGet mapping "inherited_entries", dictGet mapping "plan_entries", dictGet mapping "graph_overrides" with
    | .arr inherited, .arr planEntries, .arr overrides => .ok (inherited, planEntries, overrides)
    | _, _, _ => .error (.vendor .map none)
  else .error (.vendor .map none)

/-- `d[k] = v` of a dictionary in the order of its insertions. -/
def assign {β : Type} (k : Text) (v : β) : List (Text × β) → List (Text × β)
  | [] => [(k, v)]
  | m :: l => if m.1 = k then (k, v) :: l else m :: assign k v l

/-- `entry.get("plan_sha256", entry.get("source_sha256"))` -/
def expectedHash (entry : Doc) : Doc := (item entry "plan_sha256").getD (dictGet entry "source_sha256")

/-- What one entry of the map names: its source, where it goes, and the source's file. -/
def mapEntry (sourceFiles : List (Text × VendorFile)) (sources : List Text) (entry : Doc) :
    Except VendorError (Text × Text × VendorFile) :=
  match entry with
  | .obj _ =>
    match relative host.nfc "docs/" (item entry "plan_source"), relative host.nfc "" (item entry "vendor_relative") with
    | some sourceName, some destinationName =>
      if sourceName ∈ sources ∨ destinationName = posix manifestPath then .error (.vendor .map none)
      else match sourceFiles.lookup sourceName with
        | none => .error (.vendor .source none)
        | some source =>
          if expectedHash entry ≠ .null ∧ expectedHash entry ≠ .str (hexdigest host source.bytes) then
            .error (.vendor .hash none)
          else .ok (sourceName, destinationName, source)
    | _, _ => .error (.vendor .path none)
  | _ => .error (.vendor .map none)

/-- The loop over the entries: `sources` and `effective` as they grow. -/
def effectiveFiles (sourceFiles : List (Text × VendorFile)) (overrides : List Text) :
    List Doc → List Text → List (Text × VendorFile) → Except VendorError (List (Text × VendorFile))
  | [], _, effective => .ok effective
  | entry :: l, sources, effective => do
    let (sourceName, destinationName, source) ← mapEntry host sourceFiles sources entry
    if destinationName ∈ effective.map (·.1) ∧ destinationName ∉ overrides then .error (.vendor .collision none)
    else effectiveFiles sourceFiles overrides l (sourceName :: sources) (assign destinationName source effective)

/-- `sorted(_, key=lambda item: item.encode())` -/
def sortNames (l : List (Text × VendorFile)) : Except VendorError (List (Text × VendorFile)) :=
  if l.all (·.1.all isScalar) then .ok (l.insertionSort fun a b => encode a.1 ≤ encode b.1) else .error .python

/-- `_files`: each destination with the file that goes there. -/
def Pack.files (pack : Pack) : Except VendorError (List (Text × VendorFile)) := do
  let mapping ← pack.mapping
  let (inherited, planEntries, overrides) ← mapLists mapping
  match overrides.mapM fun entry => relative host.nfc "" (some entry) with
  | none => .error (.vendor .path none)
  | some overridePaths =>
    let docs ← treeFiles host pack.docs false
    let sourceFiles := docs.map fun m => (text "docs/" ++ posix m.1, m.2)
    let effective ← effectiveFiles host sourceFiles overridePaths (inherited ++ planEntries) [] []
    sortNames effective

/-! ## The manifest -/

structure Manifest where
  files : List (Path × VendorFile)
  treeSha256 : Text

def payloadLine (path size sha256 : Text) : Text := path ++ 0 :: (size ++ 0 :: (sha256 ++ [0x0a]))

def payload (files : List (Path × VendorFile)) : Text :=
  files.flatMap fun m => payloadLine (posix m.1) (decimal m.2.bytes.length) (hexdigest host m.2.bytes)

/-- `_manifest` -/
def manifest (t : Tree Name VendorFile) : Except VendorError Manifest := do
  let vendorFiles ← treeFiles host t false
  let files := vendorFiles.filter (·.1 ≠ manifestPath)
  if (payload host files).all isScalar then .ok ⟨files, hexdigest host (encode (payload host files))⟩
  else .error .python

/-- The files that are recorded: those below the root, the manifest apart. -/
def recordedFiles (t : Tree Name VendorFile) : List (Path × VendorFile) := (filesBelow t).filter (·.1 ≠ manifestPath)

/-- The manifest of a tree whose files can be named in one. -/
def manifestOf (t : Tree Name VendorFile) : Manifest :=
  ⟨recordedFiles t, hexdigest host (encode (payload host (recordedFiles t)))⟩

theorem manifest_ok {host : Host} {t : Tree Name VendorFile} {m : Manifest} : manifest host t = .ok m ↔
    treeFiles host t false = .ok (filesBelow t) ∧ (payload host (recordedFiles t)).all isScalar ∧
      m = manifestOf host t := by
  rw [manifest, Lib.bind_ok]
  constructor
  · rintro ⟨fs, hfs, h⟩
    obtain ⟨-, -, rfl⟩ := treeFiles_ok.mp hfs
    simp only at h
    split_ifs at h with hs
    cases h
    exact ⟨hfs, hs, rfl⟩
  · rintro ⟨hfs, hs, rfl⟩
    exact ⟨_, hfs, if_pos hs⟩

/-- A dictionary in the order it is written in. -/
def literal (l : List (String × Doc)) : Doc := .obj (l.map fun m => (text m.1, m.2))

def fileDoc (m : Path × VendorFile) : Doc := literal [("path", .str (posix m.1)), ("size_bytes", .int m.2.bytes.length),
  ("sha256", .str (hexdigest host m.2.bytes))]

def manifestDoc (m : Manifest) : Doc := literal [("schema_version", str "schema-sha256/v1"), ("algorithm", str "SHA-256"),
  ("self_excluded_path", .str (posix manifestPath)), ("tree_sha256", .str m.treeSha256),
  ("files", .arr (m.files.map (fileDoc host))), ("production_authority", str "NONE")]

def lockDoc (m : Manifest) : Doc := literal [("schema_version", str "schema-lock/v1"),
  ("vendor_path", str "vendor/hybrid-discovery-v6.3.6"), ("vendor_tree_sha256", .str m.treeSha256),
  ("files", .arr (m.files.map (fileDoc host))), ("production_authority", str "NONE")]

/-- `_encoded` -/
def encoded (d : Doc) : Bytes := encode (indented id 0 d ++ ['\n'.toNat])

/-! ## The runtime root -/

/-- What is vendored and what stands beside it: `schema-lock.json` and `task-command-registry.json`. -/
structure Runtime where
  vendor : Tree Name VendorFile
  lock : Option (Entry VendorFile)
  registry : Option (Entry VendorFile)

/-- What is asked of an artifact that is there. -/
def checkGenerated (name : Text) : Option (Entry VendorFile) → Except VendorError Unit
  | none => .ok ()
  | some (.symlink _) => .error (.vendor .symlink name)
  | some (.file f) =>
    if f.links ≠ 1 then .error (.vendor .hardlink name)
    else if f.mode ≠ 0o644 then .error (.vendor .mode name)
    else .ok ()
  | some _ => .error (.vendor .entry name)

def lockName : Text := text "schema-lock.json"

/-- What `sync_pack_assets` finds before it compares or copies: the files to be there, and the paths of those that are. -/
def prepare (pack : Pack) (r : Runtime) : Except VendorError (List (Text × VendorFile) × List Text) := do
  let vendorFiles ← treeFiles host r.vendor true
  checkGenerated lockName r.lock
  checkGenerated (posix manifestPath) (r.vendor.find manifestPath)
  let expected ← pack.files host
  if posix manifestPath ∈ expected.map (·.1) then .error (.vendor .reserved (posix manifestPath))
  else
    let actual := (vendorFiles.map fun m => posix m.1).filter (· ≠ posix manifestPath)
    if ∃ path ∈ actual, path ∉ expected.map (·.1) then .error (.vendor .fileSet none)
    else .ok (expected, actual)

/-! ### `check=True` -/

/-- The file a text names below the vendor directory, as it is opened. -/
def opened (t : Tree Name VendorFile) (path : Text) : Option VendorFile :=
  ((locate path).bind t.find).bind Entry.content

def compareFile (t : Tree Name VendorFile) (m : Text × VendorFile) : Except VendorError Unit :=
  match opened t m.1 with
  | none => .error .python
  | some f =>
    if f.bytes ≠ m.2.bytes then .error (.vendor .bytes m.1)
    else if f.mode ≠ m.2.mode then .error (.vendor .mode m.1)
    else .ok ()

def compareFiles (t : Tree Name VendorFile) : List (Text × VendorFile) → Except VendorError Unit
  | [] => .ok ()
  | m :: l => do
    compareFile t m
    compareFiles t l

def checkRegistry (r : Runtime) : Except VendorError Unit :=
  match r.registry with
  | some (.file f) =>
    if f.links ≠ 1 then .error (.vendor .taskRegistry none)
    else match (r.vendor.find registryPath).bind Entry.content with
      | none => .error .python
      | some g => if f.bytes ≠ g.bytes then .error (.vendor .taskRegistry none) else .ok ()
  | _ => .error (.vendor .taskRegistry none)

def compareArtifact (name : Text) (e : Option (Entry VendorFile)) (content : Bytes) : Except VendorError Unit :=
  match e.bind Entry.content with
  | none => .error .python
  | some f => if f.bytes ≠ content then .error (.vendor .manifest name) else .ok ()

/-- `sync_pack_assets(pack, root, check=True)` -/
def checkPackAssets (pack : Pack) (r : Runtime) : Except VendorError Unit := do
  let (expected, actual) ← prepare host pack r
  if ∃ m ∈ expected, m.1 ∉ actual then .error (.vendor .fileSet none)
  else
    compareFiles r.vendor expected
    checkRegistry r
    let m ← manifest host r.vendor
    compareArtifact (posix manifestPath) (r.vendor.find manifestPath) (encoded (manifestDoc host m))
    compareArtifact lockName r.lock (encoded (lockDoc host m))

/-! ### Copying -/

/-- The file `shutil.copyfile` and `chmod` leave, over the one that was there or as a new one. -/
def copied (source : VendorFile) : Option VendorFile → VendorFile
  | some f => { f with bytes := source.bytes, mode := source.mode }
  | none => ⟨source.mode, 1, source.bytes⟩

/-- One file brought to its destination, the directories above it first. -/
def copyFile (t : Tree Name VendorFile) (m : Text × VendorFile) : Tree Name VendorFile × Bool :=
  match locate m.1 with
  | none => (t, false)
  | some p => Tree.place host.system t p (copied m.2)

def copyFiles (t : Tree Name VendorFile) : List (Text × VendorFile) → Tree Name VendorFile × Bool
  | [] => (t, true)
  | m :: l =>
    match copyFile host t m with
    | (u, true) => copyFiles u l
    | (u, false) => (u, false)

/-- `write_bytes`: a new file has the mode the umask 022 leaves it. -/
def written (content : Bytes) : Option VendorFile → VendorFile
  | some f => { f with bytes := content }
  | none => ⟨0o644, 1, content⟩

/-- `(root / "schema-lock.json").write_bytes`: `none` where it is no file. -/
def writeLock (content : Bytes) : Option (Entry VendorFile) → Option (Entry VendorFile)
  | none => some (.file (written content none))
  | some (.file f) => some (.file (written content (some f)))
  | _ => none

end BettingHelper.Vendor
