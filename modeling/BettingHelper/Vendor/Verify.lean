/-
  BettingHelper.Vendor.Verify — the verifier that has no pack at hand, and that it accepts
  what the check against the pack accepts.

  `verify_vendored_assets` reads the manifest and the lock back and holds every file against
  them. `checkPackAssets_verified`: a root the pack's check accepts is one it accepts. What
  the check compares byte for byte is what `json.dumps` writes, so the documents the verifier
  parses are the ones that were written.
-/

import BettingHelper.Vendor.Sync
import BettingHelper.Wire.Encoding

namespace BettingHelper.Vendor

open BettingHelper.Lib.Json BettingHelper.Lib.FileTree

variable (host : Host)

/-! ## `verify_vendored_assets` -/

/-- `lstat().st_nlink` -/
def linkCount : Entry VendorFile → Nat
  | .file f => f.links
  | _ => 1

def isNfc (s : Text) : Bool := host.nfc s = s

def parseDocument (b : Bytes) : Except VendorError Doc :=
  match Wire.parseStrictJson (isNfc host) b with
  | .ok (.obj l) => .ok (.obj l)
  | _ => .error .python

/-- The manifest and the lock, parsed. -/
def readDocuments (r : Runtime) : Except VendorError (Doc × Doc) :=
  match r.vendor.find manifestPath, r.lock with
  | some m, some l =>
    match m.content, l.content with
    | some manifest, some lock =>
      if linkCount m ≠ 1 ∨ linkCount l ≠ 1 then .error (.vendor .hardlink none)
      else do
        let manifest ← parseDocument host manifest.bytes
        let lock ← parseDocument host lock.bytes
        return (manifest, lock)
    | _, _ => .error (.vendor .packRequired none)
  | _, _ => .error (.vendor .packRequired none)

def textOf : Doc → Option Text
  | .str s => some s
  | _ => none

def isObject : Doc → Bool
  | .obj _ => true
  | _ => false

/-- What is asked of a path in a manifest. -/
def recordable (path : Text) : Bool := path ≠ [] ∧ ¬[slash] <+: path ∧ text ".." ∉ path.splitOn slash

/-- The paths a manifest's `files` record. One that is no text is refused, by this exception or Python's own. -/
def recordedPaths (files : List Doc) : Except VendorError (List Text) :=
  if files.all isObject then
    match files.mapM fun d => textOf (dictGet d "path") with
    | none => .error (.vendor .manifest none)
    | some paths => if paths.Nodup ∧ paths.all recordable then .ok paths else .error (.vendor .manifest none)
  else .error (.vendor .manifest none)

/-- One file held against what the manifest says of it. -/
def verifyFile (t : Tree Name VendorFile) (d : Doc) : Except VendorError Unit :=
  match textOf (dictGet d "path") with
  | none => .error .python
  | some path =>
    match (locate path).bind t.find with
    | some (.file f) =>
      match item d "size_bytes", item d "sha256" with
      | some size, some sha256 =>
        if f.links ≠ 1 ∨ (f.mode ≠ 0o644 ∧ f.mode ≠ 0o755) ∨ ¬equal host.whole (.int f.bytes.length) size ∨
          sha256 ≠ .str (hexdigest host f.bytes) then .error (.vendor .bytes path)
        else .ok ()
      | _, _ => .error .python
    | some _ => .error (.vendor .bytes path)
    | none => .error .python

def verifyFiles (t : Tree Name VendorFile) : List Doc → Except VendorError Unit
  | [] => .ok ()
  | d :: l => do
    verifyFile host t d
    verifyFiles t l

/-- `f"{_}"` -/
def formatted : Doc → Text
  | .str s => s
  | .int n => decimal n
  | d => host.shown d

def recordedPayload (files : List Doc) : Text :=
  files.flatMap fun d => payloadLine (formatted host (dictGet d "path")) (formatted host (dictGet d "size_bytes"))
    (formatted host (dictGet d "sha256"))

def verifyVendoredAssets (r : Runtime) : Except VendorError Unit := do
  let (manifest, lock) ← readDocuments host r
  match item manifest "files" with
  | some (.arr files) =>
    let recorded ← recordedPaths files
    let actual := (recordedFiles r.vendor).map fun m => posix m.1
    if (∃ path ∈ recorded, path ∉ actual) ∨ ∃ path ∈ actual, path ∉ recorded then .error (.vendor .fileSet none)
    else
      verifyFiles host r.vendor files
      let treeHash : Doc := .str (hexdigest host (encode (recordedPayload host files)))
      match item manifest "tree_sha256", item lock "vendor_tree_sha256", item lock "files" with
      | some tree, some vendorTree, some lockFiles =>
        if tree ≠ treeHash ∨ vendorTree ≠ treeHash ∨ ¬equal host.whole lockFiles (.arr files) then
          .error (.vendor .manifest none)
        else
          match (r.vendor.find registryPath).bind Entry.content, r.registry.bind Entry.content with
          | some vendored, some registry => if vendored.bytes ≠ registry.bytes then .error (.vendor .taskRegistry none) else .ok ()
          | _, _ => .error .python
      | _, _, _ => .error .python
  | _ => .error .python

/-! ## What is written is read back -/

section ReadBack

variable {host : Host} {l : List (String × Doc)}

theorem literal_keys (hl : (l.map (·.1)).Nodup) : ((l.map fun m => (text m.1, m.2)).map (·.1)).Nodup := by
  rw [List.map_map]
  have := @List.Nodup.map _ _ _ text (fun a b h => text_inj h) hl
  rwa [List.map_map] at this

theorem item_literal (hl : (l.map (·.1)).Nodup) {k : String} {d : Doc} (hm : (k, d) ∈ l) :
    item (normal (literal l)) k = some (normal d) :=
  lookup_normal (literal_keys hl) (List.mem_map.mpr ⟨(k, d), hm, rfl⟩)

theorem literal_legible (hl : (l.map (·.1)).Nodup) (h : ∀ m ∈ l, Legible m.2) : Legible (literal l) := by
  refine ⟨literal_keys hl, legibleMembers_iff.mpr fun m hm => ?_⟩
  obtain ⟨n, hn, rfl⟩ := List.mem_map.mp hm
  exact ⟨text_scalar n.1, h n hn⟩

mutual

/-- What is read of a text is no less normalized than what was written. -/
theorem normal_valid {nfc : Text → Bool} : ∀ {v : Doc}, Wire.validUnicode nfc v → Wire.validUnicode nfc (normal v)
  | .null, h => h
  | .bool _, h => h
  | .int _, h => h
  | .float _, h => h
  | .str _, h => h
  | .arr _, h => normal_validItems h
  | .obj _, h => Wire.validMembers_iff.mpr fun m hm => Wire.validMembers_iff.mp (normal_validMembers h) m (dict_mem hm)

theorem normal_validItems {nfc : Text → Bool} : ∀ {l : List Doc}, Wire.validItems nfc l → Wire.validItems nfc (normalItems l)
  | [], h => h
  | v :: l, h => by
    rw [Wire.validItems, Bool.and_eq_true] at h
    rw [normalItems, Wire.validItems, normal_valid h.1, normal_validItems h.2]
    rfl

theorem normal_validMembers {nfc : Text → Bool} : ∀ {l : List (Text × Doc)}, Wire.validMembers nfc l →
    Wire.validMembers nfc (normalMembers l)
  | [], h => h
  | (k, v) :: l, h => by
    rw [Wire.validMembers, Bool.and_eq_true, Bool.and_eq_true] at h
    rw [normalMembers, Wire.validMembers, h.1.1, normal_valid h.1.2, normal_validMembers h.2]
    rfl

end

theorem strictHooks_sorts : Wire.strictHooks.Sorts := fun _ hl => if_pos hl

/-- An encoded dictionary is parsed as the one that was encoded. -/
theorem parseDocument_encoded (hl : Legible (literal l)) (hv : Wire.validUnicode (isNfc host) (literal l)) :
    parseDocument host (encoded (literal l)) = .ok (normal (literal l)) := by
  have hscalar : (indented id 0 (literal l) ++ ['\n'.toNat]).all isScalar := by
    rw [List.all_append, indented_scalar _ 0 hl]
    rfl
  have hbom : ¬[0xef, 0xbb, 0xbf] <+: encoded (literal l) := by
    obtain ⟨u, hu⟩ : ∃ u, indented id 0 (literal l) = '{'.toNat :: u := by
      cases l with
      | nil => exact ⟨_, rfl⟩
      | cons m l => exact ⟨_, by rw [literal, List.map_cons, indented]⟩
    rw [encoded, hu]
    intro h
    exact absurd (List.cons_prefix_cons.mp h).1 (by decide)
  have hparse : Wire.parseStrictJson (isNfc host) (encoded (literal l)) = .ok (normal (literal l)) := by
    rw [Wire.parseStrictJson, if_neg hbom, encoded, decode_encode hscalar]
    simp only [loads_indented strictHooks_sorts hl (r := ['\n'.toNat]) (by simp [Blanks, isBlank]), normal_valid hv, if_true]
  rw [parseDocument, hparse]
  rfl

end ReadBack

/-! ## Paths -/

section Recorded

variable {host : Host} {t : Tree Name VendorFile} {p : Path}

theorem splitOn_posix (hp : p ≠ []) : (posix p).splitOn slash = p.map (·.val) := by
  have hslash : ∀ s ∈ p.map (·.val), slash ∉ s := by
    intro s hs
    obtain ⟨n, -, rfl⟩ := List.mem_map.mp hs
    exact n.property.2.1
  rw [posix, if_neg hp]
  exact List.splitOn_intercalate slash hslash fun he => hp (List.map_eq_nil_iff.mp he)

theorem posix_recordable (hp : p ≠ []) : recordable (posix p) := by
  have hsplit := splitOn_posix hp
  have hcomponent : ∀ s ∈ (posix p).splitOn slash, Component s := by
    rw [hsplit]
    intro s hs
    obtain ⟨n, -, rfl⟩ := List.mem_map.mp hs
    exact n.property
  refine decide_eq_true ⟨fun he => ?_, fun hs => ?_, fun hd => (hcomponent _ hd).2.2.2.2 rfl⟩
  · rw [he] at hcomponent
    exact (hcomponent [] (by decide)).1 rfl
  · obtain ⟨s, hs⟩ := hs
    have hfirst : [] ∈ (posix p).splitOn slash := by
      rw [← hs, List.singleton_append, List.splitOn_cons_eq_if_modifyHead]
      simp
    exact (hcomponent [] hfirst).1 rfl

/-- What the tools rely on in `unicodedata.normalize`: ASCII stays, and nothing is composed across a slash. -/
structure Normalizes (host : Host) : Prop where
  ascii : ∀ s : Text, s.all (· < 0x80) → host.nfc s = s
  slash : ∀ s t : Text, host.nfc (s ++ slash :: t) = host.nfc s ++ slash :: host.nfc t

/-- A path whose names are normalized is. -/
theorem posix_nfc (hn : Normalizes host) (hp : ∀ n ∈ p, host.nfc n.val = n.val) : host.nfc (posix p) = posix p := by
  by_cases he : p = []
  · rw [he]
    exact hn.ascii _ (by decide)
  · rw [posix, if_neg he]
    induction p with
    | nil => exact absurd rfl he
    | cons n p ih =>
      obtain ⟨h1, h2⟩ := List.forall_mem_cons.mp hp
      cases p with
      | nil => simpa using h1
      | cons m p =>
        have hi := ih h2 (List.cons_ne_nil m p)
        rw [List.map_cons, List.map_cons, List.intercalate_cons_cons, ← List.map_cons, List.append_assoc,
          List.singleton_append, hn.slash, h1, hi]

theorem validText_of {s : Text} (hs : s.all isScalar) (hn : host.nfc s = s) : Wire.validText (isNfc host) s := by
  rw [Wire.validText, isNfc, decide_eq_true hn, Bool.and_true, Bool.not_eq_true', List.any_eq_false]
  intro c hc
  have := List.all_eq_true.mp hs c hc
  simp only [isScalar, Bool.or_eq_true, Bool.and_eq_true, decide_eq_true_eq] at this
  simp only [isHigh, isLow, Bool.or_eq_true, Bool.and_eq_true, decide_eq_true_eq]
  omega

/-- What stands in the manifest of files that a walk has let pass. -/
structure Recorded (host : Host) (fs : List (Path × VendorFile)) : Prop where
  scalar : ∀ m ∈ fs, (posix m.1).all isScalar
  normalized : ∀ m ∈ fs, host.nfc (posix m.1) = posix m.1

theorem hexdigest_ascii (b : Bytes) : (hexdigest host b).all (· < 0x80) := Wire.hex64_ascii (Wire.hex_hex64 _)

theorem valid_literal (hn : Normalizes host) {l : List (String × Doc)} (hk : ∀ m ∈ l, (text m.1).all (· < 0x80))
    (hv : ∀ m ∈ l, Wire.validUnicode (isNfc host) m.2) : Wire.validUnicode (isNfc host) (literal l) := by
  refine Wire.validMembers_iff.mpr fun m hm => ?_
  obtain ⟨n, hn', rfl⟩ := List.mem_map.mp hm
  exact ⟨validText_of (text_scalar n.1) (hn.ascii _ (hk n hn')), hv n hn'⟩

theorem valid_ascii (hn : Normalizes host) {s : Text} (hs : s.all (· < 0x80)) : Wire.validUnicode (isNfc host) (.str s) :=
  validText_of (scalar_ascii hs) (hn.ascii s hs)

variable {fs : List (Path × VendorFile)} {m : Path × VendorFile} {tree : Text}

theorem fileDoc_names : ["path", "size_bytes", "sha256"].Nodup := by decide

theorem manifestDoc_names :
    ["schema_version", "algorithm", "self_excluded_path", "tree_sha256", "files", "production_authority"].Nodup := by decide

theorem lockDoc_names : ["schema_version", "vendor_path", "vendor_tree_sha256", "files", "production_authority"].Nodup := by
  decide

theorem fileDoc_legible (hs : (posix m.1).all isScalar) : Legible (fileDoc host m) := by
  refine literal_legible fileDoc_names ?_
  simp only [List.forall_mem_cons]
  exact ⟨hs, trivial, scalar_ascii (hexdigest_ascii _), by simp⟩

theorem fileDoc_valid (hn : Normalizes host) (hs : (posix m.1).all isScalar) (hp : host.nfc (posix m.1) = posix m.1) :
    Wire.validUnicode (isNfc host) (fileDoc host m) := by
  refine valid_literal hn ?_ ?_
  · simp only [List.forall_mem_cons]
    exact ⟨by decide, by decide, by decide, by simp⟩
  · simp only [List.forall_mem_cons]
    exact ⟨validText_of hs hp, rfl, valid_ascii hn (hexdigest_ascii _), by simp⟩

theorem filesDoc_legible (hr : Recorded host fs) : Legible (.arr (fs.map (fileDoc host))) := by
  refine legibleItems_iff.mpr fun v hv => ?_
  obtain ⟨m, hm, rfl⟩ := List.mem_map.mp hv
  exact fileDoc_legible (hr.scalar m hm)

theorem filesDoc_valid (hn : Normalizes host) (hr : Recorded host fs) :
    Wire.validUnicode (isNfc host) (.arr (fs.map (fileDoc host))) := by
  refine Wire.validItems_iff.mpr fun v hv => ?_
  obtain ⟨m, hm, rfl⟩ := List.mem_map.mp hv
  exact fileDoc_valid hn (hr.scalar m hm) (hr.normalized m hm)

theorem manifestDoc_parsed (hn : Normalizes host) (hr : Recorded host fs) (ht : tree.all (· < 0x80)) :
    parseDocument host (encoded (manifestDoc host ⟨fs, tree⟩)) = .ok (normal (manifestDoc host ⟨fs, tree⟩)) := by
  refine parseDocument_encoded (literal_legible manifestDoc_names ?_) (valid_literal hn ?_ ?_)
  · simp only [List.forall_mem_cons]
    exact ⟨text_scalar _, text_scalar _, scalar_ascii (by decide), scalar_ascii ht, filesDoc_legible hr, text_scalar _, by simp⟩
  · simp only [List.forall_mem_cons]
    exact ⟨by decide, by decide, by decide, by decide, by decide, by decide, by simp⟩
  · simp only [List.forall_mem_cons]
    exact ⟨valid_ascii hn (by decide), valid_ascii hn (by decide), valid_ascii hn (by decide), valid_ascii hn ht,
      filesDoc_valid hn hr, valid_ascii hn (by decide), by simp⟩

theorem lockDoc_parsed (hn : Normalizes host) (hr : Recorded host fs) (ht : tree.all (· < 0x80)) :
    parseDocument host (encoded (lockDoc host ⟨fs, tree⟩)) = .ok (normal (lockDoc host ⟨fs, tree⟩)) := by
  refine parseDocument_encoded (literal_legible lockDoc_names ?_) (valid_literal hn ?_ ?_)
  · simp only [List.forall_mem_cons]
    exact ⟨text_scalar _, text_scalar _, scalar_ascii ht, filesDoc_legible hr, text_scalar _, by simp⟩
  · simp only [List.forall_mem_cons]
    exact ⟨by decide, by decide, by decide, by decide, by decide, by simp⟩
  · simp only [List.forall_mem_cons]
    exact ⟨valid_ascii hn (by decide), valid_ascii hn (by decide), valid_ascii hn ht, filesDoc_valid hn hr,
      valid_ascii hn (by decide), by simp⟩

/-! ## The files that are recorded -/

theorem fileDoc_path (m : Path × VendorFile) : item (normal (fileDoc host m)) "path" = some (.str (posix m.1)) := by
  show item (normal (literal _)) _ = some (normal (.str (posix m.1)))
  refine item_literal ?_ ?_
  · exact fileDoc_names
  · simp

theorem fileDoc_size (m : Path × VendorFile) : item (normal (fileDoc host m)) "size_bytes" = some (.int m.2.bytes.length) := by
  show item (normal (literal _)) _ = some (normal (.int m.2.bytes.length))
  refine item_literal ?_ ?_
  · exact fileDoc_names
  · simp

theorem fileDoc_sha256 (m : Path × VendorFile) :
    item (normal (fileDoc host m)) "sha256" = some (.str (hexdigest host m.2.bytes)) := by
  show item (normal (literal _)) _ = some (normal (.str (hexdigest host m.2.bytes)))
  refine item_literal ?_ ?_
  · exact fileDoc_names
  · simp

theorem manifestDoc_files (fs : List (Path × VendorFile)) (tree : Text) :
    item (normal (manifestDoc host ⟨fs, tree⟩)) "files" = some (.arr (fs.map fun m => normal (fileDoc host m))) := by
  have hf : normal (.arr (fs.map (fileDoc host))) = .arr (fs.map fun m => normal (fileDoc host m)) := by
    rw [normal, normalItems_map, List.map_map]
    rfl
  rw [← hf]
  show item (normal (literal _)) _ = _
  refine item_literal ?_ ?_
  · exact manifestDoc_names
  · simp

theorem manifestDoc_tree (fs : List (Path × VendorFile)) (tree : Text) :
    item (normal (manifestDoc host ⟨fs, tree⟩)) "tree_sha256" = some (.str tree) := by
  show item (normal (literal _)) _ = some (normal (.str tree))
  refine item_literal ?_ ?_
  · exact manifestDoc_names
  · simp

theorem lockDoc_files (fs : List (Path × VendorFile)) (tree : Text) :
    item (normal (lockDoc host ⟨fs, tree⟩)) "files" = some (.arr (fs.map fun m => normal (fileDoc host m))) := by
  have hf : normal (.arr (fs.map (fileDoc host))) = .arr (fs.map fun m => normal (fileDoc host m)) := by
    rw [normal, normalItems_map, List.map_map]
    rfl
  rw [← hf]
  show item (normal (literal _)) _ = _
  refine item_literal ?_ ?_
  · exact lockDoc_names
  · simp

theorem lockDoc_tree (fs : List (Path × VendorFile)) (tree : Text) :
    item (normal (lockDoc host ⟨fs, tree⟩)) "vendor_tree_sha256" = some (.str tree) := by
  show item (normal (literal _)) _ = some (normal (.str tree))
  refine item_literal ?_ ?_
  · exact lockDoc_names
  · simp

theorem fileDoc_dictGet (m : Path × VendorFile) : dictGet (normal (fileDoc host m)) "path" = .str (posix m.1) := by
  rw [dictGet, fileDoc_path]
  rfl

theorem mem_recordedFiles {t : Tree Name VendorFile} : m ∈ recordedFiles t ↔
    m.1 ≠ [] ∧ m.1 ≠ manifestPath ∧ t.find m.1 = some (.file m.2) := by
  rw [recordedFiles, List.mem_filter, mem_filesBelow, decide_eq_true_eq]
  tauto

theorem recorded_nodup (t : Tree Name VendorFile) : ((recordedFiles t).map fun m => posix m.1).Nodup := by
  rw [List.Nodup, List.pairwise_map]
  exact ((filesBelow_sorted t).filter _).imp fun h he => h.ne (posix_inj he)

theorem recordedPaths_docs (t : Tree Name VendorFile) :
    recordedPaths ((recordedFiles t).map fun m => normal (fileDoc host m)) = .ok ((recordedFiles t).map fun m => posix m.1) := by
  have hobj : ((recordedFiles t).map fun m => normal (fileDoc host m)).all isObject := by
    refine List.all_eq_true.mpr fun d hd => ?_
    obtain ⟨m, -, rfl⟩ := List.mem_map.mp hd
    rfl
  have htext : ((recordedFiles t).map fun m => normal (fileDoc host m)).mapM (fun d => textOf (dictGet d "path")) =
      some ((recordedFiles t).map fun m => posix m.1) := by
    generalize recordedFiles t = l
    induction l with
    | nil => rfl
    | cons m l ih =>
      rw [List.map_cons, List.mapM_cons, ih, fileDoc_dictGet]
      rfl
  have hsafe : ((recordedFiles t).map fun m => posix m.1).all recordable := by
    refine List.all_eq_true.mpr fun s hs => ?_
    obtain ⟨m, hm, rfl⟩ := List.mem_map.mp hs
    exact posix_recordable (mem_recordedFiles.mp hm).1
  rw [recordedPaths, if_pos hobj, htext]
  exact if_pos ⟨recorded_nodup t, hsafe⟩

/-- Each file is as its own entry says. -/
theorem verifyFiles_docs {t : Tree Name VendorFile} (hp : ∀ p e, p ≠ [] → t.find p = some e → Passes host (p, e)) :
    verifyFiles host t ((recordedFiles t).map fun m => normal (fileDoc host m)) = .ok () := by
  have hall : ∀ m ∈ recordedFiles t, verifyFile host t (normal (fileDoc host m)) = .ok () := by
    intro m hm
    obtain ⟨hne, -, hf⟩ := mem_recordedFiles.mp hm
    have hlinks : m.2.links = 1 ∧ (m.2.mode = 0o644 ∨ m.2.mode = 0o755) := by
      rcases (hp m.1 _ hne hf).kind with h | ⟨f, h, hl⟩
      · cases h
      · cases h
        exact hl
    have hfind : (locate (posix m.1)).bind t.find = some (.file m.2) := by rw [locate_posix]; exact hf
    have hsize : equal host.whole (.int m.2.bytes.length) (.int m.2.bytes.length) = true := by simp [equal, integral]
    rw [verifyFile, fileDoc_dictGet]
    simp only [textOf, hfind, fileDoc_size, fileDoc_sha256]
    refine if_neg ?_
    rintro (h | h | h | h)
    · exact h hlinks.1
    · exact hlinks.2.elim h.1 h.2
    · exact h hsize
    · exact h rfl
  generalize recordedFiles t = l at hall
  induction l with
  | nil => rfl
  | cons m l ih =>
    obtain ⟨h1, h2⟩ := List.forall_mem_cons.mp hall
    rw [List.map_cons, verifyFiles, h1]
    exact ih h2

theorem recordedPayload_docs (l : List (Path × VendorFile)) :
    recordedPayload host (l.map fun m => normal (fileDoc host m)) = payload host l := by
  rw [recordedPayload, payload, List.flatMap_map]
  refine congrArg (fun f => l.flatMap f) (funext fun m => ?_)
  simp only [dictGet, fileDoc_path, fileDoc_size, fileDoc_sha256, Option.getD_some, formatted]

/-! ## Checked, then verified -/

/-- What the check against the pack has made sure of. -/
structure Checked (host : Host) (r : Runtime) : Prop where
  walked : treeFiles host r.vendor false = .ok (filesBelow r.vendor)
  scalar : (payload host (recordedFiles r.vendor)).all isScalar
  manifest : ∃ f, r.vendor.find manifestPath = some (.file f) ∧ f.links = 1 ∧ f.bytes =
    encoded (manifestDoc host (manifestOf host r.vendor))
  lock : ∃ f, r.lock = some (.file f) ∧ f.links = 1 ∧ f.bytes = encoded (lockDoc host (manifestOf host r.vendor))
  registry : ∃ f g, r.registry = some (.file f) ∧ (r.vendor.find registryPath).bind Entry.content = some g ∧ f.bytes = g.bytes

theorem Checked.recorded {r : Runtime} (hn : Normalizes host) (hc : Checked host r) : Recorded host (recordedFiles r.vendor) := by
  obtain ⟨-, hpass, -⟩ := treeFiles_ok.mp hc.walked
  constructor
  · intro m hm
    refine List.all_eq_true.mpr fun c hch => List.all_eq_true.mp hc.scalar c ?_
    exact List.mem_flatMap.mpr ⟨m, hm, List.mem_append_left _ hch⟩
  · intro m hm
    obtain ⟨hne, -, hf⟩ := mem_recordedFiles.mp hm
    exact posix_nfc hn (hpass m.1 _ hne hf).normalized

/-- What the check against the pack accepts the verifier accepts. -/
theorem Checked.verified {r : Runtime} (hn : Normalizes host) (hc : Checked host r) : verifyVendoredAssets host r = .ok () := by
  have hr := hc.recorded hn
  obtain ⟨-, hpass, -⟩ := treeFiles_ok.mp hc.walked
  obtain ⟨mf, hmf, hml, hmb⟩ := hc.manifest
  obtain ⟨lf, hlf, hll, hlb⟩ := hc.lock
  obtain ⟨rf, g, hrf, hg, hrb⟩ := hc.registry
  let docs := (recordedFiles r.vendor).map fun m => normal (fileDoc host m)
  let paths := (recordedFiles r.vendor).map fun m => posix m.1
  let tree := hexdigest host (encode (payload host (recordedFiles r.vendor)))
  have hdocs : readDocuments host r =
      .ok (normal (manifestDoc host (manifestOf host r.vendor)), normal (lockDoc host (manifestOf host r.vendor))) := by
    have hlinks : ¬(linkCount (.file mf) ≠ 1 ∨ linkCount (.file lf) ≠ 1) := by simp [linkCount, hml, hll]
    have hm : parseDocument host mf.bytes = .ok (normal (manifestDoc host (manifestOf host r.vendor))) := by
      rw [hmb]
      exact manifestDoc_parsed hn hr (hexdigest_ascii _)
    have hl : parseDocument host lf.bytes = .ok (normal (lockDoc host (manifestOf host r.vendor))) := by
      rw [hlb]
      exact lockDoc_parsed hn hr (hexdigest_ascii _)
    simp only [readDocuments, hmf, hlf, Entry.content, if_neg hlinks]
    exact Lib.bind_ok.mpr ⟨_, hm, Lib.bind_ok.mpr ⟨_, hl, rfl⟩⟩
  have hfiles : item (normal (manifestDoc host (manifestOf host r.vendor))) "files" = some (.arr docs) := manifestDoc_files _ _
  have htree : item (normal (manifestDoc host (manifestOf host r.vendor))) "tree_sha256" = some (.str tree) := manifestDoc_tree _ _
  have hlfiles : item (normal (lockDoc host (manifestOf host r.vendor))) "files" = some (.arr docs) := lockDoc_files _ _
  have hltree : item (normal (lockDoc host (manifestOf host r.vendor))) "vendor_tree_sha256" = some (.str tree) := lockDoc_tree _ _
  have hpaths : recordedPaths docs = .ok paths := recordedPaths_docs _
  have hsame : ¬((∃ path ∈ paths, path ∉ paths) ∨ ∃ path ∈ paths, path ∉ paths) := by
    rintro (⟨s, hs, hne⟩ | ⟨s, hs, hne⟩) <;> exact hne hs
  have hverified : verifyFiles host r.vendor docs = .ok () := verifyFiles_docs hpass
  have hpayload : hexdigest host (encode (recordedPayload host docs)) = tree := by
    rw [show recordedPayload host docs = payload host (recordedFiles r.vendor) from recordedPayload_docs _]
  have hequal : equal host.whole (.arr docs) (.arr docs) = true := by
    refine equal_self (legibleItems_iff.mpr fun v hv => ?_)
    obtain ⟨m, hm, rfl⟩ := List.mem_map.mp hv
    exact legible_normal (fileDoc_legible (hr.scalar m hm))
  refine Lib.bind_ok.mpr ⟨_, hdocs, ?_⟩
  simp only [hfiles, htree, hlfiles, hltree]
  refine Lib.bind_ok.mpr ⟨_, hpaths, ?_⟩
  rw [if_neg hsame]
  refine Lib.bind_ok.mpr ⟨(), hverified, ?_⟩
  simp [hpayload, hequal, hg, hrf, Entry.content, hrb]

end Recorded

end BettingHelper.Vendor
