/-
  BettingHelper.Retained.References — what an aggregate refers to: the spellings of a locator,
  the walk that collects every reference, and the ones that are retained.

  One file has a POSIX, a Windows and a WSL spelling; `canonicalRecorded` gives it one. A
  reference at any depth is a path beside its digest. `retainedArtifactDeclarations` keeps
  those that lie in a boundary and looks only at the digest of those in a live root. Every
  failure of these tools ends as one error, so what can fail is an `Option`.
-/

import Mathlib
import BettingHelper.Trees.Roots
import BettingHelper.Vendor.Sync
import BettingHelper.Wire.Encoding

namespace BettingHelper.Retained

open BettingHelper.Lib.Json BettingHelper.Lib.FileTree BettingHelper.Vendor

/-! ## Locators -/

def backslash : Nat := '\\'.toNat

/-- `str.lower()` of a letter of ASCII. -/
def lower (c : Nat) : Nat := if 'A'.toNat ≤ c ∧ c ≤ 'Z'.toNat then c + 32 else c

def isLetter (c : Nat) : Bool := 'a'.toNat ≤ lower c && lower c ≤ 'z'.toNat

/-- A character matches a letter under `re.I`: the long s is an s. -/
def matchesLetter (letter c : Nat) : Bool := lower c = letter || (letter = 's'.toNat && c = 0x17f)

/-- What `(.+)` matches to the end. -/
def isLine (s : Text) : Bool := s ≠ [] && '\n'.toNat ∉ s

def wslPrefix : Text := text "\\\\wsl.localhost\\"

/-- The two groups of `\\\\wsl\.localhost\\([^\\]+)\\(.+)`, matched in full. -/
def unc (s : Text) : Option (Text × Text) :=
  let rest := s.drop wslPrefix.length
  let host := rest.takeWhile (· ≠ backslash)
  let below := (rest.dropWhile (· ≠ backslash)).tail
  if wslPrefix.length ≤ s.length && (wslPrefix.zip s).all (fun m => matchesLetter m.1 m.2) && host ≠ [] && isLine below then
    some (host, below)
  else none

/-- The two groups of `([A-Za-z]):\\(.+)`, matched in full. -/
def drive : Text → Option (Nat × Text)
  | letter :: colon :: separator :: below =>
    if isLetter letter && colon = ':'.toNat && separator = backslash && isLine below then some (letter, below) else none
  | _ => none

/-- `replace("\\", "/")` -/
def unslash (s : Text) : Text := s.map fun c => if c = backslash then slash else c

/-- `candidate`, once the spelling is told. No other character lowers to one of `ubuntu`. -/
def candidate (value : Text) : Option Text :=
  match unc value with
  | some (host, below) => if host.map lower = text "ubuntu" then some (slash :: unslash below) else none
  | none =>
    match drive value with
    | some (letter, below) => some (text "/mnt/" ++ [lower letter] ++ slash :: unslash below)
    | none => some value

/-- `_canonical_recorded`, of a text. -/
def canonicalRecorded (value : Text) : Option Text := do
  guard (value ≠ [] ∧ 0 ∉ value)
  let candidate ← candidate value
  guard (candidate.head? = some slash ∧ backslash ∉ candidate ∧ ¬[slash, slash] <:+: candidate)
  let names := (candidate.splitOn slash).tail
  guard (names ≠ [] ∧ ∀ part ∈ names, part ≠ [] ∧ part ≠ text "." ∧ part ≠ text "..")
  some (slash :: [slash].intercalate (parts candidate))

/-- `_canonical_recorded`, of any value. -/
def canonicalValue : Doc → Option Text
  | .str s => canonicalRecorded s
  | _ => none

/-- `PurePosixPath(_).is_relative_to(_)`, of canonical locators. -/
def Under (locator boundary : Text) : Prop := parts boundary <+: parts locator

instance (l b : Text) : Decidable (Under l b) := inferInstanceAs (Decidable (_ <+: _))

/-- A locator that is its own canonical form. -/
def Canonical (l : Text) : Prop := canonicalRecorded l = some l

instance (l : Text) : Decidable (Canonical l) := inferInstanceAs (Decidable (_ = _))

variable {s l m : Text}

theorem unc_rooted (h : s.head? = some slash) : unc s = none := by
  cases s with
  | nil => cases h
  | cons c s =>
    cases h
    refine if_neg fun h => ?_
    simp only [Bool.and_eq_true, List.all_eq_true] at h
    have := h.1.1.2 (backslash, slash) (by simp [wslPrefix, text, backslash])
    revert this
    decide

theorem drive_rooted (h : s.head? = some slash) : drive s = none := by
  cases s with
  | nil => cases h
  | cons c s =>
    cases h
    unfold drive
    split
    · next heq =>
      cases heq
      rw [if_neg]
      intro h
      simp only [Bool.and_eq_true] at h
      have := h.1.1.1
      revert this
      decide
    · rfl

/-- A text that begins with a slash is read as it is. -/
theorem candidate_rooted (h : s.head? = some slash) : candidate s = some s := by
  rw [candidate, unc_rooted h, drive_rooted h]

theorem unc_some {host below : Text} (h : unc s = some (host, below)) : below <:+ s := by
  simp only [unc] at h
  split_ifs at h
  cases h
  exact (List.tail_suffix _).trans ((List.dropWhile_suffix _).trans (List.drop_suffix _ _))

theorem drive_some {letter : Nat} {below : Text} (h : drive s = some (letter, below)) : letter ∈ s ∧ below <:+ s := by
  unfold drive at h
  split at h
  · split_ifs at h
    cases h
    exact ⟨List.mem_cons_self, (List.suffix_cons _ _).trans ((List.suffix_cons _ _).trans (List.suffix_cons _ _))⟩
  · cases h

theorem zero_unslash (h : 0 ∉ s) : 0 ∉ unslash s := by
  intro hz
  obtain ⟨c, hc, hcz⟩ := List.mem_map.mp hz
  split_ifs at hcz with hb
  · exact absurd hcz (by decide)
  · exact h (hcz ▸ hc)

theorem zero_candidate (h : candidate s = some l) (hs : 0 ∉ s) : 0 ∉ l := by
  unfold candidate at h
  split at h
  · next host below hu =>
    split_ifs at h
    cases h
    have hb : 0 ∉ below := fun hz => hs ((unc_some hu).subset hz)
    exact fun hz => (List.mem_cons.mp hz).elim (by decide) (zero_unslash hb)
  · split at h
    · next letter below hd =>
      cases h
      obtain ⟨hl, hb⟩ := drive_some hd
      have hlow : lower letter ≠ 0 := by
        have hne : letter ≠ 0 := fun hz => hs (hz ▸ hl)
        rw [lower]
        split_ifs <;> omega
      have hbelow : 0 ∉ unslash below := zero_unslash fun hz => hs (hb.subset hz)
      simp only [List.mem_append, List.mem_cons, List.not_mem_nil, or_false, not_or]
      exact ⟨⟨by decide, hlow.symm⟩, by decide, hbelow⟩
    · cases h
      exact hs

/-- Names that `_canonical_recorded` admits are the parts, and the text is put together from them. -/
theorem rooted_parts (hr : s.head? = some slash)
    (hn : ∀ part ∈ (s.splitOn slash).tail, part ≠ [] ∧ part ≠ text "." ∧ part ≠ text "..") :
    parts s = (s.splitOn slash).tail ∧ slash :: [slash].intercalate (parts s) = s := by
  cases s with
  | nil => cases hr
  | cons c s =>
    cases hr
    rw [List.splitOn_cons_eq_if_modifyHead, if_pos (beq_self_eq_true _), List.tail_cons] at hn
    have hp : parts (slash :: s) = s.splitOn slash := by
      rw [parts, List.splitOn_cons_eq_if_modifyHead, if_pos (beq_self_eq_true _), List.filter_cons_of_neg (by simp), List.filter_eq_self]
      exact fun part hm => decide_eq_true ⟨(hn part hm).1, (hn part hm).2.1⟩
    rw [hp, List.splitOn_cons_eq_if_modifyHead, if_pos (beq_self_eq_true _), List.tail_cons, List.intercalate_splitOn]
    exact ⟨rfl, rfl⟩

theorem canonicalRecorded_iff : canonicalRecorded s = some l ↔ (s ≠ [] ∧ 0 ∉ s) ∧ candidate s = some l ∧
    (l.head? = some slash ∧ backslash ∉ l ∧ ¬[slash, slash] <:+: l) ∧ (l.splitOn slash).tail ≠ [] ∧
    ∀ part ∈ (l.splitOn slash).tail, part ≠ [] ∧ part ≠ text "." ∧ part ≠ text ".." := by
  simp only [canonicalRecorded, Option.bind_eq_bind, Option.bind_eq_some_iff, Option.guard_eq_some']
  constructor
  · rintro ⟨-, hs, c, hc, -, hr, -, hn, hl⟩
    have he := (rooted_parts hr.1 hn.2).2
    rw [Option.some.inj hl] at he
    subst he
    exact ⟨hs, hc, hr, hn⟩
  · rintro ⟨hs, hc, hr, hn⟩
    exact ⟨(), hs, l, hc, (), hr, (), hn, congrArg some (rooted_parts hr.1 hn.2).2⟩

/-- What comes out is its own canonical form. -/
theorem canonicalRecorded_canonical (h : canonicalRecorded s = some l) : Canonical l := by
  obtain ⟨hs, hc, hr, hn⟩ := canonicalRecorded_iff.mp h
  have hne : l ≠ [] := fun he => by rw [he] at hr; exact absurd hr.1 (by simp)
  exact canonicalRecorded_iff.mpr ⟨⟨hne, zero_candidate hc hs.2⟩, candidate_rooted hr.1, hr, hn⟩

/-- A text that begins with a slash is canonical, or is refused. -/
theorem canonicalRecorded_rooted (hr : s.head? = some slash) (h : canonicalRecorded s = some l) : l = s := by
  have hc := (canonicalRecorded_iff.mp h).2.1
  rw [candidate_rooted hr] at hc
  exact (Option.some.inj hc).symm

theorem Canonical.rooted (h : Canonical l) : l.head? = some slash := (canonicalRecorded_iff.mp h).2.2.1.1

theorem Canonical.spelled (h : Canonical l) : slash :: [slash].intercalate (parts l) = l := by
  obtain ⟨-, -, hr, -, hn⟩ := canonicalRecorded_iff.mp h
  exact (rooted_parts hr.1 hn).2

theorem Canonical.named (h : Canonical l) : parts l ≠ [] := by
  obtain ⟨-, -, hr, hne, hn⟩ := canonicalRecorded_iff.mp h
  rw [(rooted_parts hr.1 hn).1]
  exact hne

theorem Canonical.parts_inj (hl : Canonical l) (hm : Canonical m) (h : parts l = parts m) : l = m := by
  rw [← hl.spelled, h, hm.spelled]

/-! ## Paths of the system -/

/-- The text of a path with these parts and this root. -/
def spell (root : Text) (names : List Text) : Text :=
  if root = [] ∧ names = [] then text "." else root ++ [slash].intercalate names

/-- `str(Path(_))`'s root: two slashes are one of their own. -/
def rootOf (path : Text) : Text :=
  if [slash, slash] <+: path ∧ ¬[slash, slash, slash] <+: path then [slash, slash] else if isAbsolute path then [slash] else []

/-- `str(Path(_))` -/
def strPath (path : Text) : Text := spell (rootOf path) (parts path)

/-- `str(Path(_).parent)` -/
def parentPath (path : Text) : Text := spell (rootOf path) (parts path).dropLast

theorem splitOn_pure {a : Nat} : ∀ {s : Text}, ∀ part ∈ s.splitOn a, a ∉ part
  | [], part, hp => by
    rw [List.splitOn_nil, List.mem_singleton] at hp
    simp [hp]
  | c :: s, part, hp => by
    rw [List.splitOn_cons_eq_if_modifyHead] at hp
    have ih := @splitOn_pure a s
    split_ifs at hp with hc
    · rcases List.mem_cons.mp hp with rfl | hp
      · simp
      · exact ih part hp
    · cases hs : s.splitOn a with
      | nil => exact absurd hs (List.splitOn_ne_nil a s)
      | cons first l =>
        rw [hs] at hp ih
        rcases List.mem_cons.mp hp with rfl | hp
        · have := ih first List.mem_cons_self
          simp only [List.mem_cons, not_or]
          exact ⟨fun he => hc (beq_iff_eq.mpr he.symm), this⟩
        · exact ih part (List.mem_cons_of_mem _ hp)

/-- A part is a name: not empty, no single dot, and without a slash. -/
def Part (part : Text) : Prop := slash ∉ part ∧ part ≠ [] ∧ part ≠ text "."

theorem parts_part : ∀ part ∈ parts s, Part part := fun part hp => by
  obtain ⟨hm, hd⟩ := List.mem_filter.mp hp
  exact ⟨splitOn_pure part hm, of_decide_eq_true hd⟩

theorem parts_spelled {names : List Text} (hn : ∀ part ∈ names, Part part) :
    parts (slash :: [slash].intercalate names) = names := by
  have hf : names.filter (fun s => s ≠ [] ∧ s ≠ text ".") = names :=
    List.filter_eq_self.mpr fun part hp => decide_eq_true (hn part hp).2
  rw [parts, List.splitOn_cons_eq_if_modifyHead, if_pos (beq_self_eq_true _), List.filter_cons_of_neg (by simp)]
  by_cases he : names = []
  · rw [he]
    decide
  · rw [List.splitOn_intercalate slash (fun part hp => (hn part hp).1) he, hf]

/-- Where a path and its parent have a canonical form, it is their own text. -/
theorem parent_parts {path b : Text} (ha : isAbsolute path) (h : canonicalRecorded (strPath path) = some l)
    (hb : canonicalRecorded (parentPath path) = some b) : l = strPath path ∧ b = parentPath path ∧ parts b = (parts l).dropLast := by
  have hroot : rootOf path = [slash] ∨ rootOf path = [slash, slash] := by
    rw [rootOf]
    split_ifs
    · exact .inr rfl
    · exact .inl rfl
  have hspell : ∀ names, rootOf path = [slash] → spell (rootOf path) names = slash :: [slash].intercalate names := by
    intro names hr
    rw [spell, hr, if_neg (by simp)]
    rfl
  have hhead : ∀ names, (spell (rootOf path) names).head? = some slash := by
    intro names
    rcases hroot with hr | hr <;> rw [spell, hr, if_neg (by simp)] <;> rfl
  have hl := canonicalRecorded_rooted (hhead _) h
  have hm := canonicalRecorded_rooted (hhead _) hb
  rcases hroot with hr | hr
  · refine ⟨hl, hm, ?_⟩
    rw [hm, hl, hspell _ hr, hspell _ hr, parts_spelled parts_part,
      parts_spelled fun part hp => parts_part part (List.dropLast_subset _ hp)]
  · refine absurd ?_ (canonicalRecorded_iff.mp h).2.2.1.2.2
    rw [hl, spell, hr, if_neg (by simp)]
    exact (List.prefix_append _ _).isInfix

/-! ## The walk -/

/-- `_BROWSER_MODULES` -/
def browserModules : List String :=
  ["indexeddb-crash-child.js", "repair-probe.js", "src/canonical.js", "src/canonicalize.js", "src/errors.js", "src/spool.js",
    "src/offline/validators.js"]

def campaignScopes : List Text := [text "BROWSER_LOOPBACK_ACK", text "INDEXEDDB_SPOOL_ONLY"]

/-- `_GRAPH_OWNER_SCOPES` -/
def graphOwnerScopes : List Text := campaignScopes ++ [text "DISPOSABLE_DESTRUCTION"]

def isArray : Doc → Bool
  | .arr _ => true
  | _ => false

/-- `campaign` -/
def isCampaign (scope : Text) (members : List (Text × Doc)) : Bool :=
  scope ∈ campaignScopes &&
  Trees.keysAre members ["result", "executed_vector_ids", "records", "mutation_results", "killed_child_count",
    "qualification_scope", "legacy_full_qualification"] &&
  isArray (dictGet (.obj members) "records") && isArray (dictGet (.obj members) "mutation_results")

/-- The text of a value that is one. -/
def textOf : Doc → Option Text
  | .str s => some s
  | _ => none

section Walk

variable (whole : Text → Option Int)

/-- The modules of an extension under test. -/
def moduleReferences (members : List (Text × Doc)) : Option (List (Text × Text)) :=
  match dictGet (.obj members) "case_directory", dictGet (.obj members) "module_hashes" with
  | .str caseDirectory, .obj modules => do
    guard (Trees.keysAre modules browserModules)
    let digests ← modules.mapM fun m => (textOf m.2).map (m.1, ·)
    guard (equal whole (dictGet (.obj members) "typescript_execution_binding")
      (.obj [(text "before", .obj modules), (text "after", .obj modules)]))
    let directory ← canonicalRecorded caseDirectory
    some ((digests.insertionSort fun a b => a.1 ≤ b.1).map fun m =>
      (directory ++ text "/test-extension" ++ slash :: m.1, m.2))
  | _, _ => none

/-- What the scope of an object says of it; an array or an object is no member of a set. -/
def graphReferences (members : List (Text × Doc)) : Option (List (Text × Text)) :=
  match dictGet (.obj members) "qualification_scope" with
  | .arr _ | .obj _ => none
  | .str scope =>
    if scope ∈ graphOwnerScopes ∧ ¬isCampaign scope members then moduleReferences whole members else some []
  | _ => some []

/-- The object's own `path` beside its `sha256` or its `binary_sha256`. -/
def ownReferences (members : List (Text × Doc)) : List (Text × Text) :=
  match dictGet (.obj members) "path", dictGet (.obj members) "sha256", dictGet (.obj members) "binary_sha256" with
  | .str path, .str digest, _ => [(path, digest)]
  | .str path, _, .str digest => [(path, digest)]
  | _, _, _ => []

/-- A member whose name ends in `_path`, beside the one that ends in `_sha256`. -/
def pairedReference (members : List (Text × Doc)) (key : Text) (value : Doc) : List (Text × Text) :=
  match value with
  | .str path =>
    if text "_path" <:+ key then
      match members.lookup (key.take (key.length - 5) ++ text "_sha256") with
      | some (.str digest) => [(path, digest)]
      | _ => []
    else []
  | _ => []

mutual

/-- `_artifact_references`: locators as they are written, each with its digest. -/
def artifactReferences : Doc → Option (List (Text × Text))
  | .obj members => do
    let graph ← graphReferences whole members
    let below ← memberReferences members members
    some (graph ++ ownReferences members ++ below)
  | .arr items => itemReferences items
  | _ => some []

def itemReferences : List Doc → Option (List (Text × Text))
  | [] => some []
  | v :: l => do
    let first ← artifactReferences v
    let rest ← itemReferences l
    some (first ++ rest)

def memberReferences (members : List (Text × Doc)) : List (Text × Doc) → Option (List (Text × Text))
  | [] => some []
  | (key, v) :: l => do
    let first ← artifactReferences v
    let rest ← memberReferences members l
    some (pairedReference members key v ++ first ++ rest)

end

end Walk

/-! ## Declarations -/

/-- `lstat()` -/
inductive Stat where
  | directory
  | regular (links : Nat)
  | symlink
  | special
  deriving DecidableEq

/-- What the tools run on. Nothing on it changes. -/
structure World where
  sha256 : Bytes → BitVec 256
  /-- The integer that a float equals. -/
  whole : Text → Option Int
  /-- `json.loads` of the text of a file. -/
  loads : Bytes → Option Doc
  /-- `str(Path(_).resolve())` -/
  resolve : Text → Text
  resolve_rooted : ∀ path, (resolve path).head? = some slash
  lstat : Text → Option Stat
  /-- `read_bytes()`, through symbolic links. -/
  readBytes : Text → Option Bytes
  /-- `resolve(strict=True).is_file()` -/
  isFile : Text → Bool

variable (w : World)

/-- `hashlib.sha256(_).hexdigest()` -/
def hexdigest (data : Bytes) : Text := text (hex (w.sha256 data))

structure Declaration where
  locator : Text
  boundary : Text
  digest : Text
  deriving DecidableEq

/-- Where a reference lies: in the longest boundary there is, or else in a live root, where its
file is looked at and left out. -/
def lies (retained live : List Text) (reference : Text × Text) : Option (Option Declaration) := do
  guard (Wire.hex64 reference.2)
  let locator ← canonicalRecorded reference.1
  match (retained.filter (Under locator ·)).argmax List.length with
  | some boundary => some (some ⟨locator, boundary, reference.2⟩)
  | none =>
    guard (∃ root ∈ live, Under locator root)
    guard (w.isFile locator ∧ (w.readBytes locator).map (hexdigest w) = some reference.2)
    some none

/-- One turn of the loop over the references. -/
def select (retained live : List Text) (selected : List (Text × Declaration)) (reference : Text × Text) :
    Option (List (Text × Declaration)) := do
  match ← lies w retained live reference with
  | none => some selected
  | some current =>
    match selected.lookup current.locator with
    | some prior => if prior = current then some selected else none
    | none => some (selected ++ [(current.locator, current)])

def retainedArtifactDeclarations (value : Doc) (retainedBoundaries liveRoots : List Text) : Option (List Declaration) := do
  let retained ← retainedBoundaries.mapM canonicalRecorded
  let live ← liveRoots.mapM canonicalRecorded
  let references ← artifactReferences w.whole value
  let selected ← references.foldlM (select w retained live) []
  some ((selected.insertionSort fun a b => a.1 ≤ b.1).map (·.2))

variable {w} {retained live : List Text} {reference : Text × Text} {selected chosen : List (Text × Declaration)}
  {d : Declaration}

theorem lies_iff {x : Option Declaration} : lies w retained live reference = some x ↔
    Wire.hex64 reference.2 ∧ ∃ l, canonicalRecorded reference.1 = some l ∧
      ((∃ b, (retained.filter (Under l ·)).argmax List.length = some b ∧ x = some ⟨l, b, reference.2⟩) ∨
        (∀ b ∈ retained, ¬Under l b) ∧ (∃ root ∈ live, Under l root) ∧ w.isFile l ∧
          (w.readBytes l).map (hexdigest w) = some reference.2 ∧ x = none) := by
  have hnone : ∀ {l}, (retained.filter (Under l ·)).argmax List.length = none ↔ ∀ b ∈ retained, ¬Under l b := by
    intro l
    rw [List.argmax_eq_none, List.filter_eq_nil_iff]
    simp only [decide_eq_true_eq]
  simp only [lies, Option.bind_eq_bind, Option.bind_eq_some_iff, Option.guard_eq_some', exists_const]
  constructor
  · rintro ⟨hd, l, hl, hx⟩
    refine ⟨hd, l, hl, ?_⟩
    split at hx
    · next b hb => exact .inl ⟨b, hb, (Option.some.inj hx).symm⟩
    · next hb =>
      simp only [Option.bind_eq_some_iff, Option.guard_eq_some', exists_const] at hx
      obtain ⟨hlive, ⟨hf, hr⟩, hx⟩ := hx
      exact .inr ⟨hnone.mp hb, hlive, hf, hr, (Option.some.inj hx).symm⟩
  · rintro ⟨hd, l, hl, ⟨b, hb, rfl⟩ | ⟨hb, hlive, hf, hr, rfl⟩⟩
    · refine ⟨hd, l, hl, ?_⟩
      rw [hb]
    · refine ⟨hd, l, hl, ?_⟩
      rw [hnone.mpr hb]
      simp only [Option.bind_eq_some_iff, Option.guard_eq_some', exists_const]
      exact ⟨hlive, ⟨hf, hr⟩, trivial⟩

/-- The locator a selection is kept by is its own, and no two are one. -/
structure Keyed (selected : List (Text × Declaration)) : Prop where
  own : ∀ e ∈ selected, e.1 = e.2.locator
  distinct : (selected.map (·.1)).Nodup

theorem Keyed.eq (hk : Keyed selected) {e f : Text × Declaration} (he : e ∈ selected) (hf : f ∈ selected) (h : e.1 = f.1) : e = f :=
  List.inj_on_of_nodup_map hk.distinct he hf h

theorem Keyed.lookup_iff (hk : Keyed selected) : selected.lookup l = some d ↔ (l, d) ∈ selected := by
  constructor
  · intro h
    obtain ⟨a, b, rfl, -⟩ := List.lookup_eq_some_iff.mp h
    exact List.mem_append_right _ List.mem_cons_self
  · intro h
    obtain ⟨a, b, rfl⟩ := List.append_of_mem h
    refine List.lookup_eq_some_iff.mpr ⟨a, b, rfl, fun e he => bne_iff_ne.mpr fun hle => ?_⟩
    have hd := hk.distinct
    rw [List.map_append, List.map_cons] at hd
    exact (List.nodup_append.mp hd).2.2 e.1 (List.mem_map_of_mem he) l List.mem_cons_self hle.symm

theorem Keyed.lookup_none (hk : Keyed selected) (h : selected.lookup d.locator = none) : Keyed (selected ++ [(d.locator, d)]) where
  own := by
    intro e he
    rcases List.mem_append.mp he with he | he
    · exact hk.own e he
    · rw [List.mem_singleton.mp he]
  distinct := by
    rw [List.map_append, List.map_cons, List.map_nil]
    refine hk.distinct.append (List.nodup_singleton _) ?_
    rintro k hk' hm
    obtain ⟨e, he, rfl⟩ := List.mem_map.mp hk'
    have := List.lookup_eq_none_iff.mp h e he
    simp [List.mem_singleton.mp hm] at this

theorem select_some (hk : Keyed selected) (h : select w retained live selected reference = some chosen) :
    Keyed chosen ∧ ∃ x, lies w retained live reference = some x ∧
      ∀ d, (d.locator, d) ∈ chosen ↔ (d.locator, d) ∈ selected ∨ x = some d := by
  rw [select, Option.bind_eq_bind, Option.bind_eq_some_iff] at h
  obtain ⟨x, hx, h⟩ := h
  cases x with
  | none =>
    cases h
    exact ⟨hk, none, hx, fun d => by simp⟩
  | some current =>
    simp only at h
    cases hp : selected.lookup current.locator with
    | some prior =>
      rw [hp] at h
      simp only at h
      split_ifs at h with he
      cases h
      have hm := hk.lookup_iff.mp hp
      rw [he] at hm
      refine ⟨hk, some current, hx, fun d => ⟨.inl, ?_⟩⟩
      rintro (hd | hd)
      · exact hd
      · rwa [← Option.some.inj hd]
    | none =>
      rw [hp] at h
      cases h
      refine ⟨hk.lookup_none hp, some current, hx, fun d => ?_⟩
      rw [List.mem_append, List.mem_singleton]
      refine or_congr_right ⟨fun he => ?_, fun he => ?_⟩
      · exact congrArg some (congrArg (·.2) he).symm
      · rw [Option.some.inj he]

theorem select_exists (hk : Keyed selected) {x : Option Declaration} (hx : lies w retained live reference = some x)
    (hc : ∀ d prior, x = some d → (d.locator, prior) ∈ selected → prior = d) :
    ∃ chosen, select w retained live selected reference = some chosen := by
  rw [select, Option.bind_eq_bind, hx, Option.bind_some]
  cases x with
  | none => exact ⟨selected, rfl⟩
  | some current =>
    simp only
    cases hp : selected.lookup current.locator with
    | none => exact ⟨_, rfl⟩
    | some prior => exact ⟨selected, if_pos (hc current prior rfl (hk.lookup_iff.mp hp))⟩

theorem selectAll_some {references : List (Text × Text)} (hk : Keyed selected)
    (h : references.foldlM (select w retained live) selected = some chosen) :
    Keyed chosen ∧ (∀ r ∈ references, ∃ x, lies w retained live r = some x) ∧
      ∀ d, (d.locator, d) ∈ chosen ↔ (d.locator, d) ∈ selected ∨ ∃ r ∈ references, lies w retained live r = some (some d) := by
  induction references generalizing selected with
  | nil =>
    cases h
    exact ⟨hk, by simp, by simp⟩
  | cons r references ih =>
    rw [List.foldlM_cons, Option.bind_eq_bind, Option.bind_eq_some_iff] at h
    obtain ⟨next, hr, h⟩ := h
    obtain ⟨hk', x, hx, hm⟩ := select_some hk hr
    obtain ⟨hc, hall, hmem⟩ := ih hk' h
    refine ⟨hc, ?_, fun d => ?_⟩
    · intro r' hr'
      rcases List.mem_cons.mp hr' with rfl | hr'
      · exact ⟨x, hx⟩
      · exact hall r' hr'
    · rw [hmem, hm, or_assoc]
      refine or_congr_right ?_
      simp only [List.mem_cons, exists_eq_or_imp, hx, Option.some.injEq]

theorem selectAll_exists {references : List (Text × Text)} (hk : Keyed selected)
    (hall : ∀ r ∈ references, ∃ x, lies w retained live r = some x)
    (hc : ∀ d e, ((d.locator, d) ∈ selected ∨ ∃ r ∈ references, lies w retained live r = some (some d)) →
      ((e.locator, e) ∈ selected ∨ ∃ r ∈ references, lies w retained live r = some (some e)) → d.locator = e.locator → d = e) :
    ∃ chosen, references.foldlM (select w retained live) selected = some chosen := by
  induction references generalizing selected with
  | nil => exact ⟨selected, rfl⟩
  | cons r references ih =>
    obtain ⟨x, hx⟩ := hall r List.mem_cons_self
    obtain ⟨next, hnext⟩ := select_exists hk hx fun d prior hd hp => by
      have hown : d.locator = prior.locator := hk.own _ hp
      have hnew : ∃ r' ∈ r :: references, lies w retained live r' = some (some d) := ⟨r, List.mem_cons_self, hx.trans (congrArg some hd)⟩
      exact hc prior d (.inl (hown ▸ hp)) (.inr hnew) hown.symm
    obtain ⟨hk', y, hy, hm⟩ := select_some hk hnext
    have hup : ∀ d, ((d.locator, d) ∈ next ∨ ∃ r ∈ references, lies w retained live r = some (some d)) →
        (d.locator, d) ∈ selected ∨ ∃ r' ∈ r :: references, lies w retained live r' = some (some d) := by
      rintro d (hd | ⟨r', hr', hd⟩)
      · rcases (hm d).mp hd with hd | hd
        · exact .inl hd
        · exact .inr ⟨r, List.mem_cons_self, hy.trans (congrArg some hd)⟩
      · exact .inr ⟨r', List.mem_cons_of_mem _ hr', hd⟩
    obtain ⟨chosen, hchosen⟩ := ih hk' (fun r' hr' => hall r' (List.mem_cons_of_mem _ hr'))
      fun d e hd he => hc d e (hup d hd) (hup e he)
    exact ⟨chosen, by rw [List.foldlM_cons, hnext, Option.bind_eq_bind, Option.bind_some, hchosen]⟩

/-- What the declarations of a value are: those of its references that lie in a boundary. -/
structure Declares (w : World) (retained live : List Text) (references : List (Text × Text)) (l : List Declaration) : Prop where
  all : ∀ r ∈ references, ∃ x, lies w retained live r = some x
  mem : ∀ d, d ∈ l ↔ ∃ r ∈ references, lies w retained live r = some (some d)
  distinct : (l.map (·.locator)).Nodup

theorem declarations_some {value : Doc} {boundaries roots : List Text} {l : List Declaration}
    (h : retainedArtifactDeclarations w value boundaries roots = some l) : ∃ retained live references,
      boundaries.mapM canonicalRecorded = some retained ∧ roots.mapM canonicalRecorded = some live ∧
      artifactReferences w.whole value = some references ∧ Declares w retained live references l := by
  simp only [retainedArtifactDeclarations, Option.bind_eq_bind, Option.bind_eq_some_iff, Option.some.injEq] at h
  obtain ⟨retained, hr, live, hl, references, ha, selected, hs, rfl⟩ := h
  obtain ⟨hk, hall, hm⟩ := selectAll_some ⟨by simp, by simp⟩ hs
  have hp := List.perm_insertionSort (fun a b : Text × Declaration => a.1 ≤ b.1) selected
  refine ⟨retained, live, references, hr, hl, ha, hall, fun d => ?_, ?_⟩
  · rw [(hp.map (·.2)).mem_iff, List.mem_map]
    constructor
    · rintro ⟨e, he, rfl⟩
      have hown := hk.own e he
      have := (hm e.2).mp (by rw [← hown]; exact he)
      simpa using this
    · intro hd
      exact ⟨(d.locator, d), (hm d).mpr (.inr hd), rfl⟩
  · rw [List.map_map, (hp.map _).nodup_iff]
    have heq : selected.map ((·.locator) ∘ (·.2)) = selected.map (·.1) := List.map_congr_left fun e he => (hk.own e he).symm
    rw [heq]
    exact hk.distinct

theorem declarations_exist {value : Doc} {boundaries roots : List Text} {references : List (Text × Text)}
    (hr : boundaries.mapM canonicalRecorded = some retained) (hl : roots.mapM canonicalRecorded = some live)
    (ha : artifactReferences w.whole value = some references) (hall : ∀ r ∈ references, ∃ x, lies w retained live r = some x)
    (hc : ∀ d e, (∃ r ∈ references, lies w retained live r = some (some d)) →
      (∃ r ∈ references, lies w retained live r = some (some e)) → d.locator = e.locator → d = e) :
    ∃ l, retainedArtifactDeclarations w value boundaries roots = some l := by
  have hnil : Keyed [] := ⟨by simp, by simp⟩
  obtain ⟨selected, hs⟩ := selectAll_exists hnil hall
    fun d e hd he => hc d e (hd.resolve_left (by simp)) (he.resolve_left (by simp))
  refine ⟨(selected.insertionSort fun a b => a.1 ≤ b.1).map (·.2), ?_⟩
  simp only [retainedArtifactDeclarations, Option.bind_eq_bind, hr, hl, ha, hs, Option.bind_some]

end BettingHelper.Retained
