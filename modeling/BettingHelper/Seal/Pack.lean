/-
  BettingHelper.Seal.Pack — a review pack on disk, and the two files computed from its
  content: the governed content root and the manifest.

  SHA-256, NFC normalisation and the bytes `ZipFile` writes are what `Tools` stands for.
  Every failure of these tools ends as one error, so a step that can fail is an `Option`.
-/

import Mathlib
import BettingHelper.Lib.DateTime
import BettingHelper.Lib.JsonAscii

namespace BettingHelper.Seal

open BettingHelper.Lib.Json

/-! ## The directory -/

abbrev Bytes := List UInt8

inductive Node where
  | file (content : Bytes) (links : Nat)
  | directory
  /-- A symbolic link to a directory: listed and not walked. -/
  | linkedDirectory
  /-- Any other symbolic link, a socket, a device. -/
  | other
  deriving DecidableEq

def Node.overwrite (b : Bytes) : Node → Node
  | .file _ links => .file b links
  | n => n

@[simp] theorem overwrite_file (b c : Bytes) (n : Nat) : (Node.file c n).overwrite b = .file b n := rfl

@[simp] theorem overwrite_directory (b : Bytes) : Node.directory.overwrite b = .directory := rfl

@[simp] theorem overwrite_linkedDirectory (b : Bytes) : Node.linkedDirectory.overwrite b = .linkedDirectory := rfl

@[simp] theorem overwrite_other (b : Bytes) : Node.other.overwrite b = .other := rfl

structure Pack where
  name : Text
  /-- What `os.fsdecode` makes of a name: no high surrogate. -/
  decoded : name.all isPaired
  /-- A directory, and itself no symbolic link. -/
  isDirectory : Bool
  /-- `pack.absolute() == pack.resolve()`. -/
  resolved : Bool
  /-- What is below it, by relative path. -/
  entries : List (Text × Node)
  distinct : (entries.map (·.1)).Nodup
  /-- What is reached through a linked directory. -/
  beyond : Text → Option Node
  unlinked : (∀ e ∈ entries, e.2 ≠ .linkedDirectory) → ∀ r, beyond r = none

def slash : Nat := '/'.toNat

/-- The directories a relative path goes through. -/
def parents (r : Text) : List Text := ((List.range r.length).filter fun i => r[i]? = some slash).map r.take

/-- The entries with a file at `r` overwritten, or created with the directories above it. -/
def put (l : List (Text × Node)) (r : Text) (b : Bytes) : Option (List (Text × Node)) :=
  if r = [] then none
  else match l.lookup r with
  | some (.file _ _) => some (l.map fun e => if e.1 = r then (e.1, e.2.overwrite b) else e)
  | some _ => none
  | none =>
    if (parents r).any (fun d => (l.lookup d).any (· ≠ .directory)) then none
    else some (l ++ ((parents r).filter fun d => (l.lookup d).isNone).map (·, .directory) ++ [(r, .file b 1)])

/-- A file that was there is overwritten, and one that was not is new. -/
theorem put_cases {l m : List (Text × Node)} {r : Text} {b : Bytes} (h : put l r b = some m) : r ≠ [] ∧
    ((∃ c n, l.lookup r = some (.file c n) ∧ m = l.map fun e => if e.1 = r then (e.1, e.2.overwrite b) else e) ∨
      (l.lookup r = none ∧
        m = l ++ ((parents r).filter fun d => (l.lookup d).isNone).map (·, .directory) ++ [(r, .file b 1)])) := by
  unfold put at h
  by_cases hr : r = []
  · rw [if_pos hr] at h
    cases h
  · rw [if_neg hr] at h
    refine ⟨hr, ?_⟩
    split at h
    · next c n hl => exact .inl ⟨c, n, hl, (Option.some.inj h).symm⟩
    · cases h
    · next hl =>
      split_ifs at h
      exact .inr ⟨hl, (Option.some.inj h).symm⟩

/-- The directories above a path are shorter than it, and no two are as long. -/
theorem parents_length {r d : Text} (hd : d ∈ parents r) : d.length < r.length := by
  obtain ⟨i, hi, rfl⟩ := List.mem_map.mp hd
  have := List.mem_range.mp (List.mem_of_mem_filter hi)
  rw [List.length_take]
  omega

theorem parents_nodup (r : Text) : (parents r).Nodup := by
  refine List.Nodup.map_on ?_ (List.nodup_range.filter _)
  intro i hi j hj h
  have hi := List.mem_range.mp (List.mem_of_mem_filter hi)
  have hj := List.mem_range.mp (List.mem_of_mem_filter hj)
  have := congrArg List.length h
  simp only [List.length_take] at this
  omega

theorem lookup_none {l : List (Text × Node)} {r : Text} : l.lookup r = none ↔ r ∉ l.map (·.1) := by
  rw [List.lookup_eq_none_iff]
  constructor
  · intro h hr
    obtain ⟨e, he, rfl⟩ := List.mem_map.mp hr
    simpa using h e he
  · intro h e he
    have : r ≠ e.1 := fun hr => h (List.mem_map.mpr ⟨e, he, hr.symm⟩)
    simpa using this

theorem put_distinct {l m : List (Text × Node)} {r : Text} {b : Bytes} (h : put l r b = some m)
    (hl : (l.map (·.1)).Nodup) : (m.map (·.1)).Nodup := by
  obtain ⟨-, ⟨c, n, -, rfl⟩ | ⟨hr, rfl⟩⟩ := put_cases h
  · have hmap : (l.map fun e => if e.1 = r then (e.1, e.2.overwrite b) else e).map (·.1) = l.map (·.1) := by
      rw [List.map_map]
      refine List.map_congr_left fun e _ => ?_
      show (if e.1 = r then (e.1, e.2.overwrite b) else e).1 = e.1
      split_ifs <;> rfl
    rw [hmap]
    exact hl
  · simp only [List.map_append, List.map_map, List.map_cons, List.map_nil]
    have hdirs : (((parents r).filter fun d => (l.lookup d).isNone).map ((·.1) ∘ fun d : Text => (d, Node.directory))) =
        (parents r).filter fun d => (l.lookup d).isNone := List.map_id' _
    rw [hdirs]
    refine List.nodup_append.mpr ⟨List.nodup_append.mpr ⟨hl, (parents_nodup r).filter _, ?_⟩, List.nodup_singleton r, ?_⟩
    · rintro d hd e he rfl
      have := (List.mem_filter.mp he).2
      rw [Option.isNone_iff_eq_none, lookup_none] at this
      exact this hd
    · rintro d hd e he rfl
      rw [List.mem_singleton] at he
      subst he
      rcases List.mem_append.mp hd with hd | hd
      · exact lookup_none.mp hr hd
      · exact Nat.lt_irrefl _ (parents_length (List.mem_of_mem_filter hd))

theorem put_links {l m : List (Text × Node)} {r : Text} {b : Bytes} (h : put l r b = some m)
    (hm : ∀ e ∈ m, e.2 ≠ .linkedDirectory) : ∀ e ∈ l, e.2 ≠ .linkedDirectory := by
  intro e he hl
  obtain ⟨-, ⟨c, n, -, rfl⟩ | ⟨-, rfl⟩⟩ := put_cases h
  · refine hm _ (List.mem_map.mpr ⟨e, he, rfl⟩) ?_
    split_ifs
    · rw [hl]
      rfl
    · exact hl
  · exact hm e (List.mem_append_left _ (List.mem_append_left _ he)) hl

namespace Pack

def node (p : Pack) (r : Text) : Option Node :=
  match p.entries.lookup r with
  | some n => some n
  | none => p.beyond r

/-- A link to a file is not read: wherever one could be, `_safe_files` refuses it. -/
def read (p : Pack) (r : Text) : Option Bytes :=
  match p.node r with
  | some (.file b _) => some b
  | _ => none

def hasLink (p : Pack) : Bool := p.entries.any fun e => e.2 = .linkedDirectory

def write (p : Pack) (r : Text) (b : Bytes) : Option Pack :=
  match h : put p.entries r b with
  | none => none
  | some l => some { p with
      entries := l
      distinct := put_distinct h p.distinct
      unlinked := fun hl => p.unlinked (put_links h hl) }

end Pack

/-! ## What a write changes -/

variable {p q : Pack} {r : Text} {b : Bytes}

theorem mem_iff_lookup {β : Type} {l : List (Text × β)} (hl : (l.map (·.1)).Nodup) {n : β} :
    (r, n) ∈ l ↔ l.lookup r = some n := by
  constructor
  · intro h
    obtain ⟨l₁, l₂, rfl⟩ := List.append_of_mem h
    refine List.lookup_eq_some_iff.mpr ⟨l₁, l₂, rfl, fun e he => ?_⟩
    rw [List.map_append, List.nodup_append] at hl
    have := hl.2.2 e.1 (List.mem_map_of_mem he) r (by simp)
    simpa using fun hr : r = e.1 => this hr.symm
  · intro h
    obtain ⟨l₁, l₂, rfl, -⟩ := List.lookup_eq_some_iff.mp h
    exact List.mem_append_right _ List.mem_cons_self

theorem Pack.mem_entries {n : Node} : (r, n) ∈ p.entries ↔ p.entries.lookup r = some n := mem_iff_lookup p.distinct

theorem Pack.hasLink_iff : p.hasLink = false ↔ ∀ e ∈ p.entries, e.2 ≠ .linkedDirectory := by
  simp [Pack.hasLink]

/-- Without links, a file is read where one is listed. -/
theorem Pack.read_iff (hp : p.hasLink = false) : p.read r = some b ↔ ∃ n, (r, .file b n) ∈ p.entries := by
  have hb := p.unlinked (Pack.hasLink_iff.mp hp) r
  simp only [Pack.mem_entries, Pack.read, Pack.node]
  cases hr : p.entries.lookup r with
  | none => simp [hb]
  | some n => cases n <;> simp [eq_comm]

theorem Pack.write_eq (h : p.write r b = some q) : ∃ l, put p.entries r b = some l ∧ q.entries = l ∧ q.name = p.name ∧
    q.isDirectory = p.isDirectory ∧ q.resolved = p.resolved ∧ q.beyond = p.beyond := by
  unfold Pack.write at h
  split at h
  · cases h
  · next l hl =>
    cases h
    exact ⟨l, hl, rfl, rfl, rfl, rfl, rfl⟩

/-- Writing what is there changes nothing. -/
theorem Pack.write_same (hr : r ≠ []) (hp : p.hasLink = false) (h : p.read r = some b) : p.write r b = some p := by
  obtain ⟨n, hn⟩ := (Pack.read_iff hp).mp h
  have hl := Pack.mem_entries.mp hn
  have hput : put p.entries r b = some p.entries := by
    simp only [put, hl, hr, if_false]
    congr 1
    conv_rhs => rw [← List.map_id p.entries]
    refine List.map_congr_left fun e he => ?_
    show (if e.1 = r then (e.1, e.2.overwrite b) else e) = e
    split_ifs with he
    · obtain ⟨d, m⟩ := e
      subst he
      have := Pack.mem_entries.mp he
      rw [hl] at this
      cases this
      rfl
    · rfl
  unfold Pack.write
  split
  · next hnone =>
    rw [hput] at hnone
    cases hnone
  · next l hsome =>
    rw [hput] at hsome
    cases hsome
    rfl

/-- What is written is read, and every other file is as it was. -/
theorem Pack.write_read (hp : p.hasLink = false) (h : p.write r b = some q) :
    q.hasLink = false ∧ q.read r = some b ∧ ∀ d, d ≠ r → q.read d = p.read d := by
  obtain ⟨l, hl, he, -⟩ := Pack.write_eq h
  -- the files of the new list, in each of the two cases
  have hfiles : (∃ n, (r, .file b n) ∈ l) ∧ (∀ e ∈ l, e.2 ≠ .linkedDirectory) ∧
      ∀ d c n, d ≠ r → ((d, .file c n) ∈ l ↔ (d, .file c n) ∈ p.entries) := by
    obtain ⟨-, ⟨c, n, hr, rfl⟩ | ⟨-, rfl⟩⟩ := put_cases hl
    · refine ⟨⟨n, List.mem_map.mpr ⟨(r, .file c n), Pack.mem_entries.mpr hr, if_pos rfl⟩⟩, ?_, ?_⟩
      · intro e hm
        obtain ⟨a, ha, rfl⟩ := List.mem_map.mp hm
        have := Pack.hasLink_iff.mp hp a ha
        split_ifs
        · cases hn : a.2 <;> simp [hn] at this ⊢
        · exact this
      · intro d c n hd
        constructor
        · intro hm
          obtain ⟨a, ha, hae⟩ := List.mem_map.mp hm
          split_ifs at hae with har
          · exact absurd (by rw [← har]; exact (congrArg Prod.fst hae).symm) hd
          · rw [← hae]
            exact ha
        · intro hm
          exact List.mem_map.mpr ⟨_, hm, if_neg hd⟩
    · refine ⟨⟨1, List.mem_append_right _ List.mem_cons_self⟩, ?_, ?_⟩
      · intro e hm
        rcases List.mem_append.mp hm with hm | hm
        · rcases List.mem_append.mp hm with hm | hm
          · exact Pack.hasLink_iff.mp hp e hm
          · obtain ⟨a, -, rfl⟩ := List.mem_map.mp hm
            nofun
        · cases List.mem_singleton.mp hm
          nofun
      · intro d c n hd
        simp [hd]
  have hq : q.hasLink = false := by
    rw [Pack.hasLink_iff, he]
    exact hfiles.2.1
  refine ⟨hq, (Pack.read_iff hq).mpr (by rw [he]; exact hfiles.1), fun d hd => Option.ext fun c => ?_⟩
  rw [Pack.read_iff hq, Pack.read_iff hp, he]
  exact exists_congr fun n => hfiles.2.2 d c n hd

theorem lookup_overwrite (l : List (Text × Node)) {r d : Text} (hd : d ≠ r) (b : Bytes) :
    (l.map fun e => if e.1 = r then (e.1, e.2.overwrite b) else e).lookup d = l.lookup d := by
  induction l with
  | nil => rfl
  | cons e l ih =>
    obtain ⟨k, n⟩ := e
    rw [List.map_cons]
    by_cases hk : k = r
    · have hb : (d == k) = false := by simpa [hk] using hd
      simp only [hk, if_true, List.lookup_cons, hk ▸ hb, ih]
    · simp only [hk, if_false, List.lookup_cons, ih]

/-- Nothing but the file is made where no directory is above it. -/
theorem Pack.write_node (hr : parents r = []) (h : p.write r b = some q) {d : Text} (hd : d ≠ r) : q.node d = p.node d := by
  obtain ⟨l, hl, he, -, -, -, hb⟩ := Pack.write_eq h
  have hlookup : q.entries.lookup d = p.entries.lookup d := by
    rw [he]
    obtain ⟨-, ⟨c, n, -, rfl⟩ | ⟨-, rfl⟩⟩ := put_cases hl
    · exact lookup_overwrite _ hd b
    · have : (d == r) = false := by simpa using hd
      simp [hr, List.lookup_append, List.lookup_cons, this]
  rw [Pack.node, Pack.node, hlookup, hb]

/-- The second of two writes is the one that stays. -/
theorem put_put {l m : List (Text × Node)} {c : Bytes} (hd : (l.map (·.1)).Nodup) (h : put l r c = some m) :
    put m r b = put l r b := by
  have hm := put_distinct h hd
  obtain ⟨hr, ⟨x, n, hl, rfl⟩ | ⟨hl, rfl⟩⟩ := put_cases h
  · have hlm : (l.map fun e => if e.1 = r then (e.1, e.2.overwrite c) else e).lookup r = some (.file c n) := by
      rw [← mem_iff_lookup hm]
      exact List.mem_map.mpr ⟨_, (mem_iff_lookup hd).mpr hl, if_pos rfl⟩
    simp only [put, hr, hl, hlm, if_false, List.map_map]
    congr 1
    refine List.map_congr_left fun e _ => ?_
    obtain ⟨k, v⟩ := e
    by_cases hk : k = r
    · cases v <;> simp [hk]
    · simp [hk]
  · have hlm : (l ++ ((parents r).filter fun d => (l.lookup d).isNone).map (·, Node.directory) ++
        [(r, Node.file c 1)]).lookup r = some (.file c 1) := by
      rw [← mem_iff_lookup hm]
      exact List.mem_append_right _ List.mem_cons_self
    have hkeep : ∀ e ∈ l ++ ((parents r).filter fun d => (l.lookup d).isNone).map (·, Node.directory), e.1 ≠ r := by
      intro e he hk
      rcases List.mem_append.mp he with he | he
      · exact lookup_none.mp hl (List.mem_map.mpr ⟨e, he, hk⟩)
      · obtain ⟨d, hd, rfl⟩ := List.mem_map.mp he
        have := parents_length (List.mem_of_mem_filter hd)
        rw [show d = r from hk] at this
        exact Nat.lt_irrefl _ this
    have hsame := List.map_congr_left (f := fun e => if e.1 = r then (e.1, e.2.overwrite b) else e) (g := id)
      fun e he => if_neg (hkeep e he)
    simp only [put, hr, hl, if_false] at h
    split_ifs at h with hpar
    have hput : put l r b = some (l ++ ((parents r).filter fun d => (l.lookup d).isNone).map (·, .directory) ++
        [(r, .file b 1)]) := by
      simp only [put, hr, hl, hpar, if_false]
      rfl
    rw [hput]
    simp only [put, hr, hlm, if_false]
    rw [List.map_append, hsame, List.map_id]
    simp

theorem Pack.lookup_of_node {d : Text} (h : p.node d = none) : p.entries.lookup d = none := by
  rw [Pack.node] at h
  cases hl : p.entries.lookup d with
  | none => rfl
  | some n =>
    rw [hl] at h
    cases h

/-- A file with no directory above it can be created. -/
theorem Pack.write_new (hne : r ≠ []) (hr : parents r = []) (hnone : p.entries.lookup r = none) (b : Bytes) :
    ∃ q, p.write r b = some q := by
  have hput : put p.entries r b = some (p.entries ++ [(r, .file b 1)]) := by
    simp [put, hne, hnone, hr]
  unfold Pack.write
  split
  · next hl =>
    rw [hput] at hl
    cases hl
  · exact ⟨_, rfl⟩

theorem Pack.write_write {c : Bytes} {x : Pack} (h : p.write r c = some x) : x.write r b = p.write r b := by
  unfold Pack.write at h
  split at h
  · cases h
  · next l hl =>
    cases h
    have hput := put_put (b := b) p.distinct hl
    unfold Pack.write
    split
    · next hx =>
      rw [hput] at hx
      split
      · rfl
      · next y hy =>
        rw [hx] at hy
        cases hy
    · next x hx =>
      rw [hput] at hx
      split
      · next hy =>
        rw [hx] at hy
        cases hy
      · next y hy =>
        rw [hx] at hy
        cases hy
        rfl

theorem Pack.write_unlinked (h : p.write r b = some q) (hq : q.hasLink = false) : p.hasLink = false := by
  obtain ⟨l, hl, he, -⟩ := Pack.write_eq h
  rw [Pack.hasLink_iff, he] at hq
  exact Pack.hasLink_iff.mpr (put_links hl hq)

/-! ## What the tools use -/

/-- What `verify_descendant_qualification_receipt` returns. -/
structure Qualification where
  candidateQualificationSha256 : Doc
  commandResultRoot : Doc
  repositoryIdentityKind : Doc
  repositoryCommit : Doc
  repositoryTree : Doc
  repositoryFileRootSha256 : Doc

structure Tools (κ : Type) where
  sha256 : Bytes → BitVec 256
  /-- `unicodedata.normalize("NFC", _)`. -/
  nfc : Text → Text
  /-- The bytes of an archive with these members. -/
  zip : List (Text × Bytes) → Bytes
  /-- `datetime.fromisoformat(str(_).replace("Z", "+00:00"))` returns. -/
  isIsoFormat : Doc → Bool
  /-- The text `json.loads` makes of bytes whose encoding it detects. -/
  detected : Bytes → Option Text
  /-- The directory for temporary files is its own `resolve()`. -/
  temporaryResolved : Bool
  /-- `load_sealed_assembly_context`, of the pack's own copies. -/
  assembly : Pack → Text → Option κ
  sourcePath : κ → Text
  hasDescendantReceipt : κ → Bool
  qualification : κ → Option Qualification

variable {κ : Type} (t : Tools κ)

def hexdigest (b : Bytes) : Text := text (hex (t.sha256 b))

def digestBytes (x : BitVec 256) : Bytes := (List.range 32).map fun i => UInt8.ofNat (x.toNat / 256 ^ (31 - i) % 256)

/-- `json.dumps(_, sort_keys=True, separators=(",", ":")) + "\n"`, written. -/
def line (d : Doc) : Bytes := encode (asciiDumps d ++ ['\n'.toNat])

def get (d : Doc) (k : String) : Option Doc :=
  match d with
  | .obj l => l.lookup (text k)
  | _ => none

def readObject (b : Bytes) : Option Doc :=
  match readDoc b with
  | some (.obj l) => some (.obj l)
  | _ => none

def governedRootFile : Text := text "GOVERNED_CONTENT_ROOT.json"

def reviewMarkdown : Text := text "SELF_REVIEW_REPORT.md"

def reviewJson : Text := text "SELF_REVIEW_REPORT.json"

def manifestFile : Text := text "MANIFEST_SHA256.json"

def exclusions : List Text := [governedRootFile, reviewMarkdown, reviewJson, manifestFile]

def exclusionRegistry : Text := text "docs/registries/seal-exclusions.v1.json"

def descendantReceipt : Text := text "docs/receipts/descendant-repository-qualification-receipt.json"

def repo0Receipt : Text := text "docs/receipts/repo0-baseline-receipt.json"

def taskManifest : Text := text "docs/tasks/task-manifest.v6.3.6.json"

/-! ## The files of a pack -/

/-- Every regular file in it, when each has a good path and one link, and nothing else that
is no directory is there. -/
def filesOf (bad : Text → Bool) : List (Text × Node) → Option (List (Text × Bytes))
  | [] => some []
  | (r, .file b links) :: l => if links ≠ 1 || bad r then none else (filesOf bad l).map ((r, b) :: ·)
  | (_, .other) :: _ => none
  | (_, _) :: l => filesOf bad l

def sortFiles (l : List (Text × Bytes)) : List (Text × Bytes) := l.insertionSort fun a b => encode a.1 ≤ encode b.1

def unsafePath (r : Text) : Bool :=
  t.nfc r ≠ r || r = [] || r.head? = some slash || (r.splitOn slash).any (· ∈ [[], text ".", text ".."])

/-- `_safe_files`. -/
def safeFiles (p : Pack) (includeManifest strictDirectories : Bool) : Option (List (Text × Bytes)) := do
  guard p.isDirectory
  guard (strictDirectories = true → p.resolved ∧ p.hasLink = false)
  let files ← filesOf (unsafePath t) p.entries
  let files := files.filter fun m => includeManifest || m.1 ≠ manifestFile
  guard (files.map (·.1)).Nodup
  guard (files.all fun m => m.1.all isScalar)
  some (sortFiles files)

def ungoverned (r : Text) : Bool :=
  t.nfc r ≠ r || r.head? = some slash || (r.splitOn slash).any (· = text "..")

/-- `_files` of the governed root. -/
def governedFiles (p : Pack) : Option (List (Text × Bytes)) := do
  guard p.isDirectory
  let files ← filesOf (ungoverned t) p.entries
  let files := files.filter fun m => m.1 ∉ exclusions
  guard (files.all fun m => m.1.all isScalar)
  some (sortFiles files)

def fileDomain : Bytes := encode (text "HYBRID-DISCOVERY/v6.3.6/GOVERNED-FILE/v1\x00")

def rootDomain : Bytes := encode (text "HYBRID-DISCOVERY/v6.3.6/GOVERNED-ROOT/v1\x00")

def leaf (m : Text × Bytes) : Bytes :=
  digestBytes (t.sha256 (fileDomain ++ encode m.1 ++ [0] ++ digestBytes (t.sha256 m.2)))

/-- `len(path).to_bytes(4, "big")`. -/
def length4 (n : Nat) : Bytes := (List.range 4).map fun i => UInt8.ofNat (n / 256 ^ (3 - i) % 256)

def framed (m : Text × Bytes) : Bytes := length4 (encode m.1).length ++ encode m.1 ++ leaf t m

/-- What `compute_governed_content_root` asks of the exclusion registry. -/
def registryOk (p : Pack) : Bool :=
  match (p.read exclusionRegistry).bind readObject with
  | none => false
  | some d =>
    get d "schema_version" = some (str "seal-exclusions/v2") &&
    get d "governed_root_exclusions" = some (.arr (exclusions.map .str)) &&
    get d "external_outputs_must_be_outside_root" = some (.bool true)

/-- The record of `compute_governed_content_root`. -/
def governedRecord (p : Pack) : Option Doc := do
  guard (registryOk p)
  let files ← governedFiles t p
  guard (files.all fun m => (encode m.1).length < 2 ^ 32)
  some (record [("schema_version", str "governed-content-root/v1"),
    ("algorithm", str "HD636-GOVERNED-ROOT-SHA256-v1"),
    ("root_sha256", .str (hexdigest t (rootDomain ++ files.flatMap (framed t)))),
    ("file_count", .int files.length),
    ("exclusion_registry", .str exclusionRegistry)])

/-- `compute_governed_content_root`: the record, written into the pack. -/
def computeGovernedContentRoot (p : Pack) : Option (Pack × Doc) := do
  let record ← governedRecord t p
  let p ← p.write governedRootFile (line record)
  some (p, record)

def manifestEntry (m : Text × Bytes) : Doc :=
  record [("path", .str m.1), ("size", .str (decimal m.2.length)), ("sha256", .str (hexdigest t m.2))]

/-- The manifest's bytes. -/
def manifestOf (p : Pack) : Option Bytes := do
  let files ← safeFiles t p false false
  some (line (record [("schema_version", str "manifest-sha256/v1"), ("entries", .arr (files.map (manifestEntry t)))]))

def writeManifest (p : Pack) : Option Pack := do
  let b ← manifestOf t p
  p.write manifestFile b

/-- `shutil.copytree` into a new temporary directory, of a pack without links: a pack whose
name is no name of its own has no place there. -/
def Pack.copy (p : Pack) : Option Pack :=
  if p.name ∈ [[], text ".", text ".."] then none else some { p with resolved := t.temporaryResolved }

/-- The governed root, when the pack's own file is the one computed. -/
def verifiedGovernedRoot (p : Pack) : Option Doc := do
  let _ ← safeFiles t p true true
  let rebuilt ← p.copy t
  let (rebuilt, record) ← computeGovernedContentRoot t rebuilt
  let own ← p.read governedRootFile
  let computed ← rebuilt.read governedRootFile
  guard (own = computed)
  some record

/-! ## What is listed -/

variable {t : Tools κ}

theorem filesOf_mem {bad : Text → Bool} {l : List (Text × Node)} {fs : List (Text × Bytes)} (h : filesOf bad l = some fs) :
    (∀ r b, (r, b) ∈ fs ↔ ∃ n, (r, .file b n) ∈ l) ∧ (fs.map (·.1)).Sublist (l.map (·.1)) := by
  induction l generalizing fs with
  | nil =>
    cases h
    exact ⟨by simp, List.Sublist.refl _⟩
  | cons e l ih =>
    obtain ⟨d, n⟩ := e
    cases n with
    | file c links =>
      rw [filesOf] at h
      split_ifs at h
      obtain ⟨gs, hg, rfl⟩ := Option.map_eq_some_iff.mp h
      obtain ⟨hm, hs⟩ := ih hg
      refine ⟨fun r b => ?_, hs.cons_cons d⟩
      rw [List.mem_cons, hm]
      constructor
      · rintro (heq | ⟨n, hn⟩)
        · cases heq
          exact ⟨links, List.mem_cons_self⟩
        · exact ⟨n, List.mem_cons_of_mem _ hn⟩
      · rintro ⟨n, hn⟩
        rcases List.mem_cons.mp hn with heq | hn
        · cases heq
          exact .inl rfl
        · exact .inr ⟨n, hn⟩
    | other => cases h
    | directory =>
      obtain ⟨hm, hs⟩ := ih h
      exact ⟨fun r b => by simp [hm], hs.cons d⟩
    | linkedDirectory =>
      obtain ⟨hm, hs⟩ := ih h
      exact ⟨fun r b => by simp [hm], hs.cons d⟩

theorem sortFiles_perm (l : List (Text × Bytes)) : (sortFiles l).Perm l := List.perm_insertionSort _ _

/-- The files listed are those that are read, each once. -/
theorem safeFiles_mem {strict : Bool} {l : List (Text × Bytes)} (hp : p.hasLink = false)
    (h : safeFiles t p true strict = some l) : (l.map (·.1)).Nodup ∧ ∀ r b, (r, b) ∈ l ↔ p.read r = some b := by
  simp only [safeFiles, Option.bind_eq_bind, Option.bind_eq_some_iff, Option.guard_eq_some', exists_const, Bool.true_or,
    List.filter_true] at h
  obtain ⟨-, -, fs, hfs, hn, -, hl⟩ := h
  cases hl
  refine ⟨((sortFiles_perm fs).map (·.1)).nodup_iff.mpr hn, fun r b => ?_⟩
  rw [(sortFiles_perm fs).mem_iff, (filesOf_mem hfs).1, Pack.read_iff hp]

theorem safeFiles_strict {m : Bool} {l : List (Text × Bytes)} (h : safeFiles t p m true = some l) :
    p.isDirectory ∧ p.resolved ∧ p.hasLink = false := by
  simp only [safeFiles, Option.bind_eq_bind, Option.bind_eq_some_iff, Option.guard_eq_some', exists_const] at h
  obtain ⟨hd, hs, -⟩ := h
  exact ⟨hd, hs trivial⟩

end BettingHelper.Seal
