/-
  BettingHelper.Retained.Artifacts — the read-only mapping from recorded locators to the
  files of a retained directory.

  `fromManifest` admits a manifest's rows one after another, each against the file it names
  and against the rows before it; `admitAll_iff` says when all of them pass.
-/

import BettingHelper.Retained.References

namespace BettingHelper.Retained

open BettingHelper.Lib.Json BettingHelper.Lib.FileTree BettingHelper.Vendor

/-- A regular file: `st_ino`, `st_nlink` and what is in it. -/
structure StoredFile where
  inode : Nat
  links : Nat
  bytes : Bytes
  deriving DecidableEq

/-- A retained directory, as it is reached by the path given for it. -/
structure Directory where
  tree : Tree Name StoredFile
  /-- `absolute() == resolve(strict=True)` -/
  resolved : Bool

def Directory.isRoot (d : Directory) : Bool := d.tree.find [] = some .directory && d.resolved

/-- The regular file at a relative path, below directories. -/
def Directory.target (d : Directory) (relative : Text) : Option StoredFile := do
  let path ← locate relative
  guard (path.inits.dropLast.all fun p => d.tree.find p = some .directory)
  d.tree.fileAt path

/-- What `rglob("*")` finds that is a file or a symbolic link. -/
def Directory.actual (d : Directory) : List Text :=
  d.tree.entries.filterMap fun e =>
    match e.2 with
    | .file _ | .symlink _ => some (posix e.1)
    | _ => none

/-- `_canonical_relative` -/
def canonicalRelative : Doc → Option Text
  | .str s =>
    if s = [] ∨ backslash ∈ s ∨ isAbsolute s ∨ asPosix s ≠ s ∨
      (parts s).any (fun part => part = [] ∨ part = text "." ∨ part = text "..") then none
    else some s
  | _ => none

/-- An integer that is no Boolean and not negative. -/
def naturalOf : Doc → Option Nat
  | .int n => if n < 0 then none else some n.toNat
  | _ => none

/-- `_Entry`, with the locator it is kept by. -/
structure ArtifactEntry where
  locator : Text
  boundary : Text
  relative : Text
  size : Nat
  digest : Text
  deriving DecidableEq

def rowNames : List String := ["recorded_locator", "recorded_boundary", "copied_relative_path", "size_bytes", "sha256"]

variable (w : World)

/-- The checks of a row that do not look at the others, and the file's inode. -/
def examine (boundaries : List Text) (d : Directory) (row : Doc) : Option (ArtifactEntry × Nat) :=
  match row with
  | .obj members => do
    guard (Trees.keysAre members rowNames)
    let locator ← canonicalValue (dictGet row "recorded_locator")
    let boundary ← canonicalValue (dictGet row "recorded_boundary")
    let relative ← canonicalRelative (dictGet row "copied_relative_path")
    let size ← naturalOf (dictGet row "size_bytes")
    let digest ← textOf (dictGet row "sha256")
    guard (boundary ∈ boundaries ∧ Under locator boundary ∧ locator ≠ boundary ∧ Wire.hex64 digest)
    let file ← d.target relative
    guard (file.links = 1 ∧ file.bytes.length = size ∧ hexdigest w file.bytes = digest)
    some (⟨locator, boundary, relative, size, digest⟩, file.inode)
  | _ => none

/-- One turn of the loop over the rows: no locator, relative path or inode twice. -/
def admitRow (boundaries : List Text) (d : Directory) (admitted : List (ArtifactEntry × Nat)) (row : Doc) :
    Option (List (ArtifactEntry × Nat)) := do
  let new ← examine w boundaries d row
  guard (new.1.locator ∉ admitted.map (·.1.locator) ∧ new.1.relative ∉ admitted.map (·.1.relative) ∧ new.2 ∉ admitted.map (·.2))
  some (admitted ++ [new])

/-- `RetainedArtifactIO` -/
structure RetainedArtifacts where
  recordedBoundaries : List Text
  physicalRoot : Directory
  entries : List ArtifactEntry

/-- `from_manifest` -/
def fromManifest (manifest : Doc) (d : Directory) : Option RetainedArtifacts :=
  match manifest, dictGet manifest "recorded_boundaries", dictGet manifest "files" with
  | .obj members, .arr boundaries, .arr files => do
    guard (Trees.keysAre members ["schema_version", "recorded_boundaries", "files"])
    guard (textOf (dictGet manifest "schema_version") = some (text "retained-artifact-manifest/v1"))
    guard d.isRoot
    let boundaries ← boundaries.mapM canonicalValue
    guard (boundaries ≠ [] ∧ boundaries.Nodup)
    let admitted ← files.foldlM (admitRow w boundaries d) []
    let relatives := admitted.map fun e => e.1.relative
    guard ((∀ r ∈ d.actual, r ∈ relatives) ∧ ∀ r ∈ relatives, r ∈ d.actual)
    some ⟨boundaries, d, admitted.map (·.1)⟩
  | _, _, _ => none

namespace RetainedArtifacts

variable (io : RetainedArtifacts)

def recordedLocators : List Text := io.entries.map (·.locator)

/-- `_entries.get(_)` -/
def entry (locator : Text) : Option ArtifactEntry := io.entries.find? (·.locator = locator)

def recordedBoundary (recordedLocator : Text) : Option Text := do
  let locator ← canonicalRecorded recordedLocator
  (io.entry locator).map (·.boundary)

def readBytes (recordedLocator recordedBoundary : Text) : Option Bytes := do
  let locator ← canonicalRecorded recordedLocator
  let boundary ← canonicalRecorded recordedBoundary
  let entry ← io.entry locator
  guard (entry.boundary = boundary ∧ io.physicalRoot.isRoot)
  let file ← io.physicalRoot.target entry.relative
  guard (file.links = 1 ∧ file.bytes.length = entry.size ∧ hexdigest w file.bytes = entry.digest)
  some file.bytes

end RetainedArtifacts

/-! ## Rows that are admitted -/

variable {w} {boundaries : List Text} {d : Directory} {row : Doc}

/-- What a row is admitted for. -/
structure Holds (w : World) (boundaries : List Text) (d : Directory) (e : ArtifactEntry) (inode : Nat) : Prop where
  locator : Canonical e.locator
  boundary : Canonical e.boundary
  bounded : e.boundary ∈ boundaries
  under : Under e.locator e.boundary
  below : e.locator ≠ e.boundary
  digest : Wire.hex64 e.digest
  file : ∃ f, d.target e.relative = some f ∧ f.inode = inode ∧ f.links = 1 ∧ f.bytes.length = e.size ∧ hexdigest w f.bytes = e.digest

theorem canonicalValue_some {v : Doc} {l : Text} (h : canonicalValue v = some l) : ∃ s, v = .str s ∧ canonicalRecorded s = some l := by
  unfold canonicalValue at h
  split at h
  · exact ⟨_, rfl, h⟩
  · cases h

theorem textOf_some {v : Doc} {s : Text} : textOf v = some s ↔ v = .str s := by
  unfold textOf
  split
  · simp
  · next h => exact ⟨nofun, fun hs => absurd hs (h s)⟩

theorem examine_some {e : ArtifactEntry} {inode : Nat} (h : examine w boundaries d row = some (e, inode)) :
    Holds w boundaries d e inode ∧ (∃ s, dictGet row "recorded_locator" = .str s ∧ canonicalRecorded s = some e.locator) ∧
      dictGet row "sha256" = .str e.digest := by
  unfold examine at h
  split at h
  · simp only [Option.bind_eq_bind, Option.bind_eq_some_iff, Option.guard_eq_some', exists_const] at h
    obtain ⟨-, l, hl, b, hb, r, hr, n, hn, digest, hd, ⟨hbound, hunder, hne, hhex⟩, f, hf, hfile, he⟩ := h
    cases he
    obtain ⟨s, hs, hsl⟩ := canonicalValue_some hl
    obtain ⟨s', -, hsb⟩ := canonicalValue_some hb
    exact ⟨⟨canonicalRecorded_canonical hsl, canonicalRecorded_canonical hsb, hbound, hunder, hne, hhex, f, hf, rfl, hfile⟩,
      ⟨s, hs, hsl⟩, textOf_some.mp hd⟩
  · cases h

/-- No two rows share a locator, a path or a file. -/
structure Distinct (l : List (ArtifactEntry × Nat)) : Prop where
  locators : (l.map (·.1.locator)).Nodup
  relatives : (l.map (·.1.relative)).Nodup
  inodes : (l.map (·.2)).Nodup

theorem nodup_concat_iff {α β : Type} {f : α → β} {l : List α} {a : α} (hl : (l.map f).Nodup) :
    ((l ++ [a]).map f).Nodup ↔ f a ∉ l.map f := by
  rw [List.map_append, List.map_cons, List.map_nil, List.nodup_append_comm, List.singleton_append, List.nodup_cons]
  exact and_iff_left hl

theorem admitRow_iff {l m : List (ArtifactEntry × Nat)} (hl : Distinct l) : admitRow w boundaries d l row = some m ↔
    ∃ new, examine w boundaries d row = some new ∧ m = l ++ [new] ∧ Distinct m := by
  simp only [admitRow, Option.bind_eq_bind, Option.bind_eq_some_iff, Option.guard_eq_some', exists_const]
  refine exists_congr fun new => and_congr_right fun _ => ?_
  constructor
  · rintro ⟨⟨hloc, hrel, hino⟩, he⟩
    have he := (Option.some.inj he).symm
    refine ⟨he, ?_⟩
    rw [he]
    exact ⟨(nodup_concat_iff hl.locators).mpr hloc, (nodup_concat_iff hl.relatives).mpr hrel, (nodup_concat_iff hl.inodes).mpr hino⟩
  · rintro ⟨rfl, hm⟩
    exact ⟨⟨(nodup_concat_iff hl.locators).mp hm.locators, (nodup_concat_iff hl.relatives).mp hm.relatives,
      (nodup_concat_iff hl.inodes).mp hm.inodes⟩, rfl⟩

theorem Distinct.left {l m : List (ArtifactEntry × Nat)} (h : Distinct (l ++ m)) : Distinct l where
  locators := (h.locators.sublist ((List.sublist_append_left l m).map _))
  relatives := (h.relatives.sublist ((List.sublist_append_left l m).map _))
  inodes := (h.inodes.sublist ((List.sublist_append_left l m).map _))

theorem admitAll_iff {rows : List Doc} {l m : List (ArtifactEntry × Nat)} (hl : Distinct l) :
    rows.foldlM (admitRow w boundaries d) l = some m ↔
      ∃ new, rows.mapM (examine w boundaries d) = some new ∧ m = l ++ new ∧ Distinct m := by
  induction rows generalizing l with
  | nil =>
    simp only [List.foldlM_nil, List.mapM_nil]
    constructor
    · rintro h
      cases h
      exact ⟨[], rfl, by simp, hl⟩
    · rintro ⟨new, hnew, rfl, -⟩
      cases hnew
      rw [List.append_nil]
      rfl
  | cons row rows ih =>
    simp only [List.foldlM_cons, List.mapM_cons, Option.bind_eq_bind, Option.bind_eq_some_iff]
    constructor
    · rintro ⟨l', hl', h⟩
      obtain ⟨x, hx, rfl, hd⟩ := (admitRow_iff hl).mp hl'
      obtain ⟨new, hnew, rfl, hd'⟩ := (ih hd).mp h
      exact ⟨x :: new, ⟨x, hx, new, hnew, rfl⟩, by simp, hd'⟩
    · rintro ⟨new, ⟨x, hx, new', hnew, he⟩, rfl, hd⟩
      cases he
      have hassoc : l ++ x :: new' = l ++ [x] ++ new' := by simp
      rw [hassoc] at hd
      exact ⟨l ++ [x], (admitRow_iff hl).mpr ⟨x, hx, rfl, hd.left⟩, (ih hd.left).mpr ⟨new', hnew, hassoc, hassoc ▸ hd⟩⟩

/-! ## Manifests that are accepted -/

theorem fromManifest_iff {manifest : Doc} {io : RetainedArtifacts} : fromManifest w manifest d = some io ↔
    ∃ members texts files admitted, manifest = .obj members ∧ dictGet manifest "recorded_boundaries" = .arr texts ∧
      dictGet manifest "files" = .arr files ∧ Trees.keysAre members ["schema_version", "recorded_boundaries", "files"] = true ∧
      dictGet manifest "schema_version" = .str (text "retained-artifact-manifest/v1") ∧ d.isRoot = true ∧
      texts.mapM canonicalValue = some io.recordedBoundaries ∧ io.recordedBoundaries ≠ [] ∧ io.recordedBoundaries.Nodup ∧
      files.mapM (examine w io.recordedBoundaries d) = some admitted ∧ Distinct admitted ∧
      (∀ r, r ∈ d.actual ↔ r ∈ admitted.map (·.1.relative)) ∧ io.physicalRoot = d ∧ io.entries = admitted.map (·.1) := by
  have hnil : Distinct [] := ⟨List.nodup_nil, List.nodup_nil, List.nodup_nil⟩
  constructor
  · intro h
    unfold fromManifest at h
    split at h
    · next members texts files hb hf =>
      simp only [Option.bind_eq_bind, Option.bind_eq_some_iff, Option.guard_eq_some', exists_const] at h
      obtain ⟨hk, hs, hr, bs, hbs, ⟨hne, hn⟩, admitted, hadmit, ⟨hto, hof⟩, he⟩ := h
      cases he
      obtain ⟨new, hnew, hadd, hd⟩ := (admitAll_iff hnil).mp hadmit
      rw [List.nil_append] at hadd
      subst hadd
      exact ⟨members, texts, files, admitted, rfl, hb, hf, hk, textOf_some.mp hs, hr, hbs, hne, hn, hnew, hd,
        fun r => ⟨hto r, hof r⟩, rfl, rfl⟩
    · cases h
  · rintro ⟨members, texts, files, admitted, rfl, hb, hf, hk, hs, hr, hbs, hne, hn, hnew, hd, hm, rfl, he⟩
    have hadmit := (admitAll_iff hnil).mpr ⟨admitted, hnew, (List.nil_append admitted).symm, hd⟩
    unfold fromManifest
    simp only [hb, hf, hk, textOf_some.mpr hs, hr, hbs, hadmit, guard, if_true, Option.bind_eq_bind, Option.pure_def,
      Option.bind_some, hne, hn, ne_eq, not_false_eq_true, and_self]
    rw [if_pos ⟨fun r => (hm r).mp, fun r => (hm r).mpr⟩, ← he]
    rfl

/-- What a mapping made of a manifest keeps. -/
structure RetainedArtifacts.Sound (w : World) (io : RetainedArtifacts) : Prop where
  root : io.physicalRoot.isRoot
  entries : ∀ e ∈ io.entries, ∃ inode, Holds w io.recordedBoundaries io.physicalRoot e inode
  distinct : (io.entries.map (·.locator)).Nodup

theorem fromManifest_sound {manifest : Doc} {io : RetainedArtifacts} (h : fromManifest w manifest d = some io) : io.Sound w := by
  obtain ⟨members, texts, files, admitted, -, -, -, -, -, hr, -, -, -, hnew, hd, -, hroot, he⟩ := fromManifest_iff.mp h
  refine ⟨hroot ▸ hr, fun e hm => ?_, ?_⟩
  · rw [he] at hm
    obtain ⟨⟨e, inode⟩, hmem, rfl⟩ := List.mem_map.mp hm
    obtain ⟨row, -, hrow⟩ := Lib.mapM_mem hnew _ hmem
    rw [hroot]
    exact ⟨inode, (examine_some hrow).1⟩
  · rw [he, List.map_map]
    exact hd.locators

namespace RetainedArtifacts.Sound

variable {io : RetainedArtifacts} {e : ArtifactEntry}

theorem entry_eq (h : io.Sound w) (he : e ∈ io.entries) : io.entry e.locator = some e := by
  rw [RetainedArtifacts.entry, List.find?_eq_some_iff_append]
  obtain ⟨l, m, hl⟩ := List.append_of_mem he
  refine ⟨decide_eq_true rfl, l, m, hl, fun x hx => ?_⟩
  have hd := h.distinct
  rw [hl, List.map_append, List.map_cons] at hd
  have hne := (List.nodup_append.mp hd).2.2 x.locator (List.mem_map_of_mem hx) e.locator List.mem_cons_self
  simp [hne]

theorem recordedBoundary_eq (h : io.Sound w) (he : e ∈ io.entries) : io.recordedBoundary e.locator = some e.boundary := by
  obtain ⟨_, hh⟩ := h.entries e he
  have hc : canonicalRecorded e.locator = some e.locator := hh.locator
  rw [RetainedArtifacts.recordedBoundary, Option.bind_eq_bind, hc, Option.bind_some, h.entry_eq he, Option.map_some]

/-- What is read at a locator has the digest of its row. -/
theorem readBytes_eq (h : io.Sound w) (he : e ∈ io.entries) :
    ∃ b, io.readBytes w e.locator e.boundary = some b ∧ hexdigest w b = e.digest := by
  obtain ⟨_, hh⟩ := h.entries e he
  obtain ⟨f, hf, -, hlinks, hsize, hdigest⟩ := hh.file
  have hl : canonicalRecorded e.locator = some e.locator := hh.locator
  have hb : canonicalRecorded e.boundary = some e.boundary := hh.boundary
  refine ⟨f.bytes, ?_, hdigest⟩
  simp only [RetainedArtifacts.readBytes, Option.bind_eq_bind, hl, hb, h.entry_eq he, h.root, hf, hlinks, hsize, hdigest,
    Option.bind_some, guard, and_self, if_true, Option.pure_def]

end RetainedArtifacts.Sound

end BettingHelper.Retained
