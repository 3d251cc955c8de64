/-
  BettingHelper.Retained.Inventory — the retained directory and the manifest of it, written.

  `writeClosedInventory` copies each source once, under the SHA-256 of its locator, into a
  directory that was not there. Proved (`written_accepted`): `fromManifest` accepts what it
  returns, with one entry for every locator of the sources.
-/

import Mathlib
import BettingHelper.Retained.Artifacts
import BettingHelper.Trees.Binding

namespace BettingHelper.Retained

open BettingHelper.Lib.Json BettingHelper.Lib.FileTree BettingHelper.Vendor

/-! ## Sources -/

/-- A file, and the locator and the boundary it is recorded under. -/
structure Source where
  path : Text
  recorded : Text
  boundary : Text

variable (w : World)

def collectRetainedSources (value : Doc) (retainedBoundaries liveRoots : List Text) : Option (List Source) := do
  let declarations ← retainedArtifactDeclarations w value retainedBoundaries liveRoots
  declarations.mapM fun d => do
    guard (w.lstat d.locator = some (.regular 1))
    guard ((w.readBytes d.locator).map (hexdigest w) = some d.digest)
    some ⟨d.locator, d.locator, d.boundary⟩

/-! ## The directory -/

/-- How the system makes files. -/
structure Disk where
  system : Tree.System Name
  /-- The inode of a new file, beside the ones there are. -/
  inode : List Nat → Nat
  fresh : ∀ l, inode l ∉ l

def inodes (t : Tree Name StoredFile) : List Nat :=
  t.entries.filterMap fun e =>
    match e.2 with
    | .file f => some f.inode
    | _ => none

def filesName : Name := component "files" (by decide)

theorem bin_component (digest : BitVec 256) : Component (text (hex digest) ++ text ".bin") := by
  have hhex := Wire.hex_hex64 digest
  rw [Wire.hex64, Bool.and_eq_true, decide_eq_true_eq, List.all_eq_true] at hhex
  have hmem : ∀ c ∈ text (hex digest) ++ text ".bin", Wire.isHex c ∨ c ∈ text ".bin" := fun c hc =>
    (List.mem_append.mp hc).imp_left (hhex.2 c)
  have hlength : 4 < (text (hex digest) ++ text ".bin").length := by
    rw [List.length_append, hhex.1]
    decide
  refine ⟨fun he => ?_, fun hs => ?_, fun hz => ?_, fun he => ?_, fun he => ?_⟩
  · rw [he] at hlength
    cases hlength
  · exact absurd (hmem _ hs) (by decide)
  · exact absurd (hmem _ hz) (by decide)
  · exact absurd (he ▸ hlength) (by decide)
  · exact absurd (he ▸ hlength) (by decide)

/-- `files/{_}.bin` -/
def relativePath (digest : BitVec 256) : Path := [filesName, ⟨text (hex digest) ++ text ".bin", bin_component digest⟩]

/-- `target.parent.mkdir(parents=True, exist_ok=True)` and `target.write_bytes(data)` -/
def keep (disk : Disk) (t : Tree Name StoredFile) (path : Path) (data : Bytes) : Tree Name StoredFile × Bool :=
  t.place disk.system path fun old =>
    match old with
    | some f => { f with bytes := data }
    | none => ⟨disk.inode (inodes t), 1, data⟩

/-! ## The inventory -/

/-- What a source is known by: its boundary, its content and the file it is. -/
structure Identity where
  boundary : Text
  data : Bytes
  file : Text
  deriving DecidableEq

structure Writing where
  rows : List ArtifactEntry
  seen : List (Text × Identity)
  closure : Tree Name StoredFile

def writeSource (disk : Disk) (s : Writing) (source : Source) : Option Writing := do
  let recorded ← canonicalRecorded source.recorded
  let boundary ← canonicalRecorded source.boundary
  guard (w.lstat source.path = some (.regular 1))
  let data ← w.readBytes source.path
  let identity := ⟨boundary, data, w.resolve source.path⟩
  match s.seen.lookup recorded with
  | some prior => if prior = identity then some s else none
  | none =>
    -- `encode()` takes no surrogate
    guard (recorded.all isScalar)
    let relative := relativePath (w.sha256 (encode recorded))
    match keep disk s.closure relative data with
    | (_, false) => none
    | (closure, true) =>
      some ⟨s.rows ++ [⟨recorded, boundary, posix relative, data.length, hexdigest w data⟩],
        s.seen ++ [(recorded, identity)], closure⟩

def rowDoc (e : ArtifactEntry) : Doc :=
  .obj [(text "recorded_locator", .str e.locator), (text "recorded_boundary", .str e.boundary),
    (text "copied_relative_path", .str e.relative), (text "size_bytes", .int e.size), (text "sha256", .str e.digest)]

/-- `sorted({...})` -/
def boundariesOf (rows : List ArtifactEntry) : List Text := (rows.map (·.boundary)).dedup.insertionSort (· ≤ ·)

theorem boundariesOf_perm (rows : List ArtifactEntry) : (boundariesOf rows).Perm (rows.map (·.boundary)).dedup :=
  List.perm_insertionSort _ _

theorem mem_boundariesOf {rows : List ArtifactEntry} {b : Text} : b ∈ boundariesOf rows ↔ ∃ e ∈ rows, e.boundary = b := by
  rw [(boundariesOf_perm rows).mem_iff, List.mem_dedup, List.mem_map]

def manifestOf (rows : List ArtifactEntry) : Doc :=
  .obj [(text "schema_version", .str (text "retained-artifact-manifest/v1")),
    (text "recorded_boundaries", .arr ((boundariesOf rows).map .str)),
    (text "files", .arr ((rows.insertionSort fun a b => encode a.locator ≤ encode b.locator).map rowDoc))]

/-- `write_closed_inventory`: the manifest, and the retained directory where there was `before`. -/
def writeClosedInventory (disk : Disk) (before : Tree Name StoredFile) (sources : List Source) (inventoryPath : Text) :
    Option (Doc × Tree Name StoredFile) := do
  guard (before.find [] = none)
  let closure ← before.mkdir disk.system []
  let written ← sources.foldlM (writeSource w disk) ⟨[], [], closure⟩
  guard (w.lstat inventoryPath = none)
  some (manifestOf written.rows, written.closure)

/-! ## What has been written -/

variable {w} {disk : Disk} {s t : Writing} {source : Source} {done : List Source} {e : Text × Identity}

def pathOf (w : World) (locator : Text) : Path := relativePath (w.sha256 (encode locator))

def rowOf (w : World) (e : Text × Identity) : ArtifactEntry :=
  ⟨e.1, e.2.boundary, posix (pathOf w e.1), e.2.data.length, hexdigest w e.2.data⟩

/-- What a source is known as. -/
structure Known (w : World) (source : Source) (e : Text × Identity) : Prop where
  locator : canonicalRecorded source.recorded = some e.1
  boundary : canonicalRecorded source.boundary = some e.2.boundary
  data : w.readBytes source.path = some e.2.data
  file : w.resolve source.path = e.2.file

theorem Known.eq {f : Text × Identity} (he : Known w source e) (hf : Known w source f) : e = f := by
  obtain ⟨l, b, d, p⟩ := e
  obtain ⟨l', b', d', p'⟩ := f
  cases he.locator.symm.trans hf.locator
  cases he.boundary.symm.trans hf.boundary
  cases he.data.symm.trans hf.data
  cases he.file.symm.trans hf.file
  rfl

structure Wrote (w : World) (done : List Source) (s : Writing) : Prop where
  rows : s.rows = s.seen.map (rowOf w)
  distinct : (s.seen.map (·.1)).Nodup
  scalar : ∀ e ∈ s.seen, e.1.all isScalar
  known : ∀ source ∈ done, ∃ e, Known w source e
  seen : ∀ e, e ∈ s.seen ↔ ∃ source ∈ done, Known w source e
  root : s.closure.find [] = some .directory
  stored : ∀ e ∈ s.seen, ∃ f, s.closure.find (pathOf w e.1) = some (.file f) ∧ f.links = 1 ∧ f.bytes = e.2.data
  only : ∀ p x, s.closure.find p = some x → x = .directory ∨ ∃ e ∈ s.seen, p = pathOf w e.1
  inodes : ∀ p q f g, s.closure.find p = some (.file f) → s.closure.find q = some (.file g) → f.inode = g.inode → p = q

theorem mem_inodes {t : Tree Name StoredFile} {n : Nat} : n ∈ Retained.inodes t ↔ ∃ p f, t.find p = some (.file f) ∧ f.inode = n := by
  rw [Retained.inodes, List.mem_filterMap]
  constructor
  · rintro ⟨⟨p, x⟩, hm, hx⟩
    cases x with
    | file f => exact ⟨p, f, Tree.mem_iff_find.mp hm, Option.some.inj hx⟩
    | _ => cases hx
  · rintro ⟨p, f, hf, rfl⟩
    exact ⟨(p, .file f), Tree.mem_iff_find.mpr hf, rfl⟩

/-- Locators that hash apart are kept apart. -/
theorem pathOf_inj {l m : Text} (hl : l.all isScalar) (hm : m.all isScalar)
    (hS : w.sha256 (encode l) = w.sha256 (encode m) → encode l = encode m) (h : pathOf w l = pathOf w m) : l = m := by
  have hbin := congrArg (fun p : Path => (p[1]?).map (·.val)) h
  have hhex := List.append_cancel_right (Option.some.inj hbin)
  have henc := hS (Trees.hex_inj hhex)
  have hdec := decode_encode hl
  rw [henc, decode_encode hm] at hdec
  exact (Option.some.inj hdec).symm

theorem prefix_pathOf {l : Text} {q : Path} (h : q <+: pathOf w l) (hne : q ≠ pathOf w l) : q.length < 2 := by
  have hlen := h.length_le
  have h2 : (pathOf w l).length = 2 := rfl
  rcases Nat.lt_or_ge q.length 2 with hlt | hge
  · exact hlt
  · exact absurd (h.eq_of_length (by omega)) hne

/-- No file is where a new one goes. -/
theorem Wrote.free (hw : Wrote w done s) {p : Path} (hp : ∀ e ∈ s.seen, pathOf w e.1 ≠ p) : s.closure.fileAt p = none := by
  cases hf : s.closure.fileAt p with
  | none => rfl
  | some f =>
    rcases hw.only p _ (Tree.fileAt_some.mp hf) with hd | ⟨e, he, rfl⟩
    · cases hd
    · exact absurd rfl (hp e he)

theorem find_kept {tree closure : Tree Name StoredFile} {p q : Path} {data : Bytes} (h : keep disk tree p data = (closure, true))
    (hf : tree.fileAt p = none) : closure.find q =
      if q = p then some (.file ⟨disk.inode (Retained.inodes tree), 1, data⟩) else if q <+: p then some .directory else tree.find q := by
  rw [Tree.find_place h, hf]
  split_ifs <;> rfl

theorem Wrote.step (hw : Wrote w done s) (h : writeSource w disk s source = some t)
    (hS : ∀ e ∈ s.seen, ∀ l, canonicalRecorded source.recorded = some l →
      w.sha256 (encode e.1) = w.sha256 (encode l) → encode e.1 = encode l) : Wrote w (done ++ [source]) t := by
  simp only [writeSource, Option.bind_eq_bind, Option.bind_eq_some_iff, Option.guard_eq_some', exists_const] at h
  obtain ⟨l, hl, b, hb, -, data, hd, h⟩ := h
  have hknown : Known w source (l, ⟨b, data, w.resolve source.path⟩) := ⟨hl, hb, hd, rfl⟩
  have hall : ∀ x ∈ done ++ [source], ∃ e, Known w x e := by
    intro x hx
    rcases List.mem_append.mp hx with hx | hx
    · exact hw.known x hx
    · rw [List.mem_singleton.mp hx]
      exact ⟨_, hknown⟩
  have hnew : ∀ e, (∃ x ∈ done ++ [source], Known w x e) ↔ e ∈ s.seen ∨ e = (l, ⟨b, data, w.resolve source.path⟩) := by
    intro e
    rw [hw.seen]
    constructor
    · rintro ⟨x, hx, he⟩
      rcases List.mem_append.mp hx with hx | hx
      · exact .inl ⟨x, hx, he⟩
      · rw [List.mem_singleton.mp hx] at he
        exact .inr (he.eq hknown)
    · rintro (⟨x, hx, he⟩ | rfl)
      · exact ⟨x, List.mem_append_left _ hx, he⟩
      · exact ⟨source, List.mem_append_right _ List.mem_cons_self, hknown⟩
  split at h
  · next prior hp =>
    split_ifs at h with heq
    cases h
    obtain ⟨a, c, hac, -⟩ := List.lookup_eq_some_iff.mp hp
    have hmem : (l, prior) ∈ s.seen := by rw [hac]; exact List.mem_append_right _ List.mem_cons_self
    rw [heq] at hmem
    exact { hw with
      known := hall
      seen := fun e => ⟨fun he => (hnew e).mpr (.inl he), fun he => ((hnew e).mp he).elim id fun he => he ▸ hmem⟩ }
  · next hnone =>
    simp only [Option.bind_eq_some_iff, Option.guard_eq_some', exists_const] at h
    obtain ⟨hscalar, h⟩ := h
    split at h
    · cases h
    · next closure hkeep =>
      cases h
      have hkey : l ∉ s.seen.map (·.1) := by
        intro hm
        obtain ⟨e, he, hle⟩ := List.mem_map.mp hm
        have := List.lookup_eq_none_iff.mp hnone e he
        simp [hle] at this
      have hapart : ∀ e ∈ s.seen, pathOf w e.1 ≠ pathOf w l := fun e he hp =>
        hkey (List.mem_map.mpr ⟨e, he, pathOf_inj (hw.scalar e he) hscalar (hS e he l hl) hp⟩)
      have hplace : ∀ q, closure.find q = if q = pathOf w l then some (.file ⟨disk.inode (Retained.inodes s.closure), 1, data⟩)
          else if q <+: pathOf w l then some .directory else s.closure.find q := fun q => find_kept hkeep (hw.free hapart)
      refine {
        rows := ?_, distinct := ?_, scalar := ?_, known := hall, seen := ?_, root := ?_, stored := ?_, only := ?_, inodes := ?_ }
      · show s.rows ++ _ = _
        rw [List.map_append, hw.rows]
        rfl
      · rw [List.map_append, List.map_cons, List.map_nil]
        exact hw.distinct.append (List.nodup_singleton _) (by simpa using hkey)
      · intro e he
        rcases List.mem_append.mp he with he | he
        · exact hw.scalar e he
        · rw [List.mem_singleton.mp he]
          exact hscalar
      · intro e
        rw [hnew, List.mem_append, List.mem_singleton]
      · rw [hplace, if_neg (show [] ≠ pathOf w l from nofun), if_pos List.nil_prefix]
      · intro e he
        rcases List.mem_append.mp he with he | he
        · obtain ⟨f, hf, hlinks, hbytes⟩ := hw.stored e he
          refine ⟨f, ?_, hlinks, hbytes⟩
          have hne := hapart e he
          rw [hplace, if_neg hne, if_neg fun hpre => absurd (prefix_pathOf hpre hne) (Nat.lt_irrefl 2), hf]
        · rw [List.mem_singleton.mp he]
          exact ⟨_, by rw [hplace]; exact if_pos rfl, rfl, rfl⟩
      · intro p x hx
        rw [hplace] at hx
        split_ifs at hx with hp hpre
        · exact .inr ⟨_, List.mem_append_right _ List.mem_cons_self, hp⟩
        · exact .inl (Option.some.inj hx).symm
        · exact (hw.only p x hx).imp_right fun ⟨e, he, hpe⟩ => ⟨e, List.mem_append_left _ he, hpe⟩
      · have hfile : ∀ p f, closure.find p = some (.file f) →
            p = pathOf w l ∧ f.inode = disk.inode (Retained.inodes s.closure) ∨ s.closure.find p = some (.file f) := by
          intro p f hf
          rw [hplace] at hf
          split_ifs at hf with hp hpre
          · cases hf
            exact .inl ⟨hp, rfl⟩
          · cases hf
          · exact .inr hf
        have hold : ∀ p f, s.closure.find p = some (.file f) → f.inode ≠ disk.inode (Retained.inodes s.closure) :=
          fun p f hf hi => disk.fresh _ (hi ▸ mem_inodes.mpr ⟨p, f, hf, rfl⟩)
        intro p q f g hf hg hfg
        rcases hfile p f hf with ⟨rfl, hfi⟩ | hf'
        · rcases hfile q g hg with ⟨rfl, -⟩ | hg'
          · rfl
          · exact absurd (hfg ▸ hfi) (hold q g hg')
        · rcases hfile q g hg with ⟨rfl, hgi⟩ | hg'
          · exact absurd (hfg.trans hgi) (hold p f hf')
          · exact hw.inodes p q f g hf' hg' hfg

theorem wrote_nothing {before closure : Tree Name StoredFile} (hb : before.find [] = none)
    (h : before.mkdir disk.system [] = some closure) : Wrote w [] ⟨[], [], closure⟩ := by
  have hfind : ∀ q, closure.find q = if q = [] then some .directory else before.find q := fun q => (Tree.find_mkdir h).2
  have hnone : ∀ q x, before.find q = some x → q = [] := by
    intro q x hx
    by_contra hq
    have := Tree.find_ancestor hx List.nil_prefix (Ne.symm hq)
    rw [hb] at this
    cases this
  have honly : ∀ p x, closure.find p = some x → x = .directory := by
    intro p x hx
    rw [hfind] at hx
    split_ifs at hx with hp
    · exact (Option.some.inj hx).symm
    · exact absurd (hnone p x hx) hp
  refine ⟨rfl, List.nodup_nil, by simp, by simp, by simp, by rw [hfind, if_pos rfl], by simp, fun p x hx => .inl (honly p x hx), ?_⟩
  intro p q f g hf
  cases honly p _ hf

/-- What is hashed to name the copies. -/
def hashedLocators (sources : List Source) : Set Bytes :=
  {b | ∃ source ∈ sources, ∃ l, canonicalRecorded source.recorded = some l ∧ b = encode l}

theorem Wrote.hashed (hw : Wrote w done s) (he : e ∈ s.seen) : encode e.1 ∈ hashedLocators done := by
  obtain ⟨source, hs, hk⟩ := (hw.seen e).mp he
  exact ⟨source, hs, e.1, hk.locator, rfl⟩

theorem Wrote.run {rest : List Source} (hw : Wrote w done s) (h : rest.foldlM (writeSource w disk) s = some t)
    (hS : Set.InjOn w.sha256 (hashedLocators (done ++ rest))) : Wrote w (done ++ rest) t := by
  induction rest generalizing done s with
  | nil =>
    cases h
    rwa [List.append_nil]
  | cons source rest ih =>
    rw [List.foldlM_cons, Option.bind_eq_bind, Option.bind_eq_some_iff] at h
    obtain ⟨next, hnext, h⟩ := h
    have hassoc : done ++ source :: rest = done ++ [source] ++ rest := by simp
    rw [hassoc] at hS ⊢
    refine ih (hw.step hnext fun e he l hl => ?_) h hS
    obtain ⟨x, hx, hk⟩ := hw.hashed he
    exact hS ⟨x, by simp [hx], hk⟩ ⟨source, by simp, l, hl, rfl⟩

/-! ## What is written is accepted -/

theorem posix_relativePath (digest : BitVec 256) :
    posix (relativePath digest) = text "files" ++ slash :: (text (hex digest) ++ text ".bin") := by
  rw [posix, relativePath, if_neg (List.cons_ne_nil _ _)]
  simp [List.intercalate, filesName, component]

theorem asPosix_posix (p : Path) : asPosix (posix p) = posix p := by
  rw [asPosix, parts_posix, posix]
  simp only [List.map_eq_nil_iff]

theorem canonicalRelative_path (digest : BitVec 256) :
    canonicalRelative (.str (posix (relativePath digest))) = some (posix (relativePath digest)) := by
  have hhex := Wire.hex_hex64 digest
  rw [Wire.hex64, Bool.and_eq_true, List.all_eq_true] at hhex
  have htext := posix_relativePath digest
  refine if_neg ?_
  rintro (h | h | h | h | h)
  · rw [htext] at h
    simp at h
  · rw [htext] at h
    simp only [List.mem_append, List.mem_cons] at h
    rcases h with h | h | h | h
    · exact absurd h (by decide)
    · exact absurd h (by decide)
    · exact absurd (hhex.2 _ h) (by decide)
    · exact absurd h (by decide)
  · rw [htext] at h
    exact absurd h (by simp [isAbsolute, text, slash])
  · exact h (asPosix_posix _)
  · rw [parts_posix] at h
    simp only [List.any_eq_true, List.mem_map, decide_eq_true_eq] at h
    obtain ⟨part, ⟨n, -, rfl⟩, hbad⟩ := h
    obtain ⟨hne, -, -, hdot, hdots⟩ := n.property
    exact hbad.elim hne fun h => h.elim hdot hdots

theorem target_pathOf {d : Directory} {l : Text} {f : StoredFile} (h : d.tree.find (pathOf w l) = some (.file f)) :
    d.target (posix (pathOf w l)) = some f := by
  have hinits : (pathOf w l).inits.dropLast = [[], [filesName]] := rfl
  have hroot : d.tree.find [] = some .directory := Tree.find_ancestor h List.nil_prefix nofun
  have hfiles : d.tree.find [filesName] = some .directory :=
    Tree.find_ancestor h (List.prefix_append [filesName] [_]) fun he => by simpa [pathOf, relativePath] using congrArg List.length he
  rw [Directory.target, locate_posix, Option.bind_eq_bind, Option.bind_some, hinits]
  simp only [List.all_cons, List.all_nil, hroot, hfiles, decide_true, Bool.and_self, guard, if_true, Option.pure_def,
    Option.bind_eq_bind, Option.bind_some]
  exact Tree.fileAt_some.mpr h

/-- The inode of the file a row names. -/
def inodeAt (d : Directory) (e : ArtifactEntry) : Nat := ((d.target e.relative).map (·.inode)).getD 0

theorem inodeAt_eq {d : Directory} {e : ArtifactEntry} {f : StoredFile} (h : d.target e.relative = some f) : inodeAt d e = f.inode := by
  rw [inodeAt, h]
  rfl

theorem Wrote.examine (hw : Wrote w done s) {boundaries : List Text} {resolved : Bool} (he : e ∈ s.seen)
    (hb : e.2.boundary ∈ boundaries) (hin : Under e.1 e.2.boundary ∧ e.1 ≠ e.2.boundary) :
    examine w boundaries ⟨s.closure, resolved⟩ (rowDoc (rowOf w e)) = some (rowOf w e, inodeAt ⟨s.closure, resolved⟩ (rowOf w e)) := by
  obtain ⟨source, -, hk⟩ := (hw.seen e).mp he
  obtain ⟨f, hf, hlinks, hbytes⟩ := hw.stored e he
  have htarget : Directory.target ⟨s.closure, resolved⟩ (posix (pathOf w e.1)) = some f := target_pathOf hf
  have hl : canonicalValue (dictGet (rowDoc (rowOf w e)) "recorded_locator") = some e.1 := canonicalRecorded_canonical hk.locator
  have hbound : canonicalValue (dictGet (rowDoc (rowOf w e)) "recorded_boundary") = some e.2.boundary :=
    canonicalRecorded_canonical hk.boundary
  have hr : canonicalRelative (dictGet (rowDoc (rowOf w e)) "copied_relative_path") = some (posix (pathOf w e.1)) :=
    canonicalRelative_path _
  have hn : naturalOf (dictGet (rowDoc (rowOf w e)) "size_bytes") = some e.2.data.length := by
    show naturalOf (.int e.2.data.length) = _
    rw [naturalOf, if_neg (by omega), Int.toNat_natCast]
  have hd : textOf (dictGet (rowDoc (rowOf w e)) "sha256") = some (hexdigest w e.2.data) := rfl
  have hhex : Wire.hex64 (hexdigest w e.2.data) := Wire.hex_hex64 _
  have hkeys : Trees.keysAre [(text "recorded_locator", (.str e.1 : Doc)), (text "recorded_boundary", .str e.2.boundary),
    (text "copied_relative_path", .str (posix (pathOf w e.1))), (text "size_bytes", .int e.2.data.length),
    (text "sha256", .str (hexdigest w e.2.data))] rowNames = true := rfl
  have hinode : inodeAt ⟨s.closure, resolved⟩ (rowOf w e) = f.inode := inodeAt_eq htarget
  rw [hinode]
  unfold Retained.examine
  simp only [rowDoc, rowOf] at hl hbound hr hn hd hkeys ⊢
  simp only [hkeys, hl, hbound, hr, hn, hd, hb, hin, hhex, htarget, hlinks, hbytes, guard, if_true, Option.bind_eq_bind,
    Option.bind_some, Option.pure_def, ne_eq, not_false_eq_true, and_self]

theorem Wrote.mem_actual (hw : Wrote w done s) {resolved : Bool} {r : Text} :
    r ∈ Directory.actual ⟨s.closure, resolved⟩ ↔ ∃ e ∈ s.seen, r = posix (pathOf w e.1) := by
  rw [Directory.actual, List.mem_filterMap]
  constructor
  · rintro ⟨⟨p, x⟩, hm, hx⟩
    rcases hw.only p x (Tree.mem_iff_find.mp hm) with rfl | ⟨e, he, rfl⟩
    · cases hx
    · obtain ⟨f, hf, -, -⟩ := hw.stored e he
      rw [Tree.mem_iff_find, hf] at hm
      cases hm
      exact ⟨e, he, (Option.some.inj hx).symm⟩
  · rintro ⟨e, he, rfl⟩
    obtain ⟨f, hf, -, -⟩ := hw.stored e he
    exact ⟨(pathOf w e.1, .file f), Tree.mem_iff_find.mpr hf, rfl⟩

/-- No two rows share a locator, a path or a file. -/
theorem Wrote.admitted (hw : Wrote w done s) {resolved : Bool} (hS : Set.InjOn w.sha256 (hashedLocators done)) :
    Distinct (s.rows.map fun e => (e, inodeAt ⟨s.closure, resolved⟩ e)) := by
  have hpath : ∀ e ∈ s.seen, ∀ f ∈ s.seen, pathOf w e.1 = pathOf w f.1 → e = f := by
    intro e he f hf hp
    have hl := pathOf_inj (hw.scalar e he) (hw.scalar f hf) (hS (hw.hashed he) (hw.hashed hf)) hp
    exact List.inj_on_of_nodup_map hw.distinct he hf hl
  have hnodup : s.seen.Nodup := hw.distinct.of_map
  rw [hw.rows]
  simp only [List.map_map]
  refine ⟨?_, ?_, ?_⟩
  · simp only [List.map_map]
    exact hw.distinct
  · simp only [List.map_map]
    exact hnodup.map_on fun e he f hf h => hpath e he f hf (posix_inj (show posix (pathOf w e.1) = posix (pathOf w f.1) from h))
  · simp only [List.map_map]
    refine hnodup.map_on fun e he f hf h => hpath e he f hf ?_
    obtain ⟨x, hx, -, -⟩ := hw.stored e he
    obtain ⟨y, hy, -, -⟩ := hw.stored f hf
    have hxi : inodeAt ⟨s.closure, resolved⟩ (rowOf w e) = x.inode := inodeAt_eq (target_pathOf hx)
    have hyi : inodeAt ⟨s.closure, resolved⟩ (rowOf w f) = y.inode := inodeAt_eq (target_pathOf hy)
    simp only [Function.comp_apply, hxi, hyi] at h
    exact hw.inodes _ _ x y hx hy h

theorem written_accepted {before closure : Tree Name StoredFile} {sources : List Source} {inventoryPath : Text} {manifest : Doc}
    (h : writeClosedInventory w disk before sources inventoryPath = some (manifest, closure))
    (hS : Set.InjOn w.sha256 (hashedLocators sources)) (hne : sources ≠ [])
    (hin : ∀ source ∈ sources, ∀ e, Known w source e → Under e.1 e.2.boundary ∧ e.1 ≠ e.2.boundary) :
    ∃ s io, Wrote w sources s ∧ manifest = manifestOf s.rows ∧ fromManifest w manifest ⟨closure, true⟩ = some io ∧
      ∀ e, e ∈ io.entries ↔ e ∈ s.rows := by
  simp only [writeClosedInventory, Option.bind_eq_bind, Option.bind_eq_some_iff, Option.guard_eq_some', exists_const] at h
  obtain ⟨hb, start, hstart, s, hrun, -, he⟩ := h
  cases he
  have hw : Wrote w sources s := (wrote_nothing hb hstart).run hrun hS
  let rows := s.rows.insertionSort fun a b => encode a.locator ≤ encode b.locator
  let boundaries := boundariesOf s.rows
  have hrows : rows.Perm s.rows := List.perm_insertionSort _ _
  have hmem : ∀ b, b ∈ boundaries ↔ ∃ e ∈ s.rows, e.boundary = b := fun b => mem_boundariesOf
  have hrow : ∀ e ∈ s.rows, ∃ x ∈ s.seen, rowOf w x = e := fun e he => by
    rw [hw.rows] at he
    exact List.mem_map.mp he
  have hcanon : (boundaries.map Value.str).mapM canonicalValue = some boundaries := by
    have := @Lib.mapM_map Text Doc Text canonicalValue Value.str id boundaries fun b hb => by
      obtain ⟨e, he, rfl⟩ := (hmem b).mp hb
      obtain ⟨x, hx, rfl⟩ := hrow e he
      obtain ⟨source, -, hk⟩ := (hw.seen x).mp hx
      exact canonicalRecorded_canonical hk.boundary
    rwa [List.map_id] at this
  have hexamine : (rows.map rowDoc).mapM (examine w boundaries ⟨s.closure, true⟩) =
      some (rows.map fun e => (e, inodeAt ⟨s.closure, true⟩ e)) := by
    refine Lib.mapM_map fun e he => ?_
    rw [hrows.mem_iff] at he
    obtain ⟨x, hx, rfl⟩ := hrow e he
    obtain ⟨source, hs, hk⟩ := (hw.seen x).mp hx
    exact hw.examine hx ((hmem _).mpr ⟨_, he, rfl⟩) (hin source hs x hk)
  have hdistinct : Distinct (rows.map fun e => (e, inodeAt ⟨s.closure, true⟩ e)) := by
    have hd := @Wrote.admitted _ _ _ hw true hS
    have hperm := hrows.map fun e => (e, inodeAt ⟨s.closure, true⟩ e)
    exact ⟨((hperm.map _).nodup_iff).mpr hd.locators, ((hperm.map _).nodup_iff).mpr hd.relatives,
      ((hperm.map _).nodup_iff).mpr hd.inodes⟩
  have hsome : boundaries ≠ [] := by
    obtain ⟨source, hs⟩ := List.exists_mem_of_ne_nil sources hne
    obtain ⟨x, hk⟩ := hw.known source hs
    have hx := (hw.seen x).mpr ⟨source, hs, hk⟩
    refine List.ne_nil_of_mem ((hmem x.2.boundary).mpr ⟨rowOf w x, ?_, rfl⟩)
    rw [hw.rows]
    exact List.mem_map_of_mem hx
  refine ⟨s, ⟨boundaries, ⟨s.closure, true⟩, rows⟩, hw, rfl, fromManifest_iff.mpr ⟨_, _, _, _, rfl, rfl, rfl, rfl, rfl, ?_, hcanon,
    hsome, (boundariesOf_perm s.rows).nodup_iff.mpr (List.nodup_dedup _), hexamine, hdistinct, fun r => ?_, rfl, ?_⟩, fun e => hrows.mem_iff⟩
  · show (decide (s.closure.find [] = some .directory) && true) = true
    rw [hw.root]
    rfl
  · rw [hw.mem_actual, List.map_map, (hrows.map _).mem_iff, hw.rows, List.map_map, List.mem_map]
    exact exists_congr fun x => and_congr_right fun _ => eq_comm
  · rw [List.map_map]
    exact (List.map_id _).symm

end BettingHelper.Retained
