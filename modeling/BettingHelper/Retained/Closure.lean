/-
  BettingHelper.Retained.Closure — the closed inventory of an aggregate, and its validation.

  The writer collects what lies in the campaign; the validator collects again, with the
  boundaries it reads in the manifest: the campaign's, if anything lies in it, and the
  aggregate's own directory. Proved (`closure_round_trip`): where that directory and the live
  root are apart, the two collect the same, and a manifest that is accepted holds the
  aggregate and exactly the references that lie in its boundaries.
-/

import BettingHelper.Retained.Inventory

namespace BettingHelper.Retained

open BettingHelper.Lib.Json BettingHelper.Lib.FileTree BettingHelper.Vendor

/-! ## Writer and validator -/

variable (w : World)

/-- The source that the aggregate itself is. -/
def aggregateSource (aggregatePath recordedAggregate : Text) : Source :=
  ⟨aggregatePath, strPath recordedAggregate, parentPath recordedAggregate⟩

/-- `_write_closed_inventory`, of the tool that lies below `liveRoot`. -/
def closedInventory (disk : Disk) (before : Tree Name StoredFile)
    (aggregatePath recordedAggregate campaign inventoryPath liveRoot : Text) : Option (Doc × Tree Name StoredFile) := do
  let raw ← w.readBytes aggregatePath
  let aggregate ← w.loads raw
  let collected ← collectRetainedSources w aggregate [w.resolve campaign] [w.resolve liveRoot]
  writeClosedInventory w disk before (aggregateSource aggregatePath recordedAggregate :: collected) inventoryPath

/-- The locator and the digest of a row that has both. -/
def declaredRow (row : Doc) : Option (Text × Text) := do
  let locator ← textOf (dictGet row "recorded_locator")
  let digest ← textOf (dictGet row "sha256")
  some (locator, digest)

/-- `==` of dictionaries made by inserting these pairs one after another. -/
def SameDict (a b : List (Text × Text)) : Prop :=
  ∀ k ∈ a.map (·.1) ++ b.map (·.1), a.reverse.lookup k = b.reverse.lookup k

instance (a b : List (Text × Text)) : Decidable (SameDict a b) := inferInstanceAs (Decidable (∀ _ ∈ _, _))

/-- `validate_inventory_closure`; `str(_)` of a boundary that is no text does not begin with a slash. -/
def validateInventoryClosure (manifest value : Doc) (aggregateLocator : Text) (aggregateRaw : Bytes) (liveRoots : List Text) :
    Option Unit :=
  match dictGet manifest "files", dictGet manifest "recorded_boundaries" with
  | .arr rows, .arr boundaries => do
    let boundaries ← boundaries.mapM textOf
    let declarations ← retainedArtifactDeclarations w value boundaries (liveRoots.map w.resolve)
    let aggregate ← canonicalRecorded aggregateLocator
    let expected := (aggregate, hexdigest w aggregateRaw) :: declarations.map fun d => (d.locator, d.digest)
    let actual ← (rows.filterMap declaredRow).mapM fun r => (canonicalRecorded r.1).map (·, r.2)
    guard ((actual.map (·.1)).dedup.length = rows.length ∧ SameDict actual expected)
  | _, _ => none

/-- What is read at a locator, as the verifiers read it. -/
def RetainedArtifacts.reads (io : RetainedArtifacts) (locator : Text) : Option Bytes := do
  let boundary ← io.recordedBoundary locator
  io.readBytes w locator boundary

/-- Neither of two directories lies in the other. -/
def Apart (a b : Text) : Prop := ¬Under a b ∧ ¬Under b a

instance (a b : Text) : Decidable (Apart a b) := inferInstanceAs (Decidable (_ ∧ _))

/-! ## Collected twice -/

variable {w} {retained live : List Text} {reference : Text × Text} {l m : Text} {d : Declaration}

theorem under_apart {a b : Text} (h : Apart a b) (ha : Under l a) (hb : Under l b) : False := by
  rcases List.prefix_or_prefix_of_prefix ha hb with hab | hba
  · exact h.2 hab
  · exact h.1 hba

theorem lies_some (h : lies w retained live reference = some (some d)) :
    canonicalRecorded reference.1 = some d.locator ∧ d.digest = reference.2 ∧ d.boundary ∈ retained ∧ Under d.locator d.boundary := by
  obtain ⟨-, l, hl, ⟨b, hb, he⟩ | ⟨-, -, -, -, he⟩⟩ := lies_iff.mp h
  · cases he
    obtain ⟨hm, hu⟩ := List.mem_filter.mp (List.argmax_mem hb)
    exact ⟨hl, rfl, hm, of_decide_eq_true hu⟩
  · cases he

theorem lies_none (h : lies w retained live reference = some none) : ∃ l, canonicalRecorded reference.1 = some l ∧
    (∀ b ∈ retained, ¬Under l b) ∧ (∃ root ∈ live, Under l root) ∧ w.isFile l ∧ (w.readBytes l).map (hexdigest w) = some reference.2 := by
  obtain ⟨-, l, hl, ⟨b, -, he⟩ | ⟨hb, hroot, hf, hr, -⟩⟩ := lies_iff.mp h
  · cases he
  · exact ⟨l, hl, hb, hroot, hf, hr⟩

/-- A reference in one of the boundaries is kept in them. -/
theorem lies_under {x : Option Declaration} {b : Text} (h : lies w retained live reference = some x)
    (hl : canonicalRecorded reference.1 = some l) (hb : b ∈ retained) (hu : Under l b) :
    ∃ b', x = some ⟨l, b', reference.2⟩ := by
  cases x with
  | none =>
    obtain ⟨m, hm, hnone, -⟩ := lies_none h
    rw [hl] at hm
    cases hm
    exact absurd hu (hnone b hb)
  | some d =>
    obtain ⟨hd, hdigest, -, -⟩ := lies_some h
    rw [hl] at hd
    obtain ⟨l', b', digest⟩ := d
    cases hd
    cases hdigest
    exact ⟨b', rfl⟩

/-- Boundaries that keep the same references, and leave none in a live root to be kept, tell the
same of a reference but for the boundary. -/
theorem lies_again {retained' : List Text} {x : Option Declaration} (h : lies w retained live reference = some x)
    (hkeep : ∀ l, canonicalRecorded reference.1 = some l → (∃ b ∈ retained, Under l b) → ∃ b ∈ retained', Under l b)
    (hleave : ∀ l, canonicalRecorded reference.1 = some l → (∃ root ∈ live, Under l root) → (∀ b ∈ retained, ¬Under l b) →
      ∀ b ∈ retained', ¬Under l b) :
    ∃ y, lies w retained' live reference = some y ∧ y.map (fun d => (d.locator, d.digest)) = x.map fun d => (d.locator, d.digest) := by
  have hhex := (lies_iff.mp h).1
  cases x with
  | none =>
    obtain ⟨l, hl, hb, hroot, hf, hr⟩ := lies_none h
    exact ⟨none, lies_iff.mpr ⟨hhex, l, hl, .inr ⟨hleave l hl hroot hb, hroot, hf, hr, rfl⟩⟩, rfl⟩
  | some d =>
    obtain ⟨hl, hdigest, hb, hu⟩ := lies_some h
    obtain ⟨b, hb', hu'⟩ := hkeep d.locator hl ⟨d.boundary, hb, hu⟩
    cases hmax : (retained'.filter (Under d.locator ·)).argmax List.length with
    | none =>
      have hmem : b ∈ retained'.filter (Under d.locator ·) := List.mem_filter.mpr ⟨hb', decide_eq_true hu'⟩
      rw [List.argmax_eq_none.mp hmax] at hmem
      cases hmem
    | some b'' =>
      refine ⟨some ⟨d.locator, b'', reference.2⟩, lies_iff.mpr ⟨hhex, d.locator, hl, .inl ⟨b'', hmax, rfl⟩⟩, ?_⟩
      rw [← hdigest]
      rfl

/-! ## Dictionaries -/

/-- Pairs of which no two with one key differ. -/
def Consistent (l : List (Text × Text)) : Prop := ∀ a ∈ l, ∀ b ∈ l, a.1 = b.1 → a.2 = b.2

theorem lookup_some {l : List (Text × Text)} {k v : Text} (h : l.lookup k = some v) : (k, v) ∈ l := by
  obtain ⟨a, b, rfl, -⟩ := List.lookup_eq_some_iff.mp h
  exact List.mem_append_right _ List.mem_cons_self

theorem lookup_mem {l : List (Text × Text)} {k : Text} (h : k ∈ l.map (·.1)) : ∃ v, l.lookup k = some v := by
  cases hk : l.lookup k with
  | some v => exact ⟨v, rfl⟩
  | none =>
    obtain ⟨e, he, rfl⟩ := List.mem_map.mp h
    have := List.lookup_eq_none_iff.mp hk e he
    simp at this

theorem Consistent.lookup_iff {l : List (Text × Text)} (hc : Consistent l) {k v : Text} : l.reverse.lookup k = some v ↔ (k, v) ∈ l := by
  constructor
  · exact fun h => List.mem_reverse.mp (lookup_some h)
  · intro h
    obtain ⟨v', hv⟩ := @lookup_mem l.reverse k (List.mem_map.mpr ⟨_, List.mem_reverse.mpr h, rfl⟩)
    have := hc _ (List.mem_reverse.mp (lookup_some hv)) _ h rfl
    rw [hv]
    exact congrArg some this

theorem sameDict_of_mem {a b : List (Text × Text)} (ha : Consistent a) (hb : Consistent b) (h : ∀ x, x ∈ a ↔ x ∈ b) : SameDict a b := by
  intro k _
  refine Option.ext fun v => ?_
  rw [ha.lookup_iff, hb.lookup_iff, h]

theorem consistent_of_nodup {l : List (Text × Text)} (h : (l.map (·.1)).Nodup) : Consistent l := fun _ ha _ hb hab =>
  congrArg (·.2) (List.inj_on_of_nodup_map h ha hb hab)

/-! ## A manifest that was written -/

variable {disk : Disk} {before closure : Tree Name StoredFile} {manifest : Doc}
  {aggregatePath recordedAggregate campaign inventoryPath liveRoot : Text}

/-- What the sources are made of. -/
theorem collect_some {value : Doc} {boundaries roots : List Text} {sources : List Source}
    (h : collectRetainedSources w value boundaries roots = some sources) :
    ∃ declarations, retainedArtifactDeclarations w value boundaries roots = some declarations ∧
      sources = declarations.map (fun d => ⟨d.locator, d.locator, d.boundary⟩) ∧
      ∀ d ∈ declarations, w.lstat d.locator = some (.regular 1) ∧ (w.readBytes d.locator).map (hexdigest w) = some d.digest := by
  simp only [collectRetainedSources, Option.bind_eq_bind, Option.bind_eq_some_iff] at h
  obtain ⟨declarations, hd, h⟩ := h
  refine ⟨declarations, hd, ?_⟩
  clear hd
  induction declarations generalizing sources with
  | nil =>
    cases h
    exact ⟨rfl, by simp⟩
  | cons d l ih =>
    rw [List.mapM_cons] at h
    simp only [Option.bind_eq_bind, Option.bind_eq_some_iff, Option.guard_eq_some', exists_const] at h
    obtain ⟨_, ⟨hstat, hdigest, hd⟩, rest, hrest, he⟩ := h
    cases hd
    cases he
    obtain ⟨rfl, hall⟩ := ih hrest
    refine ⟨rfl, fun x hx => ?_⟩
    rcases List.mem_cons.mp hx with rfl | hx
    · exact ⟨hstat, hdigest⟩
    · exact hall x hx

/-- What a written inventory was made from. -/
structure Made (w : World) (raw : Bytes) (aggregate : Doc) (references : List (Text × Text)) (declarations : List Declaration)
    (boundary root : Text) : Prop where
  loads : w.loads raw = some aggregate
  refers : artifactReferences w.whole aggregate = some references
  declares : Declares w [boundary] [root] references declarations
  boundary : Canonical boundary
  files : ∀ d ∈ declarations, w.lstat d.locator = some (.regular 1) ∧ (w.readBytes d.locator).map (hexdigest w) = some d.digest

/-- What `resolve()` gives is canonical, or is refused. -/
theorem mapM_resolved {roots live : List Text} (h : (roots.map w.resolve).mapM canonicalRecorded = some live) : live = roots.map w.resolve := by
  induction roots generalizing live with
  | nil =>
    cases h
    rfl
  | cons root roots ih =>
    rw [List.map_cons, List.mapM_cons] at h
    simp only [Option.bind_eq_bind, Option.bind_eq_some_iff, Option.pure_def, Option.some.injEq] at h
    obtain ⟨c, hc, rest, hrest, rfl⟩ := h
    rw [canonicalRecorded_rooted (w.resolve_rooted root) hc, ih hrest]
    rfl

theorem closedInventory_some
    (h : closedInventory w disk before aggregatePath recordedAggregate campaign inventoryPath liveRoot = some (manifest, closure)) :
    ∃ raw aggregate references declarations,
      Made w raw aggregate references declarations (w.resolve campaign) (w.resolve liveRoot) ∧
      w.readBytes aggregatePath = some raw ∧ canonicalRecorded (w.resolve liveRoot) = some (w.resolve liveRoot) ∧
      writeClosedInventory w disk before (aggregateSource aggregatePath recordedAggregate ::
        declarations.map fun d => ⟨d.locator, d.locator, d.boundary⟩) inventoryPath = some (manifest, closure) := by
  simp only [closedInventory, Option.bind_eq_bind, Option.bind_eq_some_iff] at h
  obtain ⟨raw, hraw, aggregate, hloads, sources, hcollect, h⟩ := h
  obtain ⟨declarations, hd, rfl, hfiles⟩ := collect_some hcollect
  obtain ⟨retained, live, references, hr, hl, ha, hdeclares⟩ := declarations_some hd
  have hone : ∀ {s : Text} {l : List Text}, [w.resolve s].mapM canonicalRecorded = some l →
      l = [w.resolve s] ∧ canonicalRecorded (w.resolve s) = some (w.resolve s) := by
    intro s l h
    obtain rfl : l = [w.resolve s] := @mapM_resolved w [s] l h
    obtain ⟨c, hc, he⟩ := Lib.mapM_mem h (w.resolve s) List.mem_cons_self
    rw [List.mem_singleton.mp hc] at he
    exact ⟨rfl, he⟩
  obtain ⟨rfl, hcanon⟩ := hone hr
  obtain ⟨rfl, hroot⟩ := hone hl
  exact ⟨raw, aggregate, references, declarations, ⟨hloads, ha, hdeclares, hcanon, hfiles⟩, hraw, hroot, h⟩

/-- What is hashed to name the copies of an aggregate and of what it refers to. -/
def locatorBytes (aggregateLocator : Text) (references : List (Text × Text)) : Set Bytes :=
  {b | ∃ l, (canonicalRecorded aggregateLocator = some l ∨ ∃ r ∈ references, canonicalRecorded r.1 = some l) ∧ b = encode l}

/-- What a mapping holds of an aggregate and of its references. -/
structure HoldsExactly (w : World) (io : RetainedArtifacts) (aggregate : Text) (references : List (Text × Text))
    (kept : Text → Prop) : Prop where
  locators : ∀ l, l ∈ io.recordedLocators ↔ l = aggregate ∨ ∃ r ∈ references, canonicalRecorded r.1 = some l ∧ kept l
  digests : ∀ r ∈ references, ∀ l, canonicalRecorded r.1 = some l → l ∈ io.recordedLocators →
    ∃ b, io.reads w l = some b ∧ hexdigest w b = r.2

namespace Made

variable {raw : Bytes} {aggregate : Doc} {references : List (Text × Text)} {declarations : List Declaration} {boundary root : Text}

theorem declared (h : Made w raw aggregate references declarations boundary root) (hd : d ∈ declarations) :
    Canonical d.locator ∧ d.boundary = boundary ∧ Under d.locator boundary ∧
      ∃ r ∈ references, canonicalRecorded r.1 = some d.locator ∧ r.2 = d.digest := by
  obtain ⟨r, hr, hlies⟩ := (h.declares.mem d).mp hd
  obtain ⟨hl, hdigest, hb, hu⟩ := lies_some hlies
  rw [List.mem_singleton] at hb
  exact ⟨canonicalRecorded_canonical hl, hb, hb ▸ hu, r, hr, hl, hdigest.symm⟩

/-- A reference in the boundary has a declaration. -/
theorem declaration (h : Made w raw aggregate references declarations boundary root) {r : Text × Text} (hr : r ∈ references)
    (hl : canonicalRecorded r.1 = some l) (hu : Under l boundary) : ⟨l, boundary, r.2⟩ ∈ declarations := by
  obtain ⟨x, hx⟩ := h.declares.all r hr
  obtain ⟨b, rfl⟩ := lies_under hx hl List.mem_cons_self hu
  have hb := (lies_some hx).2.2.1
  rw [List.mem_singleton] at hb
  cases hb
  exact (h.declares.mem _).mpr ⟨r, hr, hx⟩

/-- The source of a declaration is known by its locator, its boundary and its content. -/
theorem known (h : Made w raw aggregate references declarations boundary root) (hd : d ∈ declarations) {e : Text × Identity}
    (hk : Known w ⟨d.locator, d.locator, d.boundary⟩ e) : e.1 = d.locator ∧ e.2.boundary = boundary ∧ hexdigest w e.2.data = d.digest := by
  obtain ⟨hcanon, hb, -, -⟩ := h.declared hd
  have hl : canonicalRecorded d.locator = some e.1 := hk.locator
  have hbound : canonicalRecorded d.boundary = some e.2.boundary := hk.boundary
  have hdata : w.readBytes d.locator = some e.2.data := hk.data
  have hdigest := (h.files d hd).2
  have hc : canonicalRecorded boundary = some boundary := h.boundary
  rw [show canonicalRecorded d.locator = some d.locator from hcanon] at hl
  rw [hb, hc] at hbound
  rw [hdata, Option.map_some] at hdigest
  exact ⟨(Option.some.inj hl).symm, (Option.some.inj hbound).symm, Option.some.inj hdigest⟩

end Made

/-- The rows of an inventory: the aggregate's and one for each declaration. -/
structure Listed (w : World) (raw : Bytes) (declarations : List Declaration) (aggregate directory boundary : Text)
    (rows : List ArtifactEntry) : Prop where
  only : ∀ e ∈ rows, (e.locator = aggregate ∧ e.boundary = directory ∧ e.digest = hexdigest w raw) ∨
    ∃ d ∈ declarations, e.locator = d.locator ∧ e.boundary = boundary ∧ e.digest = d.digest
  own : ∃ e ∈ rows, e.locator = aggregate ∧ e.boundary = directory ∧ e.digest = hexdigest w raw
  each : ∀ d ∈ declarations, ∃ e ∈ rows, e.locator = d.locator ∧ e.boundary = boundary ∧ e.digest = d.digest
  distinct : (rows.map (·.locator)).Nodup

section Written

variable {raw : Bytes} {aggregate : Doc} {references : List (Text × Text)} {declarations : List Declaration} {boundary root : Text}
  {own directory : Text} {s : Writing} {io : RetainedArtifacts} {rows : List ArtifactEntry}

theorem Wrote.mem_rows {done : List Source} (hw : Wrote w done s) {e : ArtifactEntry} :
    e ∈ s.rows ↔ ∃ source ∈ done, ∃ x, Known w source x ∧ e = rowOf w x := by
  rw [hw.rows, List.mem_map]
  constructor
  · rintro ⟨x, hx, rfl⟩
    obtain ⟨source, hs, hk⟩ := (hw.seen x).mp hx
    exact ⟨source, hs, x, hk, rfl⟩
  · rintro ⟨source, hs, x, hk, rfl⟩
    exact ⟨x, (hw.seen x).mpr ⟨source, hs, hk⟩, rfl⟩

theorem Made.listed (h : Made w raw aggregate references declarations boundary root)
    (hraw : w.readBytes aggregatePath = some raw) (hl : canonicalRecorded (strPath recordedAggregate) = some own)
    (hb : canonicalRecorded (parentPath recordedAggregate) = some directory)
    (hw : Wrote w (aggregateSource aggregatePath recordedAggregate :: declarations.map fun d => ⟨d.locator, d.locator, d.boundary⟩) s) :
    Listed w raw declarations own directory boundary s.rows := by
  have hown : ∀ x, Known w (aggregateSource aggregatePath recordedAggregate) x →
      x.1 = own ∧ x.2.boundary = directory ∧ x.2.data = raw := by
    intro x hk
    have h1 := hk.locator.symm.trans hl
    have h2 := hk.boundary.symm.trans hb
    have h3 := hk.data.symm.trans hraw
    exact ⟨Option.some.inj h1, Option.some.inj h2, Option.some.inj h3⟩
  refine ⟨fun e he => ?_, ?_, fun d hd => ?_, ?_⟩
  · obtain ⟨source, hs, x, hk, rfl⟩ := hw.mem_rows.mp he
    rcases List.mem_cons.mp hs with rfl | hs
    · obtain ⟨h1, h2, h3⟩ := hown x hk
      exact .inl ⟨h1, h2, congrArg (hexdigest w) h3⟩
    · obtain ⟨d, hd, rfl⟩ := List.mem_map.mp hs
      exact .inr ⟨d, hd, h.known hd hk⟩
  · obtain ⟨x, hk⟩ := hw.known _ List.mem_cons_self
    obtain ⟨h1, h2, h3⟩ := hown x hk
    exact ⟨rowOf w x, hw.mem_rows.mpr ⟨_, List.mem_cons_self, x, hk, rfl⟩, h1, h2, congrArg (hexdigest w) h3⟩
  · have hs : ⟨d.locator, d.locator, d.boundary⟩ ∈ aggregateSource aggregatePath recordedAggregate ::
        declarations.map fun d => ⟨d.locator, d.locator, d.boundary⟩ := List.mem_cons_of_mem _ (List.mem_map.mpr ⟨d, hd, rfl⟩)
    obtain ⟨x, hk⟩ := hw.known _ hs
    exact ⟨rowOf w x, hw.mem_rows.mpr ⟨_, hs, x, hk, rfl⟩, h.known hd hk⟩
  · rw [hw.rows, List.map_map]
    exact hw.distinct

/-- The mapping of the manifest holds what the rows list. -/
theorem Listed.holds (hrows : Listed w raw declarations own directory boundary rows)
    (h : Made w raw aggregate references declarations boundary root) (hio : io.Sound w) (he : ∀ e, e ∈ io.entries ↔ e ∈ rows)
    (hroot : ¬Under own root) :
    HoldsExactly w io own references (Under · boundary) ∧ ∃ b, io.reads w own = some b ∧ hexdigest w b = hexdigest w raw := by
  have hread : ∀ e ∈ rows, ∃ b, io.reads w e.locator = some b ∧ hexdigest w b = e.digest := by
    intro e hrow
    rw [← he] at hrow
    obtain ⟨b, hb, hdigest⟩ := hio.readBytes_eq hrow
    refine ⟨b, ?_, hdigest⟩
    rw [RetainedArtifacts.reads, hio.recordedBoundary_eq hrow, Option.bind_eq_bind, Option.bind_some, hb]
  have hmem : ∀ l, l ∈ io.recordedLocators ↔ ∃ e ∈ rows, e.locator = l := by
    intro l
    rw [RetainedArtifacts.recordedLocators, List.mem_map]
    exact exists_congr fun e => and_congr_left fun _ => he e
  refine ⟨⟨fun l => ?_, fun r hr l hl hin => ?_⟩, ?_⟩
  · rw [hmem]
    constructor
    · rintro ⟨e, hrow, rfl⟩
      rcases hrows.only e hrow with ⟨hl, -⟩ | ⟨d, hd, hl, -⟩
      · exact .inl hl
      · obtain ⟨-, -, hu, r, hr, hc, -⟩ := h.declared hd
        exact .inr ⟨r, hr, hl ▸ hc, hl ▸ hu⟩
    · rintro (rfl | ⟨r, hr, hc, hu⟩)
      · obtain ⟨e, hrow, hl, -⟩ := hrows.own
        exact ⟨e, hrow, hl⟩
      · obtain ⟨e, hrow, hl, -⟩ := hrows.each _ (h.declaration hr hc hu)
        exact ⟨e, hrow, hl⟩
  · -- a reference to what is held lies in the boundary: it is no live file
    have hu : Under l boundary := by
      obtain ⟨e, hrow, rfl⟩ := (hmem l).mp hin
      rcases hrows.only e hrow with ⟨hown, -⟩ | ⟨d, hd, hd', -⟩
      · obtain ⟨x, hx⟩ := h.declares.all r hr
        cases x with
        | some d =>
          obtain ⟨hc, -, hb, hu⟩ := lies_some hx
          rw [hl] at hc
          rw [List.mem_singleton] at hb
          rw [Option.some.inj hc, ← hb]
          exact hu
        | none =>
          obtain ⟨l', hl', -, ⟨root', hr', hu⟩, -⟩ := lies_none hx
          rw [hl] at hl'
          cases hl'
          rw [List.mem_singleton.mp hr', hown] at hu
          exact absurd hu hroot
      · rw [hd']
        exact (h.declared hd).2.2.1
    obtain ⟨e, hrow, hel, -, hdigest⟩ := hrows.each _ (h.declaration hr hl hu)
    obtain ⟨b, hb, hbd⟩ := hread e hrow
    rw [show e.locator = l from hel] at hb
    exact ⟨b, hb, hbd.trans hdigest⟩
  · obtain ⟨e, hrow, hel, -, hdigest⟩ := hrows.own
    obtain ⟨b, hb, hbd⟩ := hread e hrow
    exact ⟨b, hel ▸ hb, hbd.trans hdigest⟩

/-- The pairs that the validator reads in a manifest that was written. -/
theorem actual_written (rows : List ArtifactEntry) (hc : ∀ e ∈ rows, Canonical e.locator) :
    ((rows.map rowDoc).filterMap declaredRow).mapM (fun r => (canonicalRecorded r.1).map (·, r.2)) =
      some (rows.map fun e => (e.locator, e.digest)) := by
  have hrow : (rows.map rowDoc).filterMap declaredRow = rows.map fun e => (e.locator, e.digest) := by
    rw [List.filterMap_map]
    exact List.filterMap_eq_map_iff_forall_eq_some.mpr fun e _ => rfl
  rw [hrow]
  refine Lib.mapM_map fun e he => ?_
  rw [show canonicalRecorded e.locator = some e.locator from hc e he]
  rfl

theorem validate_iff {manifest value : Doc} {files boundaries : List Doc} {aggregateLocator : Text} {roots : List Text}
    (hf : dictGet manifest "files" = .arr files) (hb : dictGet manifest "recorded_boundaries" = .arr boundaries) :
    validateInventoryClosure w manifest value aggregateLocator raw roots = some () ↔ ∃ texts declarations own actual,
      boundaries.mapM textOf = some texts ∧ retainedArtifactDeclarations w value texts (roots.map w.resolve) = some declarations ∧
      canonicalRecorded aggregateLocator = some own ∧
      (files.filterMap declaredRow).mapM (fun r => (canonicalRecorded r.1).map (·, r.2)) = some actual ∧
      (actual.map (·.1)).dedup.length = files.length ∧
      SameDict actual ((own, hexdigest w raw) :: declarations.map fun d => (d.locator, d.digest)) := by
  simp only [validateInventoryClosure, hf, hb, Option.bind_eq_bind, Option.bind_eq_some_iff, Option.guard_eq_some', exists_and_left]

theorem Listed.mem_pairs (hrows : Listed w raw declarations own directory boundary rows) (x : Text × Text) :
    x ∈ rows.map (fun e => (e.locator, e.digest)) ↔ x ∈ (own, hexdigest w raw) :: declarations.map fun d => (d.locator, d.digest) := by
  rw [List.mem_map, List.mem_cons, List.mem_map]
  constructor
  · rintro ⟨e, he, rfl⟩
    rcases hrows.only e he with ⟨hl, -, hd⟩ | ⟨d, hd, hl, -, hdigest⟩
    · exact .inl (Prod.ext hl hd)
    · exact .inr ⟨d, hd, Prod.ext hl.symm hdigest.symm⟩
  · rintro (rfl | ⟨d, hd, rfl⟩)
    · obtain ⟨e, he, hl, -, hdigest⟩ := hrows.own
      exact ⟨e, he, Prod.ext hl hdigest⟩
    · obtain ⟨e, he, hl, -, hdigest⟩ := hrows.each d hd
      exact ⟨e, he, Prod.ext hl hdigest⟩

/-- The boundaries of the manifest are the aggregate's directory and the campaign, if anything lies in it. -/
theorem Listed.mem_boundaries (hrows : Listed w raw declarations own directory boundary rows) {b : Text}
    (h : b ∈ boundariesOf rows) : b = directory ∨ b = boundary := by
  obtain ⟨e, he, rfl⟩ := mem_boundariesOf.mp h
  exact (hrows.only e he).imp (·.2.1) fun ⟨_, _, _, hb, _⟩ => hb

theorem Listed.classed (hrows : Listed w raw declarations own directory boundary rows)
    (h : Made w raw aggregate references declarations boundary root) (hapart : Apart directory root) {r : Text × Text}
    (hr : r ∈ references) : ∃ x y, lies w [boundary] [root] r = some x ∧ lies w (boundariesOf rows) [root] r = some y ∧
      y.map (fun d => (d.locator, d.digest)) = x.map fun d => (d.locator, d.digest) := by
  obtain ⟨x, hx⟩ := h.declares.all r hr
  obtain ⟨y, hy, hxy⟩ := @lies_again w _ _ r (boundariesOf rows) x hx
    (fun l hl ⟨b, hb, hu⟩ => by
      rw [List.mem_singleton.mp hb] at hu
      obtain ⟨e, he, -, hbound, -⟩ := hrows.each _ (h.declaration hr hl hu)
      exact ⟨boundary, mem_boundariesOf.mpr ⟨e, he, hbound⟩, hu⟩)
    (fun l _ ⟨root', hr', hu⟩ hno b hb hub => by
      rw [List.mem_singleton.mp hr'] at hu
      rcases hrows.mem_boundaries hb with rfl | rfl
      · exact under_apart hapart hub hu
      · exact hno _ List.mem_cons_self hub)
  exact ⟨x, y, hx, hy, hxy⟩

/-- The validator accepts an inventory whose references it classes as the writer did. -/
theorem Listed.validated (hrows : Listed w raw declarations own directory boundary rows)
    (h : Made w raw aggregate references declarations boundary (w.resolve liveRoot))
    (hroot : canonicalRecorded (w.resolve liveRoot) = some (w.resolve liveRoot))
    (hown : canonicalRecorded (strPath recordedAggregate) = some own) (hownc : Canonical own) (hdir : Canonical directory)
    (hapart : Apart directory (w.resolve liveRoot)) :
    validateInventoryClosure w (manifestOf rows) aggregate (strPath recordedAggregate) raw [liveRoot] = some () := by
  have hsorted : (rows.insertionSort fun a b => encode a.locator ≤ encode b.locator).Perm rows := List.perm_insertionSort _ _
  have htexts : ((boundariesOf rows).map Value.str).mapM textOf = some (boundariesOf rows) := by
    have := @Lib.mapM_map Text Doc Text textOf Value.str id (boundariesOf rows) fun b _ => rfl
    rwa [List.map_id] at this
  have hretained : (boundariesOf rows).mapM canonicalRecorded = some (boundariesOf rows) := by
    have := @Lib.mapM_map Text Text Text canonicalRecorded id id (boundariesOf rows) fun b hb => by
      rcases hrows.mem_boundaries hb with rfl | rfl
      · exact hdir
      · exact h.boundary
    rwa [List.map_id] at this
  have hlive : [w.resolve liveRoot].mapM canonicalRecorded = some [w.resolve liveRoot] := by
    rw [List.mapM_cons, hroot]
    rfl
  have hcanon : ∀ e ∈ rows, Canonical e.locator := by
    intro e he
    rcases hrows.only e he with ⟨hl, -⟩ | ⟨d, hd, hl, -⟩
    · rw [hl]
      exact hownc
    · rw [hl]
      exact (h.declared hd).1
  -- what the validator declares has the locators and digests of what the writer declared
  have hback : ∀ d, (∃ r ∈ references, lies w (boundariesOf rows) [w.resolve liveRoot] r = some (some d)) →
      ∃ d' ∈ declarations, d'.locator = d.locator ∧ d'.digest = d.digest := by
    rintro d ⟨r, hr, hd⟩
    obtain ⟨x, y, hx, hy, hxy⟩ := hrows.classed h hapart hr
    rw [hd] at hy
    cases hy
    cases x with
    | none => cases hxy
    | some d' =>
      have hpair := Option.some.inj hxy
      exact ⟨d', (h.declares.mem d').mpr ⟨r, hr, hx⟩, (congrArg (·.1) hpair).symm, (congrArg (·.2) hpair).symm⟩
  have hone : ∀ d e, (∃ r ∈ references, lies w (boundariesOf rows) [w.resolve liveRoot] r = some (some d)) →
      (∃ r ∈ references, lies w (boundariesOf rows) [w.resolve liveRoot] r = some (some e)) → d.locator = e.locator → d = e := by
    intro d e hd he hde
    obtain ⟨d', hd', hdl, hdd⟩ := hback d hd
    obtain ⟨e', he', hel, hed⟩ := hback e he
    have hsame := List.inj_on_of_nodup_map h.declares.distinct hd' he' (hdl.trans (hde.trans hel.symm))
    have hdigest : d.digest = e.digest := by rw [← hdd, hsame, hed]
    obtain ⟨r, -, hr⟩ := hd
    obtain ⟨r', -, hr'⟩ := he
    obtain ⟨-, l, -, ⟨b, hb, hdb⟩ | ⟨-, -, -, -, hno⟩⟩ := lies_iff.mp hr
    · obtain ⟨-, l', -, ⟨b', hb', heb⟩ | ⟨-, -, -, -, hno⟩⟩ := lies_iff.mp hr'
      · cases hdb
        cases heb
        cases hde
        rw [hb] at hb'
        cases hb'
        exact congrArg (Declaration.mk l b) hdigest
      · cases hno
    · cases hno
  obtain ⟨again, hagain⟩ := declarations_exist hretained hlive h.refers
    (fun r hr => by obtain ⟨_, y, _, hy, _⟩ := hrows.classed h hapart hr; exact ⟨y, hy⟩) hone
  obtain ⟨retained', live', references', hr', hl', ha', hdeclares⟩ := declarations_some hagain
  cases hretained.symm.trans hr'
  cases hlive.symm.trans hl'
  cases h.refers.symm.trans ha'
  have hpairs : ∀ x, x ∈ again.map (fun d => (d.locator, d.digest)) ↔ x ∈ declarations.map fun d => (d.locator, d.digest) := by
    intro x
    rw [List.mem_map, List.mem_map]
    constructor
    · rintro ⟨d, hd, rfl⟩
      obtain ⟨d', hd', hl, hdigest⟩ := hback d ((hdeclares.mem d).mp hd)
      exact ⟨d', hd', Prod.ext hl hdigest⟩
    · rintro ⟨d, hd, rfl⟩
      obtain ⟨r, hr, hlies⟩ := (h.declares.mem d).mp hd
      obtain ⟨x, y, hx, hy, hxy⟩ := hrows.classed h hapart hr
      rw [hlies] at hx
      cases hx
      cases y with
      | none => cases hxy
      | some d' => exact ⟨d', (hdeclares.mem d').mpr ⟨r, hr, hy⟩, Option.some.inj hxy⟩
  have hactual := actual_written (rows.insertionSort fun a b => encode a.locator ≤ encode b.locator) fun e he =>
    hcanon e (hsorted.mem_iff.mp he)
  have hnodup : (((rows.insertionSort fun a b => encode a.locator ≤ encode b.locator).map fun e => (e.locator, e.digest)).map (·.1)).Nodup := by
    rw [List.map_map]
    exact ((hsorted.map _).nodup_iff).mpr hrows.distinct
  have hmem : ∀ x, x ∈ (rows.insertionSort fun a b => encode a.locator ≤ encode b.locator).map (fun e => (e.locator, e.digest)) ↔
      x ∈ (own, hexdigest w raw) :: again.map fun d => (d.locator, d.digest) := by
    intro x
    rw [(hsorted.map _).mem_iff, hrows.mem_pairs, List.mem_cons, List.mem_cons, hpairs]
  refine (validate_iff (rfl : dictGet (manifestOf rows) "files" = .arr _) rfl).mpr
    ⟨_, again, own, _, htexts, hagain, hown, hactual, ?_, ?_⟩
  · rw [hnodup.dedup, List.length_map, List.length_map, List.length_map]
  · have hc := consistent_of_nodup hnodup
    exact sameDict_of_mem hc (fun a ha b hb => hc a ((hmem a).mpr ha) b ((hmem b).mpr hb)) hmem

end Written

/-! ## A manifest that is accepted -/

section Accepted

variable {raw : Bytes} {value : Doc} {references : List (Text × Text)} {declarations : List Declaration} {dir : Directory}
  {io : RetainedArtifacts} {aggregateLocator own : Text} {roots : List Text}

theorem mapM_boundaries {boundaries : List Doc} {texts : List Text} (h : boundaries.mapM textOf = some texts) :
    boundaries.mapM canonicalValue = texts.mapM canonicalRecorded := by
  induction boundaries generalizing texts with
  | nil =>
    cases h
    rfl
  | cons b boundaries ih =>
    rw [List.mapM_cons] at h
    simp only [Option.bind_eq_bind, Option.bind_eq_some_iff, Option.pure_def, Option.some.injEq] at h
    obtain ⟨s, hs, rest, hrest, rfl⟩ := h
    rw [List.mapM_cons, List.mapM_cons, ih hrest, textOf_some.mp hs]
    rfl

/-- What the validator reads in rows that are admitted. -/
theorem actual_admitted {rows : List Doc} {boundaries : List Text} {admitted : List (ArtifactEntry × Nat)}
    (h : rows.mapM (examine w boundaries dir) = some admitted) :
    (rows.filterMap declaredRow).mapM (fun r => (canonicalRecorded r.1).map (·, r.2)) =
      some (admitted.map fun a => (a.1.locator, a.1.digest)) := by
  induction rows generalizing admitted with
  | nil =>
    cases h
    rfl
  | cons row rows ih =>
    rw [List.mapM_cons] at h
    simp only [Option.bind_eq_bind, Option.bind_eq_some_iff, Option.pure_def, Option.some.injEq] at h
    obtain ⟨⟨e, inode⟩, he, rest, hrest, rfl⟩ := h
    obtain ⟨-, ⟨s, hs, hl⟩, hd⟩ := examine_some he
    have hrow : declaredRow row = some (s, e.digest) := by
      rw [declaredRow, textOf_some.mpr hs, textOf_some.mpr hd]
      rfl
    rw [List.filterMap_cons_some hrow, List.mapM_cons, ih hrest, hl]
    rfl

theorem RetainedArtifacts.Sound.reads_eq (h : io.Sound w) {e : ArtifactEntry} (he : e ∈ io.entries) :
    ∃ b, io.reads w e.locator = some b ∧ hexdigest w b = e.digest := by
  obtain ⟨b, hb, hd⟩ := h.readBytes_eq he
  refine ⟨b, ?_, hd⟩
  rw [RetainedArtifacts.reads, h.recordedBoundary_eq he, Option.bind_eq_bind, Option.bind_some, hb]

/-- What is left of a manifest that both sides accept. -/
structure Closed (w : World) (io : RetainedArtifacts) (live : List Text) (references : List (Text × Text))
    (declarations : List Declaration) (own : Text) (raw : Bytes) : Prop where
  sound : io.Sound w
  declares : Declares w io.recordedBoundaries live references declarations
  locator : ∀ l, l ∈ io.recordedLocators ↔ l = own ∨ ∃ d ∈ declarations, d.locator = l
  digest : ∀ d ∈ declarations, ∃ e ∈ io.entries, e.locator = d.locator ∧ e.digest = d.digest
  own : ∃ e ∈ io.entries, e.locator = own ∧ (e.digest = hexdigest w raw ∨ ∃ d ∈ declarations, d.locator = own)

theorem closed_of_accepted (hm : fromManifest w manifest dir = some io)
    (hv : validateInventoryClosure w manifest value aggregateLocator raw roots = some ()) :
    ∃ own references declarations, canonicalRecorded aggregateLocator = some own ∧
      artifactReferences w.whole value = some references ∧
      Closed w io (roots.map w.resolve) references declarations own raw := by
  obtain ⟨members, boundaries, files, admitted, -, hb, hf, -, -, -, hbs, -, -, hexamine, hdistinct, -, -, he⟩ := fromManifest_iff.mp hm
  obtain ⟨texts, declarations, own, actual, htexts, hd, hown, hactual, -, hsame⟩ := (validate_iff hf hb).mp hv
  obtain ⟨retained, live, references, hr, hl, ha, hdeclares⟩ := declarations_some hd
  obtain rfl := mapM_resolved hl
  obtain rfl : io.recordedBoundaries = retained := Option.some.inj (hbs.symm.trans ((mapM_boundaries htexts).trans hr))
  have hpairs : actual = io.entries.map fun e => (e.locator, e.digest) := by
    rw [actual_admitted hexamine] at hactual
    rw [← Option.some.inj hactual, he, List.map_map]
    rfl
  have hkeys : ∀ k, k ∈ actual.map (·.1) ↔ k ∈ io.recordedLocators := by
    intro k
    rw [hpairs, List.map_map]
    rfl
  have hactualc : Consistent actual := by
    refine consistent_of_nodup ?_
    rw [hpairs, he, List.map_map, List.map_map]
    exact hdistinct.locators
  have hdeclc : Consistent (declarations.map fun d => (d.locator, d.digest)) := by
    refine consistent_of_nodup ?_
    rw [List.map_map]
    exact hdeclares.distinct
  -- a key of either dictionary is one of the other
  have hboth : ∀ k, k ∈ actual.map (·.1) ↔ k = own ∨ ∃ d ∈ declarations, d.locator = k := by
    have hexpected : ∀ k, k ∈ ((own, hexdigest w raw) :: declarations.map fun d => (d.locator, d.digest)).map (·.1) ↔
        k = own ∨ ∃ d ∈ declarations, d.locator = k := by
      intro k
      rw [List.map_cons, List.mem_cons, List.map_map, List.mem_map]
      rfl
    intro k
    rw [← hexpected]
    constructor
    · intro hk
      obtain ⟨v, hv⟩ := @lookup_mem actual.reverse k (by rw [List.map_reverse, List.mem_reverse]; exact hk)
      rw [hsame k (List.mem_append_left _ hk)] at hv
      exact List.mem_map.mpr ⟨_, List.mem_reverse.mp (lookup_some hv), rfl⟩
    · intro hk
      obtain ⟨v, hv⟩ := @lookup_mem (((own, hexdigest w raw) :: declarations.map fun d => (d.locator, d.digest)).reverse) k
        (by rw [List.map_reverse, List.mem_reverse]; exact hk)
      rw [← hsame k (List.mem_append_right _ hk)] at hv
      exact List.mem_map.mpr ⟨_, List.mem_reverse.mp (lookup_some hv), rfl⟩
  have hentry : ∀ k v, actual.reverse.lookup k = some v → ∃ e ∈ io.entries, e.locator = k ∧ e.digest = v := by
    intro k v hkv
    have hmem := List.mem_reverse.mp (lookup_some hkv)
    rw [hpairs] at hmem
    obtain ⟨e, hem, heq⟩ := List.mem_map.mp hmem
    exact ⟨e, hem, congrArg (·.1) heq, congrArg (·.2) heq⟩
  refine ⟨own, references, declarations, hown, ha, fromManifest_sound hm, hdeclares, fun l => ?_, fun d hdm => ?_, ?_⟩
  · rw [← hkeys, hboth]
  · have hk := (hboth d.locator).mpr (.inr ⟨d, hdm, rfl⟩)
    refine hentry _ _ ?_
    rw [hsame _ (List.mem_append_left _ hk), List.reverse_cons, List.lookup_append,
      hdeclc.lookup_iff.mpr (List.mem_map.mpr ⟨d, hdm, rfl⟩)]
    rfl
  · have hk := (hboth own).mpr (.inl rfl)
    obtain ⟨v, hv⟩ := @lookup_mem actual.reverse own (by rw [List.map_reverse, List.mem_reverse]; exact hk)
    obtain ⟨e, hem, hel, hed⟩ := hentry _ _ hv
    refine ⟨e, hem, hel, ?_⟩
    rw [hsame _ (List.mem_append_left _ hk)] at hv
    rcases List.mem_cons.mp (List.mem_reverse.mp (lookup_some hv)) with h | h
    · exact .inl (hed.trans (congrArg (·.2) h))
    · obtain ⟨d, hdm, hdv⟩ := List.mem_map.mp h
      exact .inr ⟨d, hdm, congrArg (·.1) hdv⟩

theorem Closed.holds {live : List Text} (h : Closed w io live references declarations own raw) :
    HoldsExactly w io own references fun l => ∃ b ∈ io.recordedBoundaries, Under l b := by
  refine ⟨fun l => ?_, fun r hr l hl hin => ?_⟩
  · rw [h.locator]
    refine or_congr_right ⟨?_, ?_⟩
    · rintro ⟨d, hd, rfl⟩
      obtain ⟨r, hr, hlies⟩ := (h.declares.mem d).mp hd
      obtain ⟨hc, -, hb, hu⟩ := lies_some hlies
      exact ⟨r, hr, hc, d.boundary, hb, hu⟩
    · rintro ⟨r, hr, hc, b, hb, hu⟩
      obtain ⟨x, hx⟩ := h.declares.all r hr
      obtain ⟨b', rfl⟩ := lies_under hx hc hb hu
      exact ⟨_, (h.declares.mem _).mpr ⟨r, hr, hx⟩, rfl⟩
  · obtain ⟨e, he, rfl⟩ := List.mem_map.mp hin
    obtain ⟨_, hh⟩ := h.sound.entries e he
    obtain ⟨x, hx⟩ := h.declares.all r hr
    obtain ⟨b', rfl⟩ := lies_under hx hl hh.bounded hh.under
    obtain ⟨f, hf, hfl, hfd⟩ := h.digest _ ((h.declares.mem _).mpr ⟨r, hr, hx⟩)
    obtain ⟨b, hb, hbd⟩ := h.sound.reads_eq hf
    rw [show f.locator = e.locator from hfl] at hb
    exact ⟨b, hb, hbd.trans hfd⟩

/-- What is not held is a live file, and not in the directory of the aggregate. -/
theorem Closed.left_out {live : List Text} (h : Closed w io live references declarations own raw) {r : Text × Text} (hr : r ∈ references)
    (hl : canonicalRecorded r.1 = some l) (hout : l ∉ io.recordedLocators) :
    (∃ root ∈ live, Under l root) ∧ w.isFile l ∧ (w.readBytes l).map (hexdigest w) = some r.2 ∧ ¬(parts own).dropLast <+: parts l := by
  obtain ⟨x, hx⟩ := h.declares.all r hr
  cases x with
  | some d =>
    obtain ⟨hc, -, -, -⟩ := lies_some hx
    rw [hl] at hc
    exact absurd ((h.locator l).mpr (.inr ⟨d, (h.declares.mem d).mpr ⟨r, hr, hx⟩, (Option.some.inj hc).symm⟩)) hout
  | none =>
    obtain ⟨l', hl', hno, hroot, hf, hd⟩ := lies_none hx
    rw [hl] at hl'
    cases hl'
    refine ⟨hroot, hf, hd, fun hpre => ?_⟩
    obtain ⟨e, he, rfl, -⟩ := h.own
    obtain ⟨_, hh⟩ := h.sound.entries e he
    have hne : parts e.boundary ≠ parts e.locator := fun heq => hh.below (hh.locator.parts_inj hh.boundary heq.symm)
    have hdrop := (Tree.prefix_dropLast hh.locator.named).mpr ⟨hh.under, hne⟩
    exact hno e.boundary hh.bounded (hdrop.trans hpre)

end Accepted

/-! ## The round trip -/

theorem locator_bytes {aggregatePath recordedAggregate boundary root : Text} {raw : Bytes} {aggregate : Doc}
    {references : List (Text × Text)} {declarations : List Declaration}
    (h : Made w raw aggregate references declarations boundary root) :
    hashedLocators (aggregateSource aggregatePath recordedAggregate :: declarations.map fun d => ⟨d.locator, d.locator, d.boundary⟩) ⊆
      locatorBytes (strPath recordedAggregate) references := by
  rintro b ⟨source, hs, l, hl, rfl⟩
  rcases List.mem_cons.mp hs with rfl | hs
  · exact ⟨l, .inl hl, rfl⟩
  · obtain ⟨d, hd, rfl⟩ := List.mem_map.mp hs
    obtain ⟨hcanon, -, -, r, hr, hc, -⟩ := h.declared hd
    cases (show canonicalRecorded d.locator = some d.locator from hcanon).symm.trans hl
    exact ⟨d.locator, .inr ⟨r, hr, hc⟩, rfl⟩

theorem closed_round_trip (w : World) :
    (∀ (disk : Disk) (before closure : Tree Name StoredFile) (aggregatePath recordedAggregate campaign inventoryPath liveRoot : Text)
      (raw : Bytes) (aggregate : Doc) (references : List (Text × Text)) (manifest : Doc),
      isAbsolute recordedAggregate → w.lstat (w.resolve campaign) = some .directory →
      Apart (parentPath recordedAggregate) (w.resolve liveRoot) →
      Set.InjOn w.sha256 (locatorBytes (strPath recordedAggregate) references) →
      w.readBytes aggregatePath = some raw → w.loads raw = some aggregate → artifactReferences w.whole aggregate = some references →
      closedInventory w disk before aggregatePath recordedAggregate campaign inventoryPath liveRoot = some (manifest, closure) →
      ∃ io, fromManifest w manifest ⟨closure, true⟩ = some io ∧
        HoldsExactly w io (strPath recordedAggregate) references (Under · (w.resolve campaign)) ∧
        (∃ b, io.reads w (strPath recordedAggregate) = some b ∧ hexdigest w b = hexdigest w raw) ∧
        validateInventoryClosure w manifest aggregate (strPath recordedAggregate) raw [liveRoot] = some ()) ∧
    ∀ (manifest value : Doc) (dir : Directory) (io : RetainedArtifacts) (aggregateLocator : Text) (raw : Bytes) (liveRoots : List Text),
      fromManifest w manifest dir = some io →
      validateInventoryClosure w manifest value aggregateLocator raw liveRoots = some () →
      ∃ own references, canonicalRecorded aggregateLocator = some own ∧ artifactReferences w.whole value = some references ∧
        HoldsExactly w io own references (fun l => ∃ b ∈ io.recordedBoundaries, Under l b) ∧
        (∀ r ∈ references, ∀ l, canonicalRecorded r.1 = some l → l ∉ io.recordedLocators →
          (∃ root ∈ liveRoots.map w.resolve, Under l root) ∧ w.isFile l ∧ (w.readBytes l).map (hexdigest w) = some r.2 ∧
            ¬(parts own).dropLast <+: parts l) ∧
        ∃ b, io.reads w own = some b ∧ (hexdigest w b = hexdigest w raw ∨ ∃ r ∈ references, canonicalRecorded r.1 = some own) := by
  refine ⟨?_, ?_⟩
  · intro disk before closure aggregatePath recordedAggregate campaign inventoryPath liveRoot raw aggregate references manifest
      habs hcampaign hapart hS hraw hloads hrefers hwrite
    obtain ⟨raw', aggregate', references', declarations, hmade, hraw', hroot, hwrite⟩ := closedInventory_some hwrite
    cases hraw.symm.trans hraw'
    cases hloads.symm.trans hmade.loads
    cases hrefers.symm.trans hmade.refers
    have hSources := hS.mono (@locator_bytes w aggregatePath recordedAggregate _ _ _ _ _ _ hmade)
    -- the aggregate lies in its directory, and nothing that is copied is the campaign itself
    have hin : ∀ source ∈ aggregateSource aggregatePath recordedAggregate ::
        declarations.map (fun d => ⟨d.locator, d.locator, d.boundary⟩), ∀ e, Known w source e → Under e.1 e.2.boundary ∧ e.1 ≠ e.2.boundary := by
      intro source hs e hk
      rcases List.mem_cons.mp hs with rfl | hs
      · obtain ⟨-, -, hp⟩ := parent_parts habs hk.locator hk.boundary
        have hnamed := (canonicalRecorded_canonical hk.locator).named
        have hunder : parts e.2.boundary <+: parts e.1 ∧ parts e.2.boundary ≠ parts e.1 :=
          (Tree.prefix_dropLast hnamed).mp (hp ▸ List.prefix_refl _)
        exact ⟨hunder.1, fun he => hunder.2 (congrArg parts he.symm)⟩
      · obtain ⟨d, hd, rfl⟩ := List.mem_map.mp hs
        obtain ⟨hl, hb, -⟩ := hmade.known hd hk
        rw [hl, hb]
        refine ⟨(hmade.declared hd).2.2.1, fun he => ?_⟩
        have hstat := (hmade.files d hd).1
        rw [he, hcampaign] at hstat
        cases hstat
    obtain ⟨s, io, hw, rfl, hio, hentries⟩ := written_accepted hwrite hSources (List.cons_ne_nil _ _) hin
    obtain ⟨own, hk⟩ := hw.known _ List.mem_cons_self
    obtain ⟨hown, hdir, -⟩ := parent_parts habs hk.locator hk.boundary
    have hl : canonicalRecorded (strPath recordedAggregate) = some own.1 := hk.locator
    have hb : canonicalRecorded (parentPath recordedAggregate) = some own.2.boundary := hk.boundary
    have hlisted := hmade.listed hraw hl hb hw
    rw [← hdir] at hapart
    have hownc := canonicalRecorded_canonical hl
    have hlive : ¬Under own.1 (w.resolve liveRoot) := fun hu =>
      under_apart hapart (hin _ List.mem_cons_self own hk).1 hu
    obtain ⟨hholds, hread⟩ := hlisted.holds hmade (fromManifest_sound hio) hentries hlive
    rw [← hown]
    refine ⟨io, hio, hholds, hread, ?_⟩
    rw [hown]
    exact hlisted.validated hmade hroot hl hownc (canonicalRecorded_canonical hb) hapart
  · intro manifest value dir io aggregateLocator raw liveRoots hm hv
    obtain ⟨own, references, declarations, hown, hrefers, hclosed⟩ := closed_of_accepted hm hv
    refine ⟨own, references, hown, hrefers, hclosed.holds, fun r hr l hl hout => hclosed.left_out hr hl hout, ?_⟩
    obtain ⟨e, he, rfl, hdigest⟩ := hclosed.own
    obtain ⟨b, hb, hbd⟩ := hclosed.sound.reads_eq he
    refine ⟨b, hb, hdigest.imp (hbd.trans ·) fun ⟨d, hd, hdl⟩ => ?_⟩
    obtain ⟨r, hr, hlies⟩ := (hclosed.declares.mem d).mp hd
    exact ⟨r, hr, hdl ▸ (lies_some hlies).1⟩

/-! ### A campaign with one artifact, spelled as Windows does -/

def smallAggregatePath : Text := text "/mnt/c/e/g"

def smallArtifact : Bytes := [7]

def smallHash (b : Bytes) : BitVec 256 := Seal.smallTools.sha256 b

def smallAggregate : Doc :=
  .obj [(text "path", .str (text "C:\\e\\k\\a")), (text "sha256", .str (text (hex (smallHash smallArtifact))))]

def smallWorld : World where
  sha256 := smallHash
  whole := fun _ => none
  loads := fun b => if b = [1] then some smallAggregate else none
  resolve := fun path => slash :: path.dropWhile (· = slash)
  resolve_rooted := fun _ => rfl
  lstat := fun path =>
    if path = smallAggregatePath ∨ path = text "/mnt/c/e/k/a" then some (.regular 1)
    else if path = text "/mnt/c/e/k" then some .directory else none
  readBytes := fun path =>
    if path = smallAggregatePath then some [1] else if path = text "/mnt/c/e/k/a" then some smallArtifact else none
  isFile := fun _ => false

def smallDisk : Disk where
  system := ⟨fun _ => true, fun _ => true⟩
  inode := fun l => l.foldr max 0 + 1
  fresh := by
    intro l h
    have : ∀ (m : List Nat), ∀ n ∈ m, n ≤ m.foldr max 0 := by
      intro m
      induction m with
      | nil => simp
      | cons k m ih =>
        intro n hn
        rcases List.mem_cons.mp hn with rfl | hn
        · exact le_max_left _ _
        · exact (ih n hn).trans (le_max_right _ _)
    have := this l _ h
    omega

def smallReferences : List (Text × Text) := [(text "C:\\e\\k\\a", text (hex (smallHash smallArtifact)))]

def smallInventory : Option (Doc × Tree Name StoredFile) :=
  closedInventory smallWorld smallDisk Tree.absent smallAggregatePath smallAggregatePath (text "/mnt/c/e/k") (text "/mnt/c/e/i") (text "/r")

theorem small_written : smallInventory.isSome = true := by decide +kernel

theorem small_locator {l : Text} (h : canonicalRecorded (strPath smallAggregatePath) = some l ∨
    ∃ r ∈ smallReferences, canonicalRecorded r.1 = some l) : l = smallAggregatePath ∨ l = text "/mnt/c/e/k/a" := by
  rcases h with h | ⟨r, hr, h⟩
  · have hl : canonicalRecorded (strPath smallAggregatePath) = some smallAggregatePath := by decide +kernel
    exact .inl (Option.some.inj (h.symm.trans hl))
  · rw [smallReferences, List.mem_singleton] at hr
    rw [hr] at h
    have hl : canonicalRecorded (text "C:\\e\\k\\a") = some (text "/mnt/c/e/k/a") := by decide +kernel
    exact .inr (Option.some.inj (h.symm.trans hl))

theorem small_injOn : Set.InjOn smallWorld.sha256 (locatorBytes (strPath smallAggregatePath) smallReferences) := by
  have hne : smallHash (encode smallAggregatePath) ≠ smallHash (encode (text "/mnt/c/e/k/a")) := by decide
  rintro a ⟨l, hl, rfl⟩ b ⟨m, hm, rfl⟩ h
  rcases small_locator hl with rfl | rfl
  · rcases small_locator hm with rfl | rfl
    · rfl
    · exact absurd h hne
  · rcases small_locator hm with rfl | rfl
    · exact absurd h.symm hne
    · rfl

theorem closed_round_trip_small : ∃ manifest closure io, smallInventory = some (manifest, closure) ∧
    fromManifest smallWorld manifest ⟨closure, true⟩ = some io ∧
    HoldsExactly smallWorld io smallAggregatePath smallReferences (Under · (text "/mnt/c/e/k")) ∧
    validateInventoryClosure smallWorld manifest smallAggregate smallAggregatePath [1] [text "/r"] = some () ∧
    ∃ own references, canonicalRecorded smallAggregatePath = some own ∧
      artifactReferences smallWorld.whole smallAggregate = some references ∧
      HoldsExactly smallWorld io own references fun l => ∃ b ∈ io.recordedBoundaries, Under l b := by
  obtain ⟨⟨manifest, closure⟩, hwrite⟩ := Option.isSome_iff_exists.mp small_written
  have hown : strPath smallAggregatePath = smallAggregatePath := by decide
  have hrefers : artifactReferences smallWorld.whole smallAggregate = some smallReferences := by decide
  obtain ⟨io, hio, hholds, -, hvalid⟩ := (closed_round_trip smallWorld).1 smallDisk Tree.absent closure smallAggregatePath
    smallAggregatePath (text "/mnt/c/e/k") (text "/mnt/c/e/i") (text "/r") [1] smallAggregate smallReferences manifest
    (by decide) (by decide) (by decide) small_injOn (by decide) rfl hrefers hwrite
  rw [hown] at hholds hvalid
  obtain ⟨own, references, hl, ha, hheld, -⟩ := (closed_round_trip smallWorld).2 manifest smallAggregate ⟨closure, true⟩ io
    smallAggregatePath [1] [text "/r"] hio hvalid
  exact ⟨manifest, closure, io, hwrite, hio, hholds, hvalid, own, references, hl, ha, hheld⟩

end BettingHelper.Retained
