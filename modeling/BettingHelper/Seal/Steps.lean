/-
  BettingHelper.Seal.Steps — what a seal and a verification go through, one fact each, and
  what of a pack they depend on.

  The manifest and the governed root are computed from the other files, so writing either
  leaves the other as it was (`manifestOf_manifest`, `governedRecord_exclusion`).
-/

import BettingHelper.Seal.Sealing

namespace BettingHelper.Seal

open BettingHelper.Lib.Json

variable {κ : Type} {t : Tools κ} {w w' : World} {o : Outputs} {p q : Pack} {z : Bytes} {a receipt : Doc}
  {now : Text}

/-! ## Files that are left out -/

theorem filesOf_bad {bad : Text → Bool} {l : List (Text × Node)} {fs : List (Text × Bytes)} (h : filesOf bad l = some fs)
    {r : Text} {b : Bytes} {n : Nat} (hm : (r, .file b n) ∈ l) : bad r = false := by
  induction l generalizing fs with
  | nil => cases hm
  | cons e l ih =>
    obtain ⟨d, m⟩ := e
    cases m with
    | file c links =>
      rw [filesOf] at h
      split_ifs at h with hb
      obtain ⟨gs, hg, -⟩ := Option.map_eq_some_iff.mp h
      rcases List.mem_cons.mp hm with heq | hm
      · cases heq
        rw [Bool.or_eq_true, not_or] at hb
        exact Bool.eq_false_iff.mpr hb.2
      · exact ih hg hm
    | other => cases h
    | directory =>
      rcases List.mem_cons.mp hm with heq | hm
      · cases heq
      · exact ih h hm
    | linkedDirectory =>
      rcases List.mem_cons.mp hm with heq | hm
      · cases heq
      · exact ih h hm

/-- Overwriting a file changes its bytes where it is listed. -/
theorem filesOf_overwrite (bad : Text → Bool) (l : List (Text × Node)) (r : Text) (b : Bytes) :
    filesOf bad (l.map fun e => if e.1 = r then (e.1, e.2.overwrite b) else e) =
      (filesOf bad l).map (List.map fun m => if m.1 = r then (m.1, b) else m) := by
  induction l with
  | nil => rfl
  | cons e l ih =>
    obtain ⟨d, m⟩ := e
    rw [List.map_cons]
    by_cases hd : d = r
    · cases m with
      | file c n =>
        simp only [hd, if_true, overwrite_file, filesOf, ih]
        split_ifs
        · rfl
        · cases filesOf bad l <;> simp
      | other => simp [hd, filesOf]
      | directory => simp [hd, filesOf, ih]
      | linkedDirectory => simp [hd, filesOf, ih]
    · cases m with
      | file c n =>
        simp only [hd, if_false, filesOf, ih]
        split_ifs
        · rfl
        · cases filesOf bad l <;> simp [hd]
      | other => simp [hd, filesOf]
      | directory => simp [hd, filesOf, ih]
      | linkedDirectory => simp [hd, filesOf, ih]

theorem filesOf_append {bad : Text → Bool} {r : Text} (hr : bad r = false) (l : List (Text × Node)) (b : Bytes) :
    filesOf bad (l ++ [(r, .file b 1)]) = (filesOf bad l).map (· ++ [(r, b)]) := by
  induction l with
  | nil => simp [filesOf, hr]
  | cons e l ih =>
    obtain ⟨d, m⟩ := e
    rw [List.cons_append]
    cases m with
    | file c n =>
      simp only [filesOf, ih]
      split_ifs
      · rfl
      · cases filesOf bad l <;> simp
    | other => rfl
    | directory => exact ih
    | linkedDirectory => exact ih

/-- The files but one do not depend on the bytes of that one. -/
theorem filesOf_put {bad : Text → Bool} {l m : List (Text × Node)} {r : Text} {b : Bytes} (hb : bad r = false)
    (hr : parents r = []) (h : put l r b = some m) {keep : Text × Bytes → Bool} (hk : ∀ c, keep (r, c) = false) :
    (filesOf bad m).map (List.filter keep) = (filesOf bad l).map (List.filter keep) := by
  obtain ⟨-, ⟨c, n, -, rfl⟩ | ⟨-, rfl⟩⟩ := put_cases h
  · rw [filesOf_overwrite, Option.map_map]
    congr 1
    funext fs
    show ((fs.map _).filter keep) = fs.filter keep
    induction fs with
    | nil => rfl
    | cons x fs ih =>
      obtain ⟨d, y⟩ := x
      rw [List.map_cons]
      by_cases hd : d = r
      · subst hd
        simp only [if_true, List.filter_cons, hk, ih, Bool.false_eq_true, if_false]
      · simp only [hd, if_false, List.filter_cons, ih]
  · rw [hr, List.filter_nil, List.map_nil, List.append_nil, filesOf_append hb, Option.map_map]
    congr 1
    funext fs
    simp [hk]

/-! ## What depends on what -/

theorem exclusion_parents {r : Text} (hr : r ∈ exclusions) : parents r = [] := by
  have h : ∀ r ∈ exclusions, parents r = [] := by decide +kernel
  exact h r hr

/-- The name of a file that is read is safe, where the pack's files are. -/
theorem unsafePath_read {m s : Bool} {l : List (Text × Bytes)} {r : Text} {b : Bytes} (h : safeFiles t p m s = some l)
    (hp : p.hasLink = false) (hr : p.read r = some b) : unsafePath t r = false := by
  simp only [safeFiles, Option.bind_eq_bind, Option.bind_eq_some_iff, Option.guard_eq_some', exists_const] at h
  obtain ⟨-, -, fs, hfs, -⟩ := h
  obtain ⟨n, hn⟩ := (Pack.read_iff hp).mp hr
  exact filesOf_bad hfs hn

theorem ungoverned_exclusion {r : Text} (hr : r ∈ exclusions) (h : unsafePath t r = false) : ungoverned t r = false := by
  simp only [unsafePath, Bool.or_eq_false_iff] at h
  have hs : ∀ r ∈ exclusions, (r.splitOn slash).any (· = text "..") = false := by decide +kernel
  simp only [ungoverned, h.1.1.1, h.1.2, hs r hr]
  rfl

theorem safeFiles_eq (m s : Bool) : safeFiles t p m s = (guard p.isDirectory >>= fun _ =>
    guard (s = true → p.resolved ∧ p.hasLink = false) >>= fun _ =>
    ((filesOf (unsafePath t) p.entries).map (List.filter fun x => m || x.1 ≠ manifestFile)).bind fun fs =>
      guard (fs.map (·.1)).Nodup >>= fun _ => guard (fs.all fun x => x.1.all isScalar) >>= fun _ => some (sortFiles fs)) := by
  simp only [safeFiles, Option.bind_eq_bind, Option.bind_map]
  rfl

/-- The files listed without the manifest are those of the pack with another manifest. -/
theorem safeFiles_manifest {c : Bytes} (hu : unsafePath t manifestFile = false) (h : p.write manifestFile c = some q) :
    safeFiles t q false false = safeFiles t p false false := by
  obtain ⟨l, hl, he, -, hd, -⟩ := Pack.write_eq h
  have hfiles := @filesOf_put (unsafePath t) _ _ _ _ hu (exclusion_parents (by decide)) hl (fun m => false || m.1 ≠ manifestFile) (by simp)
  rw [safeFiles_eq, safeFiles_eq, he, hfiles, hd]
  simp

theorem manifestOf_manifest {c : Bytes} (hu : unsafePath t manifestFile = false)
    (h : p.write manifestFile c = some q) : manifestOf t q = manifestOf t p := by
  rw [manifestOf, manifestOf, safeFiles_manifest hu h]

theorem governedFiles_eq : governedFiles t p = (guard p.isDirectory >>= fun _ =>
    ((filesOf (ungoverned t) p.entries).map (List.filter fun x => x.1 ∉ exclusions)).bind fun fs =>
      guard (fs.all fun x => x.1.all isScalar) >>= fun _ => some (sortFiles fs)) := by
  simp only [governedFiles, Option.bind_eq_bind, Option.bind_map]
  rfl

/-- The governed root does not depend on a file of the exclusion registry. -/
theorem governedRecord_exclusion {r : Text} {c : Bytes} (hr : r ∈ exclusions) (hu : unsafePath t r = false)
    (hp : p.hasLink = false) (h : p.write r c = some q) : governedRecord t q = governedRecord t p := by
  obtain ⟨l, hl, he, -, hd, -⟩ := Pack.write_eq h
  have hfiles := @filesOf_put (ungoverned t) _ _ _ _ (ungoverned_exclusion hr hu) (exclusion_parents hr) hl (fun m => m.1 ∉ exclusions) (fun c => by simpa using hr)
  have hg : governedFiles t q = governedFiles t p := by rw [governedFiles_eq, governedFiles_eq, he, hfiles, hd]
  have hne : exclusionRegistry ≠ r := by
    have h : ∀ r ∈ exclusions, exclusionRegistry ≠ r := by decide +kernel
    exact h r hr
  have hr : registryOk q = registryOk p := by rw [registryOk, registryOk, (Pack.write_read hp h).2.2 _ hne]
  rw [governedRecord, governedRecord, hg, hr]

/-- Overwriting a file leaves the files safe. -/
theorem safeFiles_overwrite {r : Text} {b c : Bytes} {m s : Bool} {l : List (Text × Bytes)} (hp : p.hasLink = false)
    (hr : p.read r = some b) (h : p.write r c = some q) (hl : safeFiles t p m s = some l) : (safeFiles t q m s).isSome := by
  obtain ⟨n, hn⟩ := (Pack.read_iff hp).mp hr
  have hq := (Pack.write_read hp h).1
  obtain ⟨k, hk, he, -, hd, hres, -⟩ := Pack.write_eq h
  obtain ⟨-, ⟨x, y, -, rfl⟩ | ⟨hnone, -⟩⟩ := put_cases hk
  · simp only [safeFiles, Option.bind_eq_bind, Option.bind_eq_some_iff, Option.guard_eq_some', exists_const] at hl
    obtain ⟨h1, h2, fs, h3, h4, h5, -⟩ := hl
    have hname : ∀ m : Text × Bytes, (if m.1 = r then (m.1, c) else m).1 = m.1 := fun m => by split_ifs <;> rfl
    have hfilter : ∀ fs : List (Text × Bytes), (fs.map fun x => if x.1 = r then (x.1, c) else x).filter
        (fun x => m || x.1 ≠ manifestFile) =
          (fs.filter fun x => m || x.1 ≠ manifestFile).map fun x => if x.1 = r then (x.1, c) else x := by
      intro fs
      rw [List.filter_map]
      simp only [Function.comp_def, hname]
    have hmap : ∀ fs : List (Text × Bytes), (fs.map fun x => if x.1 = r then (x.1, c) else x).map (·.1) = fs.map (·.1) := by
      intro fs
      rw [List.map_map]
      exact List.map_congr_left fun x _ => hname x
    rw [Option.isSome_iff_exists]
    refine ⟨sortFiles ((fs.map fun x => if x.1 = r then (x.1, c) else x).filter fun x => m || x.1 ≠ manifestFile), ?_⟩
    simp only [safeFiles, Option.bind_eq_bind, Option.bind_eq_some_iff, Option.guard_eq_some', exists_const]
    refine ⟨by rw [hd]; exact h1, fun hs => ⟨by rw [hres]; exact (h2 hs).1, hq⟩, _,
      by rw [he, filesOf_overwrite, h3, Option.map_some], ?_, ?_, rfl⟩
    · rw [hfilter, hmap]
      exact h4
    · rw [hfilter, List.all_map]
      simp only [Function.comp_def, hname]
      exact h5
  · rw [Pack.mem_entries, hnone] at hn
    cases hn

/-- A new file with a safe name leaves the files safe. -/
theorem safeFiles_new {r : Text} {c : Bytes} {s : Bool} {l : List (Text × Bytes)} (hu : unsafePath t r = false)
    (hr : parents r = []) (hc : r.all isScalar) (hnone : p.entries.lookup r = none) (hp : p.hasLink = false)
    (h : p.write r c = some q) (hl : safeFiles t p true s = some l) : (safeFiles t q true s).isSome := by
  have hq := (Pack.write_read hp h).1
  obtain ⟨k, hk, he, -, hd, hres, -⟩ := Pack.write_eq h
  obtain ⟨-, ⟨x, y, hsome, -⟩ | ⟨-, rfl⟩⟩ := put_cases hk
  · rw [hnone] at hsome
    cases hsome
  simp only [safeFiles, Option.bind_eq_bind, Option.bind_eq_some_iff, Option.guard_eq_some', exists_const, Bool.true_or,
    List.filter_true] at hl
  obtain ⟨h1, h2, fs, h3, h4, h5, -⟩ := hl
  have hfiles : filesOf (unsafePath t) q.entries = some (fs ++ [(r, c)]) := by
    rw [he, hr, List.filter_nil, List.map_nil, List.append_nil, filesOf_append hu, h3]
    rfl
  have hnew : r ∉ fs.map (·.1) := fun hm => lookup_none.mp hnone ((filesOf_mem h3).2.subset hm)
  rw [Option.isSome_iff_exists]
  refine ⟨sortFiles (fs ++ [(r, c)]), ?_⟩
  simp only [safeFiles, Option.bind_eq_bind, Option.bind_eq_some_iff, Option.guard_eq_some', exists_const, Bool.true_or,
    List.filter_true]
  refine ⟨by rw [hd]; exact h1, fun hs => ⟨by rw [hres]; exact (h2 hs).1, hq⟩, _, hfiles, ?_, ?_, rfl⟩
  · rw [List.map_append]
    refine List.nodup_append.mpr ⟨h4, List.nodup_singleton r, ?_⟩
    rintro d hm e he rfl
    have hdr : d = r := List.mem_singleton.mp he
    exact hnew (hdr ▸ hm)
  · simp [List.all_append, h5, hc]

theorem manifestOf_isSome {s : Bool} {l : List (Text × Bytes)} (h : safeFiles t p true s = some l) :
    ∃ b, manifestOf t p = some b := by
  simp only [safeFiles, Option.bind_eq_bind, Option.bind_eq_some_iff, Option.guard_eq_some', exists_const, Bool.true_or,
    List.filter_true] at h
  obtain ⟨h1, -, fs, h3, h4, h5, -⟩ := h
  have hs : safeFiles t p false false = some (sortFiles (fs.filter fun m => false || m.1 ≠ manifestFile)) := by
    simp only [safeFiles, Option.bind_eq_bind, Option.bind_eq_some_iff, Option.guard_eq_some', exists_const]
    refine ⟨h1, (fun h => by cases h), fs, h3, (List.filter_sublist.map _).nodup h4, ?_, rfl⟩
    exact List.all_eq_true.mpr fun m hm => List.all_eq_true.mp h5 m (List.mem_of_mem_filter hm)
  rw [manifestOf, hs]
  exact ⟨_, rfl⟩

/-! ## The attestation -/

/-- An attestation names each of its members once. -/
theorem attestation_eq (h : attestation t now p z receipt = some a) :
    ∃ version common, versionFields t p receipt = some version ∧ commonFields t now p z receipt = some common ∧
      a = record (version ++ common) ∧ ((version ++ common).map (·.1)).Nodup := by
  simp only [attestation, Option.bind_eq_bind, Option.bind_eq_some_iff] at h
  obtain ⟨version, hv, common, hc, h⟩ := h
  refine ⟨version, common, hv, hc, (Option.some.inj h).symm, ?_⟩
  simp only [commonFields, Option.bind_eq_bind, Option.bind_eq_some_iff, Option.some.injEq] at hc
  obtain ⟨m, -, d, -, x, -, s, -, j, -, k, -, c, -, rfl⟩ := hc
  unfold versionFields at hv
  split_ifs at hv
  · simp only [Option.bind_eq_bind, Option.bind_eq_some_iff, Option.some.injEq] at hv
    obtain ⟨x1, -, x2, -, x3, -, x4, -, x5, -, rfl⟩ := hv
    simp
  · simp only [Option.bind_eq_bind, Option.bind_eq_some_iff, Option.some.injEq] at hv
    obtain ⟨x1, -, x2, -, x3, -, x4, -, rfl⟩ := hv
    simp

/-- What an attestation says of the files in the pack. -/
theorem attestation_get (h : attestation t now p z receipt = some a) :
    ∃ m g d x s j, p.read manifestFile = some m ∧ p.read governedRootFile = some g ∧ readObject g = some d ∧
      get d "root_sha256" = some x ∧ p.read reviewMarkdown = some s ∧ p.read reviewJson = some j ∧
      get a "manifest_sha256" = some (.str (hexdigest t m)) ∧ get a "governed_content_root" = some x ∧
      get a "self_review_markdown_sha256" = some (.str (hexdigest t s)) ∧
      get a "self_review_json_sha256" = some (.str (hexdigest t j)) := by
  obtain ⟨version, common, -, hc, rfl, hn⟩ := attestation_eq h
  have hget : ∀ {k : String} {v : Doc}, (k, v) ∈ common → get (record (version ++ common)) k = some v := by
    intro k v hm
    obtain ⟨m, hr, hk⟩ := lookup_record hn (List.mem_append_right _ hm)
    rw [hr]
    exact hk
  simp only [commonFields, Option.bind_eq_bind, Option.bind_eq_some_iff, Option.some.injEq] at hc
  obtain ⟨m, hm, d, ⟨g, hg, hd⟩, x, hx, s, hs, j, hj, k, -, c, -, rfl⟩ := hc
  refine ⟨m, g, d, x, s, j, hm, hg, hd, hx, hs, hj, hget ?_, hget ?_, hget ?_, hget ?_⟩ <;> simp

theorem get_setCreatedAt {d v : Doc} {k : String} (hk : k ≠ "created_at") : get (setCreatedAt d v) k = get d k := by
  have hne : text k ≠ text "created_at" := fun h => hk (text_inj h)
  cases d with
  | obj l =>
    show (l.map _).lookup (text k) = l.lookup (text k)
    induction l with
    | nil => rfl
    | cons m l ih =>
      obtain ⟨n, x⟩ := m
      rw [List.map_cons]
      by_cases hn : text k = n
      · subst hn
        simp [hne]
      · have hb : (text k == n) = false := by simpa using hn
        split_ifs <;> simp only [List.lookup_cons, hb, ih]
  | _ => rfl

/-- The fields with another date. -/
def dated (now : Text) (l : List (String × Doc)) : List (String × Doc) :=
  l.map fun m => if m.1 = "created_at" then (m.1, .str now) else m

theorem setCreatedAt_record (l : List (String × Doc)) : setCreatedAt (record l) (.str now) = record (dated now l) := by
  show Value.obj ((dict _).map _) = Value.obj (dict _)
  rw [← dict_map fun m => by split_ifs <;> rfl, dated, List.map_map, List.map_map]
  congr 2
  refine List.map_congr_left fun m _ => ?_
  by_cases hm : m.1 = "created_at" <;> simp [hm, text_eq_iff]

theorem commonFields_date (now' : Text) {l : List (String × Doc)} (h : commonFields t now p z receipt = some l) :
    commonFields t now' p z receipt = some (dated now' l) ∧ dated now l = l := by
  simp only [commonFields, Option.bind_eq_bind, Option.bind_eq_some_iff, Option.some.injEq] at h
  obtain ⟨m, hm, d, hd, x, hx, s, hs, j, hj, k, hk, c, hc, rfl⟩ := h
  have hd := Option.bind_eq_some_iff.mpr hd
  refine ⟨?_, by simp [dated]⟩
  simp only [commonFields, hm, hd, hx, hs, hj, hk, hc, Option.bind_eq_bind, Option.bind_some]
  simp [dated]

theorem versionFields_date {l : List (String × Doc)} (h : versionFields t p receipt = some l) : dated now l = l := by
  unfold versionFields at h
  split_ifs at h
  · simp only [Option.bind_eq_bind, Option.bind_eq_some_iff, Option.some.injEq] at h
    obtain ⟨x1, -, x2, -, x3, -, x4, -, x5, -, rfl⟩ := h
    simp [dated]
  · simp only [Option.bind_eq_bind, Option.bind_eq_some_iff, Option.some.injEq] at h
    obtain ⟨x1, -, x2, -, x3, -, x4, -, rfl⟩ := h
    simp [dated]

/-- Sealed at another time, the same pack is attested with another date. -/
theorem attestation_date (now' : Text) (h : attestation t now p z receipt = some a) :
    ∃ b, attestation t now' p z receipt = some b ∧ setCreatedAt b (.str now) = a := by
  obtain ⟨version, common, hv, hc, rfl, -⟩ := attestation_eq h
  obtain ⟨hc', hsame⟩ := commonFields_date now' hc
  refine ⟨record (version ++ dated now' common), ?_, ?_⟩
  · simp only [attestation, hv, hc', Option.bind_eq_bind, Option.bind_some]
  · have htwice : dated now (dated now' common) = dated now common := by
      rw [dated, dated, dated, List.map_map]
      refine List.map_congr_left fun m _ => ?_
      by_cases hm : m.1 = "created_at" <;> simp [hm]
    rw [setCreatedAt_record, dated, List.map_append]
    show record (dated now version ++ dated now (dated now' common)) = _
    rw [versionFields_date hv, htwice, hsame]

/-! ## The archive -/

/-- An archive out of the pack is one of the pack's files. -/
theorem writeZip_outside {flushed : Bytes} {x : Target} {id : Text} (hx : x.place = .outside id) :
    writeZip t flushed w x = some w' ↔ x.relative = false ∧ ∃ files, safeFiles t w.pack true false = some files ∧
      w' = ⟨w.pack, Function.update w.outside id (some (t.zip files))⟩ := by
  have hmap : ∀ l : List (Text × Bytes), (l.map fun m => if Place.outside id = .inside m.1 then (m.1, flushed) else m) = l :=
    fun l => List.map_id'' (fun m => if_neg nofun) l
  simp only [writeZip, hx, World.write, Option.bind_eq_bind, Option.bind_eq_some_iff, Option.guard_eq_some', exists_const,
    Option.some.injEq, exists_eq_left', hmap, Function.update_idem]
  constructor
  · rintro ⟨h1, l, h2, rfl⟩
    exact ⟨h1, l, h2, rfl⟩
  · rintro ⟨h1, l, h2, rfl⟩
    exact ⟨h1, l, h2, rfl⟩

/-! ## Outputs out of the pack -/

variable [DecidableEq κ] {flushed : Bytes} {context : Option κ} {i j k : Text}

/-- The disk once the archive `z` and its sidecar are written. -/
def archived (t : Tools κ) (f : Text → Option Bytes) (o : Outputs) (i j : Text) (final : Pack) (z : Bytes) : World :=
  ⟨final, Function.update (Function.update f i (some z)) j (some (encode (sidecarText t z o.zip.name)))⟩

/-- A seal with its archive and sidecar out of the pack, step by step. -/
theorem seal_iff (hz : o.zip.place = .outside i) (hs : o.sidecar.place = .outside j) (hij : i ≠ j) :
    sealReviewPack t now flushed w o context = some (w', a) ↔
    (o.targets.map (·.resolved)).Nodup ∧ (context.isSome → externalPaths o) ∧ o.zip.relative = false ∧
      o.zip.name.all isScalar ∧ ∃ receipt final files, validateInputs t w.pack context = some receipt ∧
        writeManifest t w.pack = some final ∧ safeFiles t final true false = some files ∧
        attestation t now final (t.zip files) receipt = some a ∧
        (archived t w.outside o i j final (t.zip files)).write o.attestation.place (line a) = some w' := by
  have hread : ∀ (p : Pack) (z : Bytes), (archived t w.outside o i j p z).read o.zip.place = some z := by
    intro p z
    rw [hz]
    show Function.update (Function.update _ _ _) _ _ i = _
    rw [Function.update_of_ne hij, Function.update_self]
  simp only [sealReviewPack, Option.bind_eq_bind, Option.bind_eq_some_iff, Option.guard_eq_some', exists_const,
    writeZip_outside hz]
  constructor
  · rintro ⟨h1, h2, receipt, h3, final, h4, w₁, ⟨h5, files, h6, rfl⟩, z, h7, h8, w₂, h9, z', h10, r, h11, w₃, h12, h13⟩
    cases h13
    have hzip : z = t.zip files := by
      rw [hz] at h7
      have : Function.update w.outside i (some (t.zip files)) i = some z := h7
      rw [Function.update_self] at this
      exact (Option.some.inj this).symm
    subst hzip
    rw [hs] at h9
    have hw₂ : w₂ = archived t w.outside o i j final (t.zip files) := (Option.some.inj h9).symm
    subst hw₂
    rw [hread] at h10
    cases h10
    exact ⟨h1, h2, h5, h8, receipt, final, files, h3, h4, h6, h11, h12⟩
  · rintro ⟨h1, h2, h5, h8, receipt, final, files, h3, h4, h6, h11, h12⟩
    refine ⟨h1, h2, receipt, h3, final, h4, _, ⟨h5, files, h6, rfl⟩, t.zip files, ?_, h8,
      archived t w.outside o i j final (t.zip files), ?_, t.zip files, hread _ _, a, h11, w', h12, rfl⟩
    · rw [hz]
      exact Function.update_self _ _ _
    · rw [hs]
      rfl

/-- Three files out of the pack. -/
structure Outputs.Kept (o : Outputs) (i j k : Text) : Prop where
  zip : o.zip.place = .outside i
  sidecar : o.sidecar.place = .outside j
  attestation : o.attestation.place = .outside k
  distinct : i ≠ j ∧ i ≠ k ∧ j ≠ k

/-- The disk once the archive `z` and its attestation are written. -/
def sealedWorld (t : Tools κ) (f : Text → Option Bytes) (o : Outputs) (i j k : Text) (final : Pack) (z : Bytes) (a : Doc) :
    World :=
  ⟨final, Function.update (archived t f o i j final z).outside k (some (line a))⟩

omit [DecidableEq κ] in
theorem sealedWorld_read {f : Text → Option Bytes} (hk : o.Kept i j k) :
    (sealedWorld t f o i j k p z a).read o.zip.place = some z ∧
    (sealedWorld t f o i j k p z a).read o.sidecar.place = some (encode (sidecarText t z o.zip.name)) ∧
    (sealedWorld t f o i j k p z a).read o.attestation.place = some (line a) := by
  obtain ⟨hij, hik, hjk⟩ := hk.distinct
  rw [hk.zip, hk.sidecar, hk.attestation]
  refine ⟨?_, ?_, ?_⟩
  · show Function.update (Function.update _ _ _) _ _ i = _
    rw [Function.update_of_ne hik]
    show Function.update (Function.update _ _ _) _ _ i = _
    rw [Function.update_of_ne hij, Function.update_self]
  · show Function.update (Function.update _ _ _) _ _ j = _
    rw [Function.update_of_ne hjk]
    exact Function.update_self _ _ _
  · exact Function.update_self _ _ _

/-- A seal with its outputs out of the pack, step by step. -/
theorem seal_outside_iff (hk : o.Kept i j k) : sealReviewPack t now flushed w o context = some (w', a) ↔
    (o.targets.map (·.resolved)).Nodup ∧ (context.isSome → externalPaths o) ∧ o.zip.relative = false ∧
      o.zip.name.all isScalar ∧ ∃ receipt final files, validateInputs t w.pack context = some receipt ∧
        writeManifest t w.pack = some final ∧ safeFiles t final true false = some files ∧
        attestation t now final (t.zip files) receipt = some a ∧
        w' = sealedWorld t w.outside o i j k final (t.zip files) a := by
  rw [seal_iff hk.zip hk.sidecar hk.distinct.1, hk.attestation]
  simp only [World.write, Option.some.injEq, eq_comm (a := w')]
  rfl

end BettingHelper.Seal
