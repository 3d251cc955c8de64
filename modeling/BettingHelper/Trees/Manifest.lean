/-
  BettingHelper.Trees.Manifest — the manifest is written into a pack and verified there.

  `write_pack_manifest` refuses what it can see before it writes; `_verify_pack` then reads
  the pack again, the manifest with it. The one thing the verifier asks that the writer did
  not is that the manifest lists no more than 4096 files: a pack with more of them keeps the
  manifest that was refused.
-/

import BettingHelper.Trees.Binding

namespace BettingHelper.Trees

open BettingHelper.Lib.Json BettingHelper.Seal

variable {κ : Type} (t : Tools κ)

/-! ## The writer -/

/-- What the writer asks of the receipt: its `independent_file_tree_root_sha256`. -/
def receiptHash (raw : Bytes) : Option Text :=
  match Wire.parseStrictJson (fun s => t.nfc s = s) raw with
  | .ok receipt =>
    if get receipt "schema_version" = some (str "repo0-baseline-receipt/v1") ∧
      get receipt "production_authority" = some (str "NONE") then digestText (get receipt "independent_file_tree_root_sha256")
    else none
  | .error _ => none

def manifestItem (m : Text × Bytes) : List (Text × Doc) :=
  [(text "path", .str m.1), (text "sha256", .str (hexdigest t m.2)), (text "size_bytes", .int m.2.length)]

def manifestMembers (files : List (Text × Bytes)) (baselineHash : Text) : List (Text × Doc) :=
  [(text "files", .arr (files.map fun m => .obj (manifestItem t m))), (text "implementation_baseline_hash", .str baselineHash),
    (text "pack_hash", .str (hexdigest t (treeOf t files))), (text "pack_version", str "6.2"),
    (text "production_authority", str "NONE"), (text "schema_version", str "pack-manifest/v1"),
    (text "self_excluded_path", .str manifestFile)]

/-- What `write_pack_manifest` makes before it writes: the pack hash and the manifest's bytes. The
receipt's path is relative to the pack, when it is below it. -/
def newManifest (p : Pack) (baselineReceipt : Option Text) : Option (Text × Bytes) := do
  guard (p.name = packDirectoryName && baselineReceipt = some repo0Receipt)
  guard (p.node manifestFile).isNone
  let raw ← p.read repo0Receipt
  let baselineHash ← receiptHash t raw
  let files ← sourceFiles t p
  let manifest ← jcsLine (.obj (manifestMembers t (sortFiles files) baselineHash))
  some (hexdigest t (treeOf t (sortFiles files)), manifest)

/-- `write_pack_manifest`: what it returns, if it does, and the pack as it leaves it. -/
def writePackManifest (p : Pack) (baselineReceipt : Option Text) : Option Text × Pack :=
  match newManifest t p baselineReceipt with
  | none => (none, p)
  | some (hash, manifest) =>
    match p.write manifestFile manifest with
    | none => (none, p)
    | some q =>
      match verifyPack t q with
      | none => (none, q)
      | some _ => (some hash, q)

/-- What the writer asks before it writes. -/
structure WriterAccepts (p : Pack) (baselineReceipt : Option Text) : Prop where
  name : p.name = packDirectoryName
  receipt : baselineReceipt = some repo0Receipt
  absent : p.node manifestFile = none
  accepted : ∃ raw hash, p.read repo0Receipt = some raw ∧ receiptHash t raw = some hash
  isDirectory : p.isDirectory
  visited : p.entries.all (visited (safeRelativePath t))
  sizes : ∀ m ∈ p.entries.filterMap asFile, m.2.length ≤ maxSafe

/-- Either a manifest that is accepted is all that is new, or nothing is. -/
structure Settled (p : Pack) (result : Option Text × Pack) : Prop where
  returned : ∀ hash, result.1 = some hash → packHash t result.2 = some hash ∧
    ∃ b, result.2.entries = p.entries ++ [(manifestFile, .file b 1)] ∧ result.2.name = p.name ∧
      result.2.isDirectory = p.isDirectory ∧ result.2.resolved = p.resolved ∧ result.2.beyond = p.beyond
  raised : result.1 = none → result.2 = p

/-! ## The manifest's text -/

variable {t} {files : List (Text × Bytes)} {hash : Text} {p : Pack}


theorem digestText_hex (x : BitVec 256) : digestText (some (.str (text (hex x)))) = some (text (hex x)) :=
  if_pos (Wire.hex_hex64 x)

theorem digestText_some {d : Option Doc} {s : Text} (h : digestText d = some s) : d = some (.str s) ∧ Wire.hex64 s := by
  unfold digestText at h
  split at h
  · split_ifs at h with hs
    cases h
    exact ⟨rfl, hs⟩
  · cases h

theorem declaredFile_item {m : Text × Bytes} (hs : safeRelativePath t m.1) (hm : m.1 ≠ manifestFile)
    (hsize : m.2.length ≤ maxSafe) : declaredFile t (.obj (manifestItem t m)) = some (sized t m) := by
  have hkeys : keysAre (manifestItem t m) ["path", "size_bytes", "sha256"] = true := rfl
  have hpath : (manifestItem t m).lookup (text "path") = some (.str m.1) := rfl
  have hlen : (manifestItem t m).lookup (text "size_bytes") = some (.int m.2.length) := rfl
  have hsha : digestText ((manifestItem t m).lookup (text "sha256")) = some (hexdigest t m.2) := digestText_hex _
  simp only [declaredFile, hkeys, hpath, hlen, hsha, if_true]
  rw [if_pos ⟨by omega, by omega, hs, hm⟩]
  rfl

/-- The fields of a manifest that is written are those of one that is accepted, but for the count. -/
theorem manifestFields_written (hh : Wire.hex64 hash) : manifestFields (.obj (manifestMembers t files hash)) =
    if files ≠ [] ∧ files.length ≤ 4096 then
      some (hexdigest t (treeOf t files), files.map fun m => .obj (manifestItem t m)) else none := by
  have hkeys : keysAre (manifestMembers t files hash) ["schema_version", "pack_version", "pack_hash",
      "implementation_baseline_hash", "files", "self_excluded_path", "production_authority"] = true := rfl
  have hbase : digestText ((manifestMembers t files hash).lookup (text "implementation_baseline_hash")) = some hash := if_pos hh
  have hpack : digestText ((manifestMembers t files hash).lookup (text "pack_hash")) = some (hexdigest t (treeOf t files)) :=
    digestText_hex _
  have hfiles : (manifestMembers t files hash).lookup (text "files") =
      some (.arr (files.map fun m => .obj (manifestItem t m))) := rfl
  rw [manifestFields, if_pos ⟨hkeys, rfl, rfl, rfl, rfl, by rw [hbase]; rfl⟩]
  simp only [hpack, hfiles, List.length_map, ne_eq, List.map_eq_nil_iff]

theorem item_plain {m : Text × Bytes} (hm : m.1.all isScalar) (hsize : m.2.length ≤ maxSafe) :
    Plain (.obj (manifestItem t m) : Doc) := by
  refine ⟨?_, ?_⟩
  · simp only [manifestItem, List.map]
    decide
  · have hlen : (m.2.length : Int).natAbs ≤ maxSafe := by omega
    exact ⟨text_scalar _, hm, text_scalar _, text_scalar _, text_scalar _, hlen, trivial⟩

theorem parse_line {nfc : Text → Bool} {l : List (Text × Doc)} {b : Bytes} (hp : Plain (.obj l : Doc))
    (hv : Wire.validUnicode nfc (.obj l) = true) (hb : jcsLine (.obj l) = some b) : Wire.parseStrictJson nfc b = .ok (.obj l) := by
  obtain ⟨u, hu, rfl⟩ := Option.map_eq_some_iff.mp hb
  have hbrace : ∃ w, u = '{'.toNat :: w := by
    rw [dumps] at hu
    obtain ⟨ms, -, rfl⟩ := Option.map_eq_some_iff.mp hu
    exact ⟨_, rfl⟩
  obtain ⟨w, rfl⟩ := hbrace
  have hjoin : encode ('{'.toNat :: w) ++ [0x0a] = encode ('{'.toNat :: w ++ [0x0a]) := (encode_append _ [0x0a]).symm
  have hscalar : ('{'.toNat :: w ++ [0x0a]).all isScalar := by
    rw [List.all_append, dumps_scalar _ hp hu]
    rfl
  have hbom : ¬[0xef, 0xbb, 0xbf] <+: encode ('{'.toNat :: w ++ [0x0a]) := by
    rw [show encode ('{'.toNat :: w ++ [0x0a]) = 0x7b :: encode (w ++ [0x0a]) from rfl]
    intro h
    exact absurd (List.cons_prefix_cons.mp h).1 (by decide)
  rw [hjoin, Wire.parseStrictJson, if_neg hbom, decode_encode hscalar]
  simp only [loads_dumps_blank Wire.strictHooks_keeps hp hu (show skip [0x0a] = [] from rfl), hv, if_true]

theorem members_plain (hf : ∀ m ∈ files, m.1.all isScalar ∧ m.2.length ≤ maxSafe) (hh : hash.all isScalar) :
    Plain (.obj (manifestMembers t files hash) : Doc) := by
  have hitems : PlainItems (files.map fun m => (.obj (manifestItem t m) : Doc)) := by
    refine plainItems_iff.mpr fun v hv => ?_
    obtain ⟨m, hm, rfl⟩ := List.mem_map.mp hv
    exact item_plain (hf m hm).1 (hf m hm).2
  refine ⟨?_, plainMembers_iff.mpr ?_⟩
  · simp only [manifestMembers, List.map]
    decide
  · simp only [manifestMembers, List.forall_mem_cons]
    exact ⟨⟨text_scalar _, hitems⟩, ⟨text_scalar _, hh⟩, ⟨text_scalar _, text_scalar _⟩, ⟨text_scalar _, text_scalar _⟩,
      ⟨text_scalar _, text_scalar _⟩, ⟨text_scalar _, text_scalar _⟩, ⟨text_scalar _, text_scalar _⟩, by simp⟩

theorem safePath_ascii {r : Text} (h : safeRelativePath t r) : r.all (· < 0x80) := by
  simp only [safeRelativePath, Bool.and_eq_true, List.all_eq_true] at h
  exact List.all_eq_true.mpr fun c hc => decide_eq_true (portable_char (h.1.2 c hc)).2.2

section Unicode

variable {nfc : Text → Bool}

/-- Whatever is written is ASCII. -/
theorem members_valid (hn : ∀ s : Text, s.all (· < 0x80) → nfc s = true) (hf : ∀ m ∈ files, safeRelativePath t m.1)
    (hh : Wire.hex64 hash) : Wire.validUnicode nfc (.obj (manifestMembers t files hash)) = true := by
  have hv : ∀ s : Text, s.all (· < 0x80) → Wire.validText nfc s = true := fun s hs => Wire.validText_ascii hn hs
  have hhex : ∀ x : BitVec 256, Wire.validText nfc (text (hex x)) = true := fun x => hv _ (Wire.hex64_ascii (Wire.hex_hex64 x))
  have hitem : ∀ m ∈ files, Wire.validUnicode nfc (.obj (manifestItem t m)) := by
    intro m hm
    refine Wire.validMembers_iff.mpr ?_
    simp only [manifestItem, List.forall_mem_cons]
    exact ⟨⟨hv _ (by decide), hv _ (safePath_ascii (hf m hm))⟩, ⟨hv _ (by decide), hhex _⟩, ⟨hv _ (by decide), rfl⟩, by simp⟩
  refine Wire.validMembers_iff.mpr ?_
  simp only [manifestMembers, List.forall_mem_cons]
  refine ⟨⟨hv _ (by decide), Wire.validItems_iff.mpr ?_⟩, ⟨hv _ (by decide), hv _ (Wire.hex64_ascii hh)⟩, ⟨hv _ (by decide), hhex _⟩,
    ⟨hv _ (by decide), hv _ (by decide)⟩, ⟨hv _ (by decide), hv _ (by decide)⟩, ⟨hv _ (by decide), hv _ (by decide)⟩,
    ⟨hv _ (by decide), hv _ (by decide)⟩, by simp⟩
  intro v hv
  obtain ⟨m, hm, rfl⟩ := List.mem_map.mp hv
  exact hitem m hm

end Unicode

/-- A manifest that can be written has no size past the largest safe integer. -/
theorem sizes_of_line {b : Bytes} (hb : jcsLine (.obj (manifestMembers t files hash)) = some b) :
    ∀ m ∈ files, m.2.length ≤ maxSafe := by
  obtain ⟨u, hu, -⟩ := Option.map_eq_some_iff.mp hb
  rw [dumps] at hu
  obtain ⟨ms, hms, -⟩ := Option.map_eq_some_iff.mp hu
  simp only [manifestMembers, dumpMembers, Option.bind_eq_bind, Option.bind_eq_some_iff] at hms
  obtain ⟨-, -, w, hw, -⟩ := hms
  rw [dumps] at hw
  obtain ⟨ts, hts, -⟩ := Option.map_eq_some_iff.mp hw
  clear hb hu hw
  induction files generalizing ts with
  | nil => simp
  | cons m l ih =>
    simp only [List.map_cons, dumpItems, Option.bind_eq_bind, Option.bind_eq_some_iff] at hts
    obtain ⟨x, hx, ys, hys, -⟩ := hts
    rw [List.forall_mem_cons]
    refine ⟨?_, ih ys hys⟩
    rw [dumps] at hx
    obtain ⟨ns, hns, -⟩ := Option.map_eq_some_iff.mp hx
    simp only [manifestItem, dumpMembers, dumps, Option.bind_eq_bind, Option.bind_eq_some_iff] at hns
    obtain ⟨-, -, -, -, -, ⟨-, -, -, -, -, ⟨-, -, k, hk, -⟩, -⟩, -⟩ := hns
    split_ifs at hk with hlen
    omega

/-! ## Written and verified -/

variable {baselineReceipt : Option Text}

/-- A manifest beside the files it was made of is accepted when they are not too many. -/
theorem verifyFiles_written (hn : ∀ s : Text, s.all (· < 0x80) → t.nfc s = s) {b : Bytes} (hk : (files.map (·.1)).Nodup)
    (hm : manifestFile ∉ files.map (·.1)) (hf : ∀ m ∈ files, safeRelativePath t m.1) (hh : Wire.hex64 hash) (hne : files ≠ [])
    (hb : jcsLine (.obj (manifestMembers t (sortFiles files) hash)) = some b) :
    verifyFiles t (files ++ [(manifestFile, b)]) =
      if files.length ≤ 4096 then some (hexdigest t (treeOf t (sortFiles files))) else none := by
  have hperm := sortFiles_perm files
  have hfs : ∀ m ∈ sortFiles files, safeRelativePath t m.1 := fun m hm => hf m (hperm.mem_iff.mp hm)
  have hsizes := sizes_of_line hb
  have hnew : ((files ++ [(manifestFile, b)]).map (·.1)).Nodup := by
    rw [List.map_append, List.nodup_append]
    refine ⟨hk, List.nodup_singleton _, ?_⟩
    rintro r hr s hs rfl
    obtain rfl : r = manifestFile := List.mem_singleton.mp hs
    exact hm hr
  have hlookup : ∀ {r c}, (r, c) ∈ files ++ [(manifestFile, b)] → (files ++ [(manifestFile, b)]).lookup r = some c :=
    fun h => (mem_iff_lookup hnew).mp h
  have hparse : Wire.parseStrictJson (fun s => t.nfc s = s) b = .ok (.obj (manifestMembers t (sortFiles files) hash)) :=
    parse_line (members_plain (fun m hm => ⟨(safePath_text (hfs m hm)).1, hsizes m hm⟩) (scalar_ascii (Wire.hex64_ascii hh)))
      (members_valid (fun s hs => decide_eq_true (hn s hs)) hfs hh) hb
  have hdeclared : ((sortFiles files).map fun m => (.obj (manifestItem t m) : Doc)).mapM (declaredFile t) =
      some ((sortFiles files).map (sized t)) := by
    refine Lib.mapM_map fun m hmem => declaredFile_item (hfs m hmem) ?_ (hsizes m hmem)
    intro he
    exact hm (he ▸ List.mem_map_of_mem (hperm.mem_iff.mp hmem))
  have hkeys : ((sortFiles files).map (sized t)).map (·.1) = (sortFiles files).map (·.1) := by
    rw [List.map_map]
    rfl
  have hlen : sortFiles files ≠ [] ∧ (sortFiles files).length ≤ 4096 ↔ files.length ≤ 4096 := by
    rw [hperm.length_eq]
    refine and_iff_right fun h => hne ?_
    rw [h] at hperm
    exact hperm.nil_eq.symm
  simp only [verifyFiles, hlookup (List.mem_append_right _ (List.mem_singleton_self _)), hparse, Except.toOption,
    Option.bind_eq_bind, Option.bind_some, manifestFields_written hh, hlen]
  split_ifs with hcount
  · have hsorted : (((sortFiles files).map (sized t)).map (·.1)).Pairwise fun a b => encode a ≤ encode b := by
      rw [hkeys, List.pairwise_map]
      exact sortFiles_sorted files
    have hset : (files ++ [(manifestFile, b)]).all fun m => m.1 = manifestFile || m.1 ∈ ((sortFiles files).map (sized t)).map (·.1) := by
      refine List.all_eq_true.mpr fun m hmem => ?_
      rw [hkeys, Bool.or_eq_true, decide_eq_true_eq, decide_eq_true_eq]
      rcases List.mem_append.mp hmem with hmem | hmem
      · exact .inr (List.mem_map_of_mem (hperm.mem_iff.mpr hmem))
      · rw [List.mem_singleton.mp hmem]
        exact .inl rfl
    have hall : ((sortFiles files).map (sized t)).all fun d =>
        ((files ++ [(manifestFile, b)]).lookup d.1).any fun c => (c.length, hexdigest t c) = d.2 := by
      refine List.all_eq_true.mpr fun d hd => ?_
      obtain ⟨m, hmem, rfl⟩ := List.mem_map.mp hd
      have hl : (files ++ [(manifestFile, b)]).lookup (sized t m).1 = some m.2 :=
        hlookup (List.mem_append_left _ (hperm.mem_iff.mp hmem))
      rw [hl]
      exact decide_eq_true rfl
    have hkd : (((sortFiles files).map (sized t)).map (·.1)).Nodup := by
      rw [hkeys, (hperm.map (·.1)).nodup_iff]
      exact hk
    simp only [Option.bind_some, hdeclared, guard, hkd, hb, hsorted, hset, hall, if_true, treeOf, List.flatMap_map]
    rfl
  · rfl

theorem receiptHash_hex {raw : Bytes} (h : receiptHash t raw = some hash) : Wire.hex64 hash := by
  unfold receiptHash at h
  split at h
  · split_ifs at h
    exact (digestText_some h).2
  · cases h

theorem newManifest_ok {m : Text × Bytes} (h : newManifest t p baselineReceipt = some m) :
    WriterAccepts t p baselineReceipt ∧ m.1 = hexdigest t (treeOf t (sortFiles (p.entries.filterMap asFile))) ∧
    ∃ hash, Wire.hex64 hash ∧ jcsLine (.obj (manifestMembers t (sortFiles (p.entries.filterMap asFile)) hash)) = some m.2 := by
  simp only [newManifest, sourceFiles, visit_eq, Option.bind_eq_bind, Option.bind_eq_some_iff, Option.guard_eq_some', exists_const,
    Bool.and_eq_true, decide_eq_true_eq, Option.isNone_iff_eq_none] at h
  obtain ⟨⟨hname, hreceipt⟩, habsent, raw, hraw, hash, hhash, files, ⟨⟨-, hd⟩, hfiles⟩, b, hb, hm⟩ := h
  cases hm
  split_ifs at hfiles with hv
  cases hfiles
  have hsizes := sizes_of_line hb
  exact ⟨⟨hname, hreceipt, habsent, ⟨raw, hash, hraw, hhash⟩, hd, hv, fun m hm => hsizes m ((sortFiles_perm _).mem_iff.mpr hm)⟩,
    rfl, hash, receiptHash_hex hhash, hb⟩

theorem newManifest_some (h : WriterAccepts t p baselineReceipt) : ∃ m, newManifest t p baselineReceipt = some m := by
  obtain ⟨raw, hash, hraw, hhash⟩ := h.accepted
  have hplain : Plain (.obj (manifestMembers t (sortFiles (p.entries.filterMap asFile)) hash) : Doc) := by
    refine members_plain (fun m hm => ?_) (scalar_ascii (Wire.hex64_ascii (receiptHash_hex hhash)))
    rw [(sortFiles_perm _).mem_iff] at hm
    obtain ⟨n, hn⟩ := mem_asFile.mp hm
    have := List.all_eq_true.mp h.visited _ hn
    rw [visited, Bool.and_eq_true] at this
    exact ⟨(safePath_text this.1).1, h.sizes m hm⟩
  obtain ⟨u, hu⟩ := @dumps_plain _ some _ hplain
  refine ⟨(hexdigest t (treeOf t (sortFiles (p.entries.filterMap asFile))), encode u ++ [0x0a]), ?_⟩
  simp only [newManifest, sourceFiles, visit_eq, Option.bind_eq_bind, Option.bind_eq_some_iff, Option.guard_eq_some', exists_const,
    Bool.and_eq_true, decide_eq_true_eq, Option.isNone_iff_eq_none]
  exact ⟨⟨h.name, h.receipt⟩, h.absent, raw, hraw, hash, hhash, _, ⟨⟨h.name, h.isDirectory⟩, if_pos h.visited⟩, _,
    by rw [jcsLine, hu]; rfl, rfl⟩

theorem visited_unlinked {good : Text → Bool} (h : p.entries.all (visited good)) : p.hasLink = false := by
  rw [Pack.hasLink_iff]
  rintro ⟨r, n⟩ he rfl
  exact absurd (List.all_eq_true.mp h _ he) (by simp [visited])

/-- The pack with its manifest: it is accepted when it has no more than 4096 files. -/
theorem written (hn : ∀ s : Text, s.all (· < 0x80) → t.nfc s = s) {m : Text × Bytes}
    (h : newManifest t p baselineReceipt = some m) : ∃ q, p.write manifestFile m.2 = some q ∧
      q.entries = p.entries ++ [(manifestFile, .file m.2 1)] ∧ q.name = p.name ∧ q.isDirectory = p.isDirectory ∧
      q.resolved = p.resolved ∧ q.beyond = p.beyond ∧
      packHash t q = if (p.entries.filterMap asFile).length ≤ 4096 then some m.1 else none := by
  obtain ⟨ha, hx, hash, hh, hb⟩ := newManifest_ok h
  have hnone := Pack.lookup_of_node ha.absent
  have hparents : parents manifestFile = [] := by decide
  obtain ⟨q, hq⟩ := Pack.write_new (by decide) hparents hnone m.2
  obtain ⟨l, hl, he, hname, hd, hres, hbeyond⟩ := Pack.write_eq hq
  have hentries : q.entries = p.entries ++ [(manifestFile, .file m.2 1)] := by
    have hne : manifestFile ≠ [] := by decide
    simp only [put, hnone, hparents, hne, if_false, List.any_nil, Bool.false_eq_true, List.filter_nil, List.map_nil,
      List.append_nil] at hl
    rw [he, ← Option.some.inj hl]
  refine ⟨q, hq, hentries, hname, hd, hres, hbeyond, ?_⟩
  have hfiles : q.entries.filterMap asFile = p.entries.filterMap asFile ++ [(manifestFile, m.2)] := by
    rw [hentries, List.filterMap_append]
    rfl
  have hsafe : safeRelativePath t manifestFile := by
    rw [safeRelativePath, hn _ (by decide)]
    decide
  have hvisited : q.entries.all (visited (safeRelativePath t)) := by
    rw [hentries, List.all_append, ha.visited]
    simp [visited, hsafe]
  have hgood : ∀ e ∈ p.entries.filterMap asFile, safeRelativePath t e.1 := by
    rintro ⟨r, b⟩ hm
    obtain ⟨n, hmem⟩ := mem_asFile.mp hm
    have := List.all_eq_true.mp ha.visited _ hmem
    rw [visited, Bool.and_eq_true] at this
    exact this.1
  have hkeys : manifestFile ∉ (p.entries.filterMap asFile).map (·.1) := fun hm => lookup_none.mp hnone ((asFile_keys _).subset hm)
  have hne : p.entries.filterMap asFile ≠ [] := by
    obtain ⟨raw, -, hraw, -⟩ := ha.accepted
    have := mem_asFile.mpr ((Pack.read_iff (visited_unlinked ha.visited)).mp hraw)
    exact List.ne_nil_of_mem this
  have hverify := verifyFiles_written hn asFile_nodup hkeys hgood hh hne hb
  ext x
  rw [packHash_iff, hfiles, hverify, ← hx]
  exact ⟨fun hp => hp.2.2.2, fun hp => ⟨hname.trans ha.name, hd.trans ha.isDirectory, hvisited, hp⟩⟩

theorem settled_of_count (hn : ∀ s : Text, s.all (· < 0x80) → t.nfc s = s)
    (h : WriterAccepts t p baselineReceipt → (p.entries.filterMap asFile).length ≤ 4096) :
    Settled t p (writePackManifest t p baselineReceipt) := by
  rw [writePackManifest]
  cases hm : newManifest t p baselineReceipt with
  | none => exact ⟨fun hash h => (nomatch h), fun _ => rfl⟩
  | some m =>
    obtain ⟨q, hq, he, hname, hd, hres, hbeyond, hp⟩ := written hn hm
    rw [if_pos (h (newManifest_ok hm).1)] at hp
    obtain ⟨v, hv, -⟩ := Option.map_eq_some_iff.mp hp
    simp only [hq, hv]
    refine ⟨?_, fun h => (nomatch h)⟩
    rintro hash ⟨⟩
    exact ⟨hp, m.2, he, hname, hd, hres, hbeyond⟩

/-- With one file too many the manifest refused is still there. -/
theorem count_of_settled (hn : ∀ s : Text, s.all (· < 0x80) → t.nfc s = s) (ha : WriterAccepts t p baselineReceipt)
    (h : Settled t p (writePackManifest t p baselineReceipt)) : (p.entries.filterMap asFile).length ≤ 4096 := by
  by_contra hcount
  obtain ⟨m, hm⟩ := newManifest_some ha
  obtain ⟨q, hq, he, -, -, -, -, hp⟩ := written hn hm
  rw [if_neg hcount, packHash, Option.map_eq_none_iff] at hp
  have hout : writePackManifest t p baselineReceipt = (none, q) := by
    rw [writePackManifest, hm]
    simp only [hq, hp]
  rw [hout] at h
  have hlen := congrArg (fun o : Pack => o.entries.length) (h.raised rfl)
  rw [he, List.length_append] at hlen
  simp at hlen

/-- What the writer lets through is returned, if it is not too much. -/
theorem returns_of_count (hn : ∀ s : Text, s.all (· < 0x80) → t.nfc s = s) (ha : WriterAccepts t p baselineReceipt)
    (h : (p.entries.filterMap asFile).length ≤ 4096) : (writePackManifest t p baselineReceipt).1.isSome := by
  obtain ⟨m, hm⟩ := newManifest_some ha
  obtain ⟨q, hq, -, -, -, -, -, hp⟩ := written hn hm
  rw [if_pos h, packHash] at hp
  obtain ⟨v, hv, -⟩ := Option.map_eq_some_iff.mp hp
  rw [writePackManifest, hm]
  simp only [hq, hv]
  rfl

theorem writePackManifest_settled_iff (t : Tools κ) (hn : ∀ s : Text, s.all (· < 0x80) → t.nfc s = s) (p : Pack)
    (baselineReceipt : Option Text) : Settled t p (writePackManifest t p baselineReceipt) ↔
      (WriterAccepts t p baselineReceipt → (p.entries.filterMap asFile).length ≤ 4096) :=
  ⟨fun h ha => count_of_settled hn ha h, settled_of_count hn⟩

/-! ### Packs of any size -/

def packReceiptMembers : List (Text × Doc) :=
  [(text "independent_file_tree_root_sha256", smallHash 'a' 64), (text "production_authority", str "NONE"),
    (text "schema_version", str "repo0-baseline-receipt/v1")]

def packReceipt : Bytes := Doc.bytes (.obj packReceiptMembers)

theorem packReceipt_hash : receiptHash smallTools packReceipt = some (List.replicate 64 'a'.toNat) := by
  have ha : Ascii (.obj packReceiptMembers : Doc) := by
    simp only [Ascii, packReceiptMembers, AsciiMembers, smallHash, str]
    decide
  have ho : Ordered (.obj packReceiptMembers : Doc) := by
    refine ⟨dict_eq ?_, ?_⟩
    · simp only [packReceiptMembers, List.map]
      decide
    · simp [packReceiptMembers, OrderedMembers, Ordered, smallHash, str]
  have hp := @Wire.parseStrictJson_bytes (fun s => smallTools.nfc s = s) (fun _ _ => decide_eq_true rfl) _ ha ho
  have hhash : digestText (packReceiptMembers.lookup (text "independent_file_tree_root_sha256")) =
      some (List.replicate 64 'a'.toNat) := rfl
  rw [receiptHash, packReceipt, hp]
  exact (if_pos ⟨rfl, rfl⟩).trans hhash

def numbered (i : Nat) : Text × Node := ('f'.toNat :: decimal i, .file [] 1)

def crowdedEntries (n : Nat) : List (Text × Node) :=
  [(text "docs", .directory), (text "docs/receipts", .directory), (repo0Receipt, .file packReceipt 1)] ++ (List.range n).map numbered

theorem numbered_not_mem (n : Nat) {r : Text} {c : Nat} {s : Text} (hr : r = c :: s) (hc : c ≠ 'f'.toNat) :
    r ∉ ((List.range n).map numbered).map (·.1) := by
  intro h
  rw [List.map_map, List.mem_map] at h
  obtain ⟨i, -, hi⟩ := h
  rw [hr] at hi
  exact hc (List.cons.inj hi).1.symm

theorem crowded_distinct (n : Nat) : ((crowdedEntries n).map (·.1)).Nodup := by
  rw [crowdedEntries, List.map_append, List.nodup_append]
  refine ⟨by decide, ?_, ?_⟩
  · rw [List.map_map]
    refine List.Nodup.map (fun i j h => ?_) List.nodup_range
    have := congrArg Wire.integer (List.cons.inj h).2
    rwa [Wire.integer_decimal, Wire.integer_decimal] at this
  · rintro r hr s hs rfl
    have hhead : ∀ r ∈ [text "docs", text "docs/receipts", repo0Receipt], ∃ u, r = 'd'.toNat :: u := by
      simp only [List.forall_mem_cons]
      exact ⟨⟨_, rfl⟩, ⟨_, rfl⟩, ⟨_, rfl⟩, by simp⟩
    obtain ⟨u, hu⟩ := hhead r hr
    exact numbered_not_mem n hu (by decide) hs

/-- A pack with a receipt and `n` empty files. -/
def crowded (n : Nat) : Pack where
  name := packDirectoryName
  decoded := by decide
  isDirectory := true
  resolved := true
  entries := crowdedEntries n
  distinct := crowded_distinct n
  beyond := fun _ => none
  unlinked := fun _ _ => rfl

theorem crowded_files (n : Nat) : ((crowded n).entries.filterMap asFile).length = n + 1 := by
  show ((crowdedEntries n).filterMap asFile).length = n + 1
  rw [crowdedEntries, List.filterMap_append, List.filterMap_map]
  have hall : (List.range n).filterMap (asFile ∘ numbered) = (List.range n).map fun i : Nat => ('f'.toNat :: decimal i, []) := by
    rw [← List.filterMap_eq_map]
    rfl
  rw [hall, List.length_append, List.length_map, List.length_range]
  exact Nat.add_comm 1 n

theorem numbered_safe (i : Nat) : safeRelativePath smallTools ('f'.toNat :: decimal i) := by
  have hdigit : ∀ c ∈ decimal (i : Int), isDigit c = true := by
    intro c hc
    rw [Wire.decimal_nat, List.mem_map] at hc
    obtain ⟨d, hd, rfl⟩ := hc
    have := Nat.isDigit_of_mem_toDigits (by decide) (by decide) hd
    simp only [Char.isDigit, Bool.and_eq_true, decide_eq_true_eq, UInt32.le_iff_toNat_le] at this
    simp only [isDigit, Bool.and_eq_true, decide_eq_true_eq]
    exact this
  have hparts : parts ('f'.toNat :: decimal i) = ['f'.toNat :: decimal i] := by
    refine List.splitOn_eq_singleton fun h => ?_
    rcases List.mem_cons.mp h with h | h
    · exact absurd h (by decide)
    · exact absurd (hdigit _ h) (by decide)
  simp only [safeRelativePath, hparts, Bool.and_eq_true]
  refine ⟨⟨decide_eq_true rfl, List.all_eq_true.mpr fun c hc => ?_⟩, ?_⟩
  · rcases List.mem_cons.mp hc with rfl | hc
    · rfl
    · simp [portableChar, hdigit c hc]
  · simp [text]

theorem crowded_accepts (n : Nat) : WriterAccepts smallTools (crowded n) (some repo0Receipt) where
  name := rfl
  receipt := rfl
  absent := by
    have hnone : (crowdedEntries n).lookup manifestFile = none := by
      rw [lookup_none, crowdedEntries, List.map_append, List.mem_append, not_or]
      exact ⟨by decide, numbered_not_mem n rfl (by decide)⟩
    rw [Pack.node, show (crowded n).entries.lookup manifestFile = none from hnone]
    rfl
  accepted := by
    have hlookup : (crowdedEntries n).lookup repo0Receipt = some (.file packReceipt 1) := by
      rw [crowdedEntries, List.lookup_append]
      rfl
    have hread : (crowded n).read repo0Receipt = some packReceipt := by
      rw [Pack.read, Pack.node, show (crowded n).entries.lookup repo0Receipt = some (.file packReceipt 1) from hlookup]
    exact ⟨_, _, hread, packReceipt_hash⟩
  isDirectory := rfl
  visited := by
    show (crowdedEntries n).all _ = true
    rw [crowdedEntries, List.all_append, Bool.and_eq_true]
    refine ⟨by decide +kernel, List.all_eq_true.mpr fun e he => ?_⟩
    obtain ⟨i, -, rfl⟩ := List.mem_map.mp he
    rw [numbered, visited, numbered_safe]
    rfl
  sizes := by
    intro m hm
    obtain ⟨k, hk⟩ := mem_asFile.mp (show (m.1, m.2) ∈ _ from hm)
    rcases List.mem_append.mp hk with hk | hk
    · have hlen : packReceipt.length ≤ maxSafe := by decide +kernel
      simp only [List.mem_cons, List.not_mem_nil, or_false, Prod.mk.injEq, Node.file.injEq, reduceCtorEq, and_false,
        false_or] at hk
      rw [hk.2.1]
      exact hlen
    · obtain ⟨i, -, hi⟩ := List.mem_map.mp hk
      have hnil : [] = m.2 := (Node.file.inj (Prod.mk.inj hi).2).1
      rw [← hnil]
      exact Nat.zero_le _

theorem crowded_unsettled {n : Nat} (h : 4096 ≤ n) :
    ¬Settled smallTools (crowded n) (writePackManifest smallTools (crowded n) (some repo0Receipt)) := by
  intro hs
  have := count_of_settled (fun _ _ => rfl) (crowded_accepts n) hs
  rw [crowded_files] at this
  omega

/-- One file more than the verifier takes, the receipt counted. -/
theorem writePackManifest_crowded :
    ¬Settled smallTools (crowded 4096) (writePackManifest smallTools (crowded 4096) (some repo0Receipt)) :=
  crowded_unsettled (Nat.le_refl _)

theorem writePackManifest_single :
    Settled smallTools (crowded 0) (writePackManifest smallTools (crowded 0) (some repo0Receipt)) ∧
    (writePackManifest smallTools (crowded 0) (some repo0Receipt)).1.isSome := by
  have hcount : ((crowded 0).entries.filterMap asFile).length ≤ 4096 := by
    rw [crowded_files]
    omega
  exact ⟨(writePackManifest_settled_iff smallTools (fun _ _ => rfl) (crowded 0) (some repo0Receipt)).mpr fun _ => hcount,
    returns_of_count (fun _ _ => rfl) (crowded_accepts 0) hcount⟩

end BettingHelper.Trees
