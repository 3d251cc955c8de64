/-
  BettingHelper.Seal.Reverify — a baseline's pack, sealed and then verified.

  The sealer takes the governed root, the directory and the names of the outputs as it finds
  them. The verifier computes the root again, wants a directory without links, and seals a
  copy of the pack next to outputs of the same names.

  Proved: `reverified_iff`. With the archive and the sidecar out of the pack, what was sealed
  is verified exactly when the pack and the names are `Verifiable`.
-/

import BettingHelper.Seal.Accepted

namespace BettingHelper.Seal

open BettingHelper.Lib.Json

variable {κ : Type} {t : Tools κ} {w w' : World} {o : Outputs} {p q : Pack} {z : Bytes} {a receipt : Doc}
  {now now' : Text}

/-! ## Reading the attestation back -/

/-- What `datetime.now(UTC).isoformat()` returns, with a `Z`. -/
structure IsNow (t : Tools κ) (now : Text) : Prop where
  ascii : now.all (· < 0x80)
  iso : t.isIsoFormat (.str now)

theorem readObject_line {l : List (Text × Doc)} (hl : Flat l) : readObject (line (.obj l)) = some (.obj l) := by
  have hs : (asciiDumps (.obj l) ++ ['\n'.toNat]).all isScalar := by
    rw [List.all_append, ascii_scalar hl]
    rfl
  have hread : readDoc (line (.obj l)) = some (.obj l) := by
    rw [line, readDoc, decode_encode hs]
    show (loads (plainHooks ()) (asciiDumps (.obj l) ++ ['\n'.toNat])).toOption = _
    rw [loads_ascii hl rfl]
    rfl
  rw [readObject, hread]

theorem record_flat {l : List (String × Doc)} (hn : ∀ m ∈ l, (text m.1).all (· < 0x80))
    (hv : ∀ m ∈ l, Simple m.2) : Flat (dict (l.map fun m => (text m.1, m.2))) := by
  have hmem : ∀ m ∈ dict (l.map fun m => (text m.1, m.2)), ∃ x ∈ l, m = (text x.1, x.2) := by
    intro m hm
    obtain ⟨x, hx, rfl⟩ := List.mem_map.mp (dict_mem hm)
    exact ⟨x, hx, rfl⟩
  refine ⟨dict_sorted fun m hm => ?_, fun m hm => ?_, fun m hm => ?_⟩
  · obtain ⟨x, hx, rfl⟩ := List.mem_map.mp hm
    refine List.all_eq_true.mpr fun c hc => ?_
    have := of_decide_eq_true (List.all_eq_true.mp (hn x hx) c hc)
    simp [isScalar]
    omega
  · obtain ⟨x, hx, rfl⟩ := hmem m hm
    exact hn x hx
  · obtain ⟨x, hx, rfl⟩ := hmem m hm
    exact hv x hx

theorem simple_str (s : String) (hs : (text s).all (· < 0x80)) : Simple (str s) := paired_ascii hs

theorem hexdigest_digits (b : Bytes) : (hexdigest t b).all isHexDigit := by
  have hd : ∀ n < 16, isHexDigit (Nat.digitChar n).toNat := by decide
  refine List.all_eq_true.mpr fun c hc => ?_
  rw [hexdigest, text, hex, String.toList_ofList, List.map_map] at hc
  obtain ⟨i, -, rfl⟩ := List.mem_map.mp hc
  exact hd _ (Nat.mod_lt _ (by omega))

theorem digits_ascii {s : Text} (hs : s.all isHexDigit) : s.all (· < 0x80) := by
  refine List.all_eq_true.mpr fun c hc => ?_
  have := List.all_eq_true.mp hs c hc
  simp [isHexDigit] at this ⊢
  omega

theorem simple_hexdigest (b : Bytes) : Simple (.str (hexdigest t b)) := paired_ascii (digits_ascii (hexdigest_digits b))

theorem simple_isHex {n : Nat} {d : Doc} (h : isHex n (some d)) : Simple d := by
  cases d with
  | str s =>
    simp only [isHex, Bool.and_eq_true] at h
    exact paired_ascii (digits_ascii h.2)
  | _ => cases h

/-- The documents of a baseline's pack. -/
theorem validateInputs_none [DecidableEq κ] : validateInputs t p none = some receipt ↔
    p.node descendantReceipt = none ∧ ∃ governed review, (p.read governedRootFile).bind readObject = some governed ∧
      (p.read reviewJson).bind readObject = some review ∧ (p.read repo0Receipt).bind readObject = some receipt ∧
      inputsOk governed review receipt := by
  simp only [validateInputs, Option.bind_eq_bind, Option.bind_eq_some_iff, Option.guard_eq_some', exists_const,
    Option.isNone_iff_eq_none, Option.some.injEq]
  constructor
  · rintro ⟨h1, g, h2, r, h3, x, h4, h5, rfl⟩
    exact ⟨h1, g, r, h2, h3, h4, h5⟩
  · rintro ⟨h1, g, r, h2, h3, h4, h5⟩
    exact ⟨h1, g, h2, r, h3, receipt, h4, h5, rfl⟩

/-- What a baseline's attestation says, whatever the pack. -/
structure Baseline (t : Tools κ) (now : Text) (z : Bytes) (a : Doc) : Prop where
  readable : readObject (line a) = some a
  version : get a "schema_version" = some (str "external-seal-attestation/v6")
  artifact : get a "artifact_type" = some (str "RUNTIME_PACK")
  authority : get a "authorized_production_phases" = some (str "NONE")
  zip : get a "zip_sha256" = some (.str (hexdigest t z))
  date : get a "created_at" = some (.str now)

theorem baseline_attestation {governed review : Doc} (hnow : now.all (· < 0x80)) (hok : inputsOk governed review receipt)
    (hg : (q.read governedRootFile).bind readObject = some governed) (h : attestation t now q z receipt = some a) :
    Baseline t now z a := by
  obtain ⟨version, common, hv, hc, rfl, hn⟩ := attestation_eq h
  simp only [inputsOk, Bool.and_eq_true, decide_eq_true_eq, List.all_eq_true] at hok
  obtain ⟨⟨⟨⟨⟨⟨⟨⟨⟨⟨-, -⟩, -⟩, -⟩, -⟩, hschema⟩, -⟩, hroot⟩, hhash⟩, hcommit⟩, htree⟩ := hok
  have hne : get receipt "schema_version" ≠ some (str "runtime-self-review/v2") := by
    rw [hschema]
    decide
  simp only [versionFields, if_neg hne, Option.bind_eq_bind, Option.bind_eq_some_iff, Option.some.injEq] at hv
  obtain ⟨x1, -, x2, h2, x3, h3, x4, h4, rfl⟩ := hv
  simp only [commonFields, hg, Option.bind_eq_bind, Option.bind_eq_some_iff, Option.some.injEq, exists_eq_left'] at hc
  obtain ⟨m, -, x, hx, s, -, j, -, k, -, c, hcand, rfl⟩ := hc
  have hget : ∀ {k : String} {v : Doc}, (k, v) ∈ _ → get (record _) k = some v := fun {k v} hm => by
    obtain ⟨m, hr, hk⟩ := lookup_record hn hm
    rw [hr]
    exact hk
  refine ⟨?_, hget (by simp), hget (by simp), hget (by simp), hget (by simp), hget (by simp)⟩
  have hhex : ∀ {k : String} {d : Doc}, k ∈ receiptHashes → get receipt k = some d → Simple d := by
    intro k d hk hd
    have := hhash k hk
    rw [hd] at this
    exact simple_isHex this
  rw [hx] at hroot
  rw [h3] at hcommit
  rw [h4] at htree
  refine readObject_line (record_flat ?_ ?_)
  · simp only [List.cons_append, List.nil_append, List.forall_mem_cons, List.not_mem_nil, false_implies, implies_true,
      and_true]
    decide
  · simp only [List.cons_append, List.nil_append, List.forall_mem_cons, List.not_mem_nil, false_implies, implies_true,
      and_true]
    exact ⟨simple_str _ (by decide), simple_hexdigest _, hhex (by decide) h2, simple_isHex hcommit, simple_isHex htree,
      simple_str _ (by decide), q.decoded, simple_str _ (by decide), paired_ascii hnow,
      simple_hexdigest _, simple_hexdigest _, simple_isHex hroot, simple_hexdigest _, simple_hexdigest _,
      simple_hexdigest _, hhex (by decide) hcand⟩

/-! ## Line ends -/

theorem newlines_mem (s : Text) : 0x0d ∉ newlines s := by
  fun_induction newlines s with
  | case1 s ih => simpa using ih
  | case2 s _ ih => simpa using ih
  | case3 c s _ hc ih => simpa using ⟨fun h => hc h.symm, ih⟩
  | case4 => simp

theorem newlines_same {s : Text} (hs : 0x0d ∉ s) : newlines s = s := by
  fun_induction newlines s with
  | case1 s ih => simp at hs
  | case2 s _ ih => simp at hs
  | case3 c s _ hc ih =>
    rw [ih fun h => hs (List.mem_cons_of_mem _ h)]
  | case4 => rfl

/-- The sidecar is read as it was written, unless the archive's name has a line end. -/
theorem sidecar_read_iff (hn : o.zip.name.all isScalar) :
    (decode (encode (sidecarText t z o.zip.name))).map newlines = some (sidecarText t z o.zip.name) ↔
      0x0d ∉ o.zip.name := by
  have hdigits := hexdigest_digits (t := t) z
  have hscalar : (sidecarText t z o.zip.name).all isScalar := by
    have hd : (hexdigest t z).all isScalar := by
      refine List.all_eq_true.mpr fun c hc => ?_
      have := List.all_eq_true.mp hdigits c hc
      simp [isHexDigit] at this
      simp [isScalar]
      omega
    simp only [sidecarText, List.all_append, hd, hn]
    decide
  have hmem : 0x0d ∈ sidecarText t z o.zip.name ↔ 0x0d ∈ o.zip.name := by
    have hd : 0x0d ∉ hexdigest t z := by
      intro hc
      have := List.all_eq_true.mp hdigits _ hc
      simp [isHexDigit] at this
    have h1 : 0x0d ∉ text "  " := by decide
    have h2 : 0x0d ∉ text "\n" := by decide
    simp only [sidecarText, List.mem_append, hd, h1, h2, false_or, or_false]
  rw [decode_encode hscalar, Option.map_some, Option.some.injEq, ← not_congr hmem]
  constructor
  · intro h
    rw [← h]
    exact newlines_mem _
  · exact newlines_same

/-! ## The copy of a sealed pack -/

variable [DecidableEq κ]

/-- Before the seal, the pack's documents, the manifest and the files of the archive. -/
structure Written (t : Tools κ) (p : Pack) (receipt : Doc) (b : Bytes) (final : Pack) (files : List (Text × Bytes)) : Prop where
  inputs : validateInputs t p none = some receipt
  manifest : manifestOf t p = some b
  written : p.write manifestFile b = some final
  files : safeFiles t final true false = some files

/-- The sealed pack, one of the two files that are written again perhaps another. -/
def Rewritten (final q : Pack) : Prop :=
  q = final ∨ ∃ r c, (r = manifestFile ∨ r = governedRootFile) ∧ final.write r c = some q

variable {b : Bytes} {final : Pack} {files : List (Text × Bytes)}

theorem Written.unlinked (h : Written t p receipt b final files) (hf : final.hasLink = false) : p.hasLink = false :=
  Pack.write_unlinked h.written hf

omit [DecidableEq κ] in
theorem Rewritten.unlinked (h : Rewritten final q) (hq : q.hasLink = false) : final.hasLink = false := by
  rcases h with rfl | ⟨r, c, -, hw⟩
  · exact hq
  · exact Pack.write_unlinked hw hq

theorem Written.root (h : Written t p receipt b final files) (hp : p.hasLink = false) :
    ∃ g, p.read governedRootFile = some g ∧ final.read governedRootFile = some g := by
  obtain ⟨-, governed, review, hg, -⟩ := validateInputs_none.mp h.inputs
  obtain ⟨g, hg, -⟩ := Option.bind_eq_some_iff.mp hg
  exact ⟨g, hg, by rw [(Pack.write_read hp h.written).2.2 _ (by decide), hg]⟩

theorem Written.safe (h : Written t p receipt b final files) (hp : p.hasLink = false) :
    unsafePath t manifestFile = false ∧ unsafePath t governedRootFile = false := by
  obtain ⟨hf, hm, -⟩ := Pack.write_read hp h.written
  obtain ⟨g, -, hg⟩ := h.root hp
  exact ⟨unsafePath_read h.files hf hm, unsafePath_read h.files hf hg⟩

/-- The governed root is that of the pack before the seal. -/
theorem Written.record (h : Written t p receipt b final files) (hp : p.hasLink = false) (hq : Rewritten final q) :
    governedRecord t q = governedRecord t p := by
  obtain ⟨hm, hg⟩ := h.safe hp
  have hf := (Pack.write_read hp h.written).1
  have hfinal := governedRecord_exclusion (by decide) hm hp h.written
  rcases hq with rfl | ⟨r, c, rfl | rfl, hw⟩
  · exact hfinal
  · rw [governedRecord_exclusion (by decide) hm hf hw, hfinal]
  · rw [governedRecord_exclusion (by decide) hg hf hw, hfinal]

omit [DecidableEq κ] in
theorem copied_write {r : Text} {c : Bytes} (h : p.write r c = some q) : (copied t p).write r c = some (copied t q) := by
  unfold Pack.write at h ⊢
  split at h
  · cases h
  · next l hl =>
    cases h
    split
    · next hn =>
      rw [show (copied t p).entries = p.entries from rfl, hl] at hn
      cases hn
    · next m hm =>
      rw [show (copied t p).entries = p.entries from rfl, hl] at hm
      cases hm
      rfl

/-- When the governed root is the pack's own, the copy is the pack with some manifest. -/
theorem Written.rebuild (h : Written t p receipt b final files) (hp : p.hasLink = false) (hq : Rewritten final q)
    (hname : p.name ∉ [[], text ".", text ".."]) (hroot : p.read governedRootFile = (governedRecord t p).map line) :
    ∃ x c, p.write manifestFile c = some x ∧ rebuild t q none = some (copied t x, none) := by
  obtain ⟨g, hg, hfg⟩ := h.root hp
  have hf := (Pack.write_read hp h.written).1
  rw [hg] at hroot
  obtain ⟨d, hd, hline⟩ := Option.map_eq_some_iff.mp hroot.symm
  have hrecord : governedRecord t q = some d := by rw [h.record hp hq, hd]
  have hnames : ∀ {x y : Pack} {r : Text} {c : Bytes}, x.write r c = some y → y.name = x.name := by
    intro x y r c hw
    obtain ⟨l, -, -, hn, -⟩ := Pack.write_eq hw
    exact hn
  subst hline
  rcases hq with rfl | ⟨r, c, rfl | rfl, hw⟩
  · refine ⟨q, b, h.written, rebuild_none_iff.mpr ⟨rfl, ?_, d, hrecord, ?_⟩⟩
    · rw [hnames h.written]
      exact hname
    · exact copied_write (Pack.write_same (by decide) hf hfg)
  · -- another manifest, which the copy keeps
    refine ⟨q, c, (Pack.write_write h.written).symm.trans hw, rebuild_none_iff.mpr ⟨rfl, ?_, d, hrecord, ?_⟩⟩
    · rw [hnames hw, hnames h.written]
      exact hname
    · obtain ⟨hql, -, hqr⟩ := Pack.write_read hf hw
      exact copied_write (Pack.write_same (by decide) hql (by rw [hqr _ (by decide), hfg]))
  · -- another governed root, over which the copy's is written
    refine ⟨final, b, h.written, rebuild_none_iff.mpr ⟨rfl, ?_, d, hrecord, ?_⟩⟩
    · rw [hnames hw, hnames h.written]
      exact hname
    · exact copied_write ((Pack.write_write hw).trans (Pack.write_same (by decide) hf hfg))

/-- The documents of a pack do not change with its manifest. -/
theorem validateInputs_manifest {c : Bytes} (hp : p.hasLink = false) (h : p.write manifestFile c = some q) :
    validateInputs t (copied t q) none = validateInputs t p none := by
  have hread := (Pack.write_read hp h).2.2
  have hnode := Pack.write_node (exclusion_parents (by decide)) h (d := descendantReceipt) (by decide)
  simp only [validateInputs, copied_node, copied_read, hnode, hread governedRootFile (by decide),
    hread reviewJson (by decide), hread repo0Receipt (by decide)]

/-- The copy is sealed as the pack was. -/
theorem Written.again (h : Written t p receipt b final files) (hp : p.hasLink = false) {c : Bytes} {x : Pack}
    (hx : p.write manifestFile c = some x) :
    validateInputs t (copied t x) none = some receipt ∧ writeManifest t (copied t x) = some (copied t final) ∧
      safeFiles t (copied t final) true false = some files := by
  obtain ⟨hm, -⟩ := h.safe hp
  refine ⟨?_, writeManifest_iff.mpr ⟨b, ?_, copied_write ((Pack.write_write hx).trans h.written)⟩, ?_⟩
  · rw [validateInputs_manifest hp hx, h.inputs]
  · rw [copied_manifestOf, manifestOf_manifest hm hx, h.manifest]
  · have hloose : ∀ x : Pack, (guard (false = true → x.resolved ∧ x.hasLink = false) : Option Unit) = some () :=
      fun _ => if_pos nofun
    rw [← h.files, safeFiles_eq, safeFiles_eq, hloose, hloose]
    rfl

/-! ## What can be verified -/

/-- The directory as the verifier wants it, its own governed root in it, and names for which
the outputs are files next to the copy. -/
structure Verifiable (t : Tools κ) (p : Pack) (o : Outputs) : Prop where
  resolved : p.resolved
  unlinked : p.hasLink = false
  name : p.name ∉ [[], text ".", text ".."]
  root : p.read governedRootFile = (governedRecord t p).map line
  names : FourNames p o
  newline : 0x0d ∉ o.zip.name

theorem Written.name (h : Written t p receipt b final files) (hq : Rewritten final q) : q.name = p.name ∧ q.resolved = p.resolved := by
  obtain ⟨-, -, -, hn, -, hr, -⟩ := Pack.write_eq h.written
  rcases hq with rfl | ⟨r, c, -, hw⟩
  · exact ⟨hn, hr⟩
  · obtain ⟨-, -, -, hqn, -, hqr, -⟩ := Pack.write_eq hw
    exact ⟨hqn.trans hn, hqr.trans hr⟩

theorem Written.strict (h : Written t p receipt b final files) (hp : p.hasLink = false) (hres : p.resolved)
    (hq : Rewritten final q) : (safeFiles t q true true).isSome := by
  obtain ⟨hf, hm, -⟩ := Pack.write_read hp h.written
  obtain ⟨g, -, hg⟩ := h.root hp
  have hfinal : safeFiles t final true true = some files := by
    have hfr : final.resolved := by rw [(h.name (.inl rfl)).2, hres]
    have hstrict : (guard (true = true → final.resolved ∧ final.hasLink = false) : Option Unit) =
        guard (false = true → final.resolved ∧ final.hasLink = false) :=
      (if_pos fun _ => ⟨hfr, hf⟩).trans (if_pos nofun).symm
    rw [← h.files, safeFiles_eq, safeFiles_eq, hstrict]
  rcases hq with rfl | ⟨r, c, rfl | rfl, hw⟩
  · rw [hfinal]
    rfl
  · exact safeFiles_overwrite hf hm hw hfinal
  · exact safeFiles_overwrite hf hg hw hfinal

omit [DecidableEq κ] in
theorem Baseline.notV7 (h : Baseline t now z a) : isV7 a = false := by
  rw [isV7, h.version]
  decide

omit [DecidableEq κ] in
theorem Baseline.external (h : Baseline t now z a) (hnow : t.isIsoFormat (.str now)) {s : Bytes} {name : Text}
    (hs : (decode s).map newlines = some (sidecarText t z name)) : externalOk t a z s name := by
  simp only [externalOk, h.version, h.artifact, h.authority, h.zip, h.date, hs, h.notV7, hnow]
  simp

/-- A pack that can be verified is, with its archive and its attestation, at any time. -/
theorem Written.verified (h : Written t p receipt b final files) (hv : Verifiable t p o) (hq : Rewritten final w.pack)
    (hn : o.zip.name.all isScalar) (hnow : IsNow t now) (ha : attestation t now final (t.zip files) receipt = some a)
    (hz : w.read o.zip.place = some (t.zip files))
    (hs : w.read o.sidecar.place = some (encode (sidecarText t (t.zip files) o.zip.name)))
    (hr : w.read o.attestation.place = some (line a)) : verifySealedReviewPack t now' w o .absent = some a := by
  have hp := hv.unlinked
  obtain ⟨-, governed, review, hg, -, -, hok⟩ := validateInputs_none.mp h.inputs
  have hbase : Baseline t now (t.zip files) a := by
    refine baseline_attestation hnow.ascii hok ?_ ha
    rw [(Pack.write_read hp h.written).2.2 _ (by decide)]
    exact hg
  obtain ⟨x, c, hx, hrebuild⟩ := h.rebuild hp hq hv.name hv.root
  obtain ⟨hinputs, hmanifest, hfiles⟩ := h.again hp hx
  obtain ⟨expected, he, hsame⟩ := attestation_date now' ha
  have hnames : FourNames w.pack o := by
    rw [FourNames, (h.name hq).1]
    exact hv.names
  have hk := temporary_kept (t := t) hnames
  obtain ⟨hzname, -, -⟩ : w.pack.name ≠ o.zip.name ∧ w.pack.name ≠ o.sidecar.name ∧ w.pack.name ≠ o.attestation.name := by
    simpa using (List.nodup_cons.mp hnames).1
  refine verify_iff.mpr ⟨none, t.zip files, encode (sidecarText t (t.zip files) o.zip.name), copied t x, none,
    sealedWorld t (fun _ => none) (temporaryOutputs t w.pack o) o.zip.name o.sidecar.name o.attestation.name (copied t final)
      (t.zip files) expected, expected, .str now, ?_⟩
  refine ⟨h.strict hp hv.resolved hq, ?_, ?_, hz, hs, ?_, hrebuild, ?_, hbase.date, hsame, (sealedWorld_read hk).1, ?_⟩
  · rw [hr]
    exact hbase.readable
  · rw [loadContext, hbase.notV7]
    rfl
  · exact hbase.external hnow.iso ((sidecar_read_iff hn).mpr hv.newline)
  · refine (seal_outside_iff hk).mpr ⟨(List.nodup_cons.mp hnames).2, (fun h => by cases h), ?_, hn, receipt, copied t final, files, hinputs,
      hmanifest, hfiles, he, rfl⟩
    exact decide_eq_false (Ne.symm hzname)
  · intro h7
    rw [hbase.notV7] at h7
    cases h7

/-- The archive and its sidecar are two files out of the pack. The attestation is a third,
or one of the two in the pack that the verifier writes again. -/
structure Outputs.Apart (o : Outputs) : Prop where
  zip : ∃ i, o.zip.place = .outside i
  sidecar : ∃ j, o.sidecar.place = .outside j
  attestation : (∃ k, o.attestation.place = .outside k) ∨ o.attestation.place = .inside manifestFile ∨
    o.attestation.place = .inside governedRootFile
  distinct : (o.targets.map (·.place)).Nodup

def unary (n : Nat) : Bytes := List.replicate n 1 ++ [0]

theorem unary_cancel {n m : Nat} {x y : Bytes} (h : unary n ++ x = unary m ++ y) : n = m ∧ x = y := by
  induction n generalizing m with
  | zero =>
    cases m with
    | zero => exact ⟨rfl, (List.cons.inj h).2⟩
    | succ m => cases (List.cons.inj h).1
  | succ n ih =>
    cases m with
    | zero => cases (List.cons.inj h).1
    | succ m =>
      obtain ⟨hn, hx⟩ := ih (List.cons.inj h).2
      exact ⟨by rw [hn], hx⟩

/-- A character in one byte, or one that is none in ASCII by its number. -/
def smallChar (c : Nat) : Bytes := if c < 0x80 then [UInt8.ofNat (0x80 + c)] else unary c

theorem smallChar_cancel {c d : Nat} {x y : Bytes} (h : smallChar c ++ x = smallChar d ++ y) : c = d ∧ x = y := by
  have hbyte : ∀ {c : Nat}, c < 0x80 → (UInt8.ofNat (0x80 + c)).toNat = 0x80 + c := fun hc => by
    rw [UInt8.toNat_ofNat']
    omega
  have hmark : ∀ {c n : Nat} {x y : Bytes}, c < 0x80 → UInt8.ofNat (0x80 + c) :: x ≠ unary n ++ y := by
    intro c n x y hc he
    have hne : ∀ u : UInt8, u.toNat < 0x80 → UInt8.ofNat (0x80 + c) ≠ u := fun u hu he => by
      rw [← he, hbyte hc] at hu
      omega
    cases n with
    | zero => exact hne 0 (by decide) (List.cons.inj he).1
    | succ n => exact hne 1 (by decide) (List.cons.inj he).1
  unfold smallChar at h
  split_ifs at h with hc hd hd
  · obtain ⟨hb, hx⟩ := List.cons.inj h
    have := congrArg UInt8.toNat hb
    rw [hbyte hc, hbyte hd] at this
    exact ⟨by omega, hx⟩
  · exact absurd h (hmark hc)
  · exact absurd h.symm (hmark hd)
  · exact unary_cancel h

def smallMember (m : Text × Bytes) : Bytes := unary m.1.length ++ m.1.flatMap smallChar ++ unary m.2.length ++ m.2

def smallZip (l : List (Text × Bytes)) : Bytes := unary l.length ++ l.flatMap smallMember

theorem smallText_cancel {r s : Text} {x y : Bytes} (hl : r.length = s.length)
    (h : r.flatMap smallChar ++ x = s.flatMap smallChar ++ y) : r = s ∧ x = y := by
  induction r generalizing s with
  | nil =>
    cases s with
    | nil => exact ⟨rfl, h⟩
    | cons d s => cases hl
  | cons c r ih =>
    cases s with
    | nil => cases hl
    | cons d s =>
      rw [List.flatMap_cons, List.flatMap_cons, List.append_assoc, List.append_assoc] at h
      obtain ⟨hc, h⟩ := smallChar_cancel h
      obtain ⟨hr, hx⟩ := ih (Nat.succ.inj hl) h
      exact ⟨by rw [hc, hr], hx⟩

theorem smallMember_cancel {m n : Text × Bytes} {x y : Bytes} (h : smallMember m ++ x = smallMember n ++ y) :
    m = n ∧ x = y := by
  simp only [smallMember, List.append_assoc] at h
  obtain ⟨hl, h⟩ := unary_cancel h
  obtain ⟨h1, h⟩ := smallText_cancel hl h
  obtain ⟨hb, h⟩ := unary_cancel h
  obtain ⟨h2, hx⟩ := List.append_inj h hb
  exact ⟨Prod.ext h1 h2, hx⟩

theorem smallMembers_cancel {l m : List (Text × Bytes)} (hl : l.length = m.length)
    (h : l.flatMap smallMember = m.flatMap smallMember) : l = m := by
  induction l generalizing m with
  | nil =>
    cases m with
    | nil => rfl
    | cons b m => cases hl
  | cons a l ih =>
    cases m with
    | nil => cases hl
    | cons b m =>
      obtain ⟨hab, h⟩ := smallMember_cancel h
      rw [hab, ih (Nat.succ.inj hl) h]

theorem smallZip_injective : Function.Injective smallZip := by
  intro l m h
  obtain ⟨hl, h⟩ := unary_cancel h
  exact smallMembers_cancel hl h

def smallTools : Tools Unit :=
  { sha256 := fun b => BitVec.ofNat 256 (b.foldl (fun h x => 257 * h + x.toNat + 1) 7)
    nfc := fun r => r
    zip := smallZip
    isIsoFormat := fun _ => true
    detected := decode
    temporaryResolved := true
    assembly := fun _ _ => none
    sourcePath := fun _ => []
    hasDescendantReceipt := fun _ => false
    qualification := fun _ => none }

def smallHash (c : Char) (n : Nat) : Doc := .str (List.replicate n c.toNat)

def smallReceipt : Doc :=
  record [("schema_version", str "repo0-baseline-receipt/v2"), ("production_authority", str "NONE"),
    ("baseline_commit", smallHash 'a' 40), ("baseline_tree", smallHash 'b' 40),
    ("baseline_file_root_sha256", smallHash 'c' 64), ("candidate_qualification_sha256", smallHash 'd' 64),
    ("command_result_root", smallHash 'e' 64), ("candidate_command_evidence_sha256", smallHash 'f' 64),
    ("baseline_registry_sha256", smallHash '0' 64), ("vendor_root_sha256", smallHash '2' 64),
    ("normative_source_map_sha256", smallHash '3' 64), ("normative_source_set_root", smallHash '4' 64)]

def smallReview : Doc := record [("schema_version", str "runtime-self-review/v1"), ("authority_granted", str "NONE")]

/-- A governed root of the small pack, its own or another. -/
def smallRecord (root : Text) (count : Int) : Doc :=
  record [("schema_version", str "governed-content-root/v1"), ("algorithm", str "HD636-GOVERNED-ROOT-SHA256-v1"),
    ("root_sha256", .str root), ("file_count", .int count), ("exclusion_registry", .str exclusionRegistry)]

/-- The small pack before its governed root is in it. -/
def smallBase : Pack :=
  { name := text "pack"
    decoded := by decide
    isDirectory := true
    resolved := true
    entries :=
      [(text "docs", .directory), (text "docs/registries", .directory), (text "docs/receipts", .directory),
       (text "docs/tasks", .directory), (taskManifest, .file (encode (text "\x7b\x7d\n")) 1),
       (exclusionRegistry, .file (line (record [("schema_version", str "seal-exclusions/v2"),
         ("governed_root_exclusions", .arr (exclusions.map .str)), ("external_outputs_must_be_outside_root", .bool true)])) 1),
       (repo0Receipt, .file (line smallReceipt) 1), (reviewJson, .file (line smallReview) 1),
       (reviewMarkdown, .file (encode (text "# Runtime self-review\n")) 1)]
    distinct := by decide
    beyond := fun _ => none
    unlinked := fun _ _ => rfl }

def smallTarget (name : String) : Target := ⟨text name, text "/tmp/" ++ text name, .outside (text name), false, true⟩

def smallOutputs : Outputs := ⟨smallTarget "seal.zip", smallTarget "seal.sha256", smallTarget "seal.json"⟩

def smallNow : Text := text "2030-01-01T00:00:00Z"

theorem small_kept : smallOutputs.Kept (text "seal.zip") (text "seal.sha256") (text "seal.json") := by
  refine ⟨rfl, rfl, rfl, ?_⟩
  decide

theorem small_isNow : IsNow smallTools smallNow := ⟨by decide, rfl⟩

theorem small_names : FourNames smallBase smallOutputs := by
  unfold FourNames
  decide

theorem small_registry : registryOk smallBase := by decide +kernel

theorem small_files : ((governedFiles smallTools smallBase).map fun l =>
    decide (l.length = 3) && l.all fun m => (encode m.1).length < 2 ^ 32) = some true := by
  simp only [governedFiles, smallBase, exclusions, governedRootFile, taskManifest, exclusionRegistry, repo0Receipt,
    reviewJson, reviewMarkdown, manifestFile, text]
  repeat rw [String.toList_ofList]
  decide

theorem small_safe : (safeFiles smallTools smallBase true false).isSome := by
  simp only [safeFiles, smallBase, taskManifest, exclusionRegistry, repo0Receipt, reviewJson, reviewMarkdown, manifestFile,
    text]
  decide

theorem small_exclusions : ∀ r ∈ exclusions, unsafePath smallTools r = false ∧ r.all isScalar ∧ r ≠ [] := by
  simp only [exclusions, governedRootFile, reviewMarkdown, reviewJson, manifestFile, unsafePath, text]
  repeat rw [String.toList_ofList]
  decide

theorem small_lookup : smallBase.entries.lookup manifestFile = none ∧ smallBase.entries.lookup governedRootFile = none ∧
    smallBase.entries.lookup descendantReceipt = none := by
  simp only [smallBase, governedRootFile, descendantReceipt, taskManifest, exclusionRegistry, repo0Receipt, reviewJson,
    reviewMarkdown, manifestFile, text]
  repeat rw [String.toList_ofList]
  decide

theorem small_receipt_read : readObject (line smallReceipt) = some smallReceipt := by
  refine readObject_line (record_flat ?_ ?_)
  · simp only [List.forall_mem_cons, List.not_mem_nil, false_implies, implies_true, and_true]
    decide
  · simp only [List.forall_mem_cons, List.not_mem_nil, false_implies, implies_true, and_true, str, smallHash, Simple]
    decide

theorem small_review_read : readObject (line smallReview) = some smallReview := by
  refine readObject_line (record_flat ?_ ?_)
  · simp only [List.forall_mem_cons, List.not_mem_nil, false_implies, implies_true, and_true]
    decide
  · simp only [List.forall_mem_cons, List.not_mem_nil, false_implies, implies_true, and_true, str, Simple]
    decide

theorem small_record_read {root : Text} (hroot : root.all isHexDigit) (count : Int) :
    readObject (line (smallRecord root count)) = some (smallRecord root count) := by
  refine readObject_line (record_flat ?_ ?_)
  · simp only [List.forall_mem_cons, List.not_mem_nil, false_implies, implies_true, and_true]
    decide
  · simp only [List.forall_mem_cons, List.not_mem_nil, false_implies, implies_true, and_true, str, Simple]
    exact ⟨by decide, by decide, paired_ascii (digits_ascii hroot), trivial, by decide⟩

/-- The governed root computed of the small pack. -/
theorem small_record : ∃ root : Text, root.length = 64 ∧ root.all isHexDigit ∧
    governedRecord smallTools smallBase = some (smallRecord root 3) := by
  cases hg : governedFiles smallTools smallBase with
  | none =>
    have := small_files
    rw [hg] at this
    cases this
  | some files =>
    have hf := small_files
    rw [hg, Option.map_some, Option.some.injEq, Bool.and_eq_true, decide_eq_true_eq] at hf
    refine ⟨hexdigest smallTools (rootDomain ++ files.flatMap (framed smallTools)), ?_, hexdigest_digits _, ?_⟩
    · simp [hexdigest, text, hex]
    · simp only [governedRecord, small_registry, hg, hf.1, hf.2, guard, if_true, Option.pure_def, Option.bind_eq_bind,
        Option.bind_some]
      rfl

theorem small_record_get (root : Text) (count : Int) :
    get (smallRecord root count) "schema_version" = some (str "governed-content-root/v1") ∧
    get (smallRecord root count) "algorithm" = some (str "HD636-GOVERNED-ROOT-SHA256-v1") ∧
    get (smallRecord root count) "root_sha256" = some (.str root) ∧
    get (smallRecord root count) "file_count" = some (.int count) := by
  have hget : ∀ {k : String} {v : Doc}, (k, v) ∈ _ → get (smallRecord root count) k = some v := fun {k v} hm => by
    obtain ⟨m, hr, hk⟩ := lookup_record (l := [("schema_version", str "governed-content-root/v1"),
      ("algorithm", str "HD636-GOVERNED-ROOT-SHA256-v1"), ("root_sha256", .str root), ("file_count", .int count),
      ("exclusion_registry", .str exclusionRegistry)]) (by simp) hm
    rw [smallRecord, hr]
    exact hk
  exact ⟨hget (by simp), hget (by simp), hget (by simp), hget (by simp)⟩

theorem small_inputs {root : Text} (hroot : root.length = 64 ∧ root.all isHexDigit) (count : Int) :
    inputsOk (smallRecord root count) smallReview smallReceipt := by
  obtain ⟨h1, h2, h3, -⟩ := small_record_get root count
  have hclosed : ∀ g : Doc, get g "schema_version" = some (str "governed-content-root/v1") →
      get g "algorithm" = some (str "HD636-GOVERNED-ROOT-SHA256-v1") → isHex 64 (get g "root_sha256") →
      inputsOk g smallReview smallReceipt = inputsOk (smallRecord (List.replicate 64 '0'.toNat) 0) smallReview smallReceipt := by
    intro g h1 h2 h3
    obtain ⟨k1, k2, k3, -⟩ := small_record_get (List.replicate 64 '0'.toNat) 0
    have hhex : isHex 64 (some (Value.str (F := Text) (List.replicate 64 '0'.toNat))) := by decide
    rw [inputsOk, inputsOk, h1, h2, h3, k1, k2, k3, hhex]
  rw [hclosed _ h1 h2 (by rw [h3]; simp [isHex, hroot])]
  decide

/-- The small pack with a governed root in it is sealed. -/
theorem small_sealed {root : Text} (hroot : root.length = 64 ∧ root.all isHexDigit) (count : Int) :
    ∃ p b final files a, smallBase.write governedRootFile (line (smallRecord root count)) = some p ∧
      Written smallTools p smallReceipt b final files ∧
      attestation smallTools smallNow final (smallTools.zip files) smallReceipt = some a ∧
      sealReviewPack smallTools smallNow [] ⟨p, fun _ => none⟩ smallOutputs none =
        some (sealedWorld smallTools (fun _ => none) smallOutputs (text "seal.zip") (text "seal.sha256") (text "seal.json")
          final (smallTools.zip files) a, a) := by
  have hbase : smallBase.hasLink = false := rfl
  obtain ⟨hlm, hlg, hld⟩ := small_lookup
  obtain ⟨hug, hsg, hng⟩ := small_exclusions governedRootFile (by decide)
  obtain ⟨hum, hsm, hnm⟩ := small_exclusions manifestFile (by decide)
  have hparents : ∀ r ∈ exclusions, parents r = [] := fun r hr => exclusion_parents hr
  obtain ⟨p, hp⟩ := Pack.write_new (p := smallBase) hng (hparents _ (by decide)) hlg (line (smallRecord root count))
  obtain ⟨hpl, hpg, hpr⟩ := Pack.write_read hbase hp
  have hnode : ∀ d, d ≠ governedRootFile → smallBase.entries.lookup d = none → p.node d = none := by
    intro d hd hl
    rw [Pack.write_node (hparents _ (by decide)) hp hd, Pack.node, hl]
    rfl
  obtain ⟨l₀, hl₀⟩ := Option.isSome_iff_exists.mp small_safe
  obtain ⟨l, hl⟩ := Option.isSome_iff_exists.mp
    (safeFiles_new hug (hparents _ (by decide)) hsg hlg hbase hp hl₀)
  obtain ⟨b, hb⟩ := manifestOf_isSome hl
  have hpm := Pack.lookup_of_node (hnode manifestFile (by decide) hlm)
  obtain ⟨final, hf⟩ := Pack.write_new (p := p) hnm (hparents _ (by decide)) hpm b
  obtain ⟨hfl, hfm, hfr⟩ := Pack.write_read hpl hf
  obtain ⟨files, hfiles⟩ := Option.isSome_iff_exists.mp
    (safeFiles_new hum (hparents _ (by decide)) hsm hpm hpl hf hl)
  have hreads : ∀ r c, r ≠ manifestFile → r ≠ governedRootFile → smallBase.read r = some c → final.read r = some c := by
    intro r c h1 h2 h
    rw [hfr r h1, hpr r h2, h]
  have hjson := (Pack.read_iff (r := reviewJson) (b := line smallReview) hbase).mpr ⟨1, by simp [smallBase]⟩
  have hrepo0 := (Pack.read_iff (r := repo0Receipt) (b := line smallReceipt) hbase).mpr ⟨1, by simp [smallBase]⟩
  have hmarkdown := (Pack.read_iff (r := reviewMarkdown) (b := encode (text "# Runtime self-review\n")) hbase).mpr
    ⟨1, by simp [smallBase]⟩
  have htasks := (Pack.read_iff (r := taskManifest) (b := encode (text "\x7b\x7d\n")) hbase).mpr ⟨1, by simp [smallBase]⟩
  have hwritten : Written smallTools p smallReceipt b final files := by
    refine ⟨validateInputs_none.mpr ⟨hnode _ (by decide) hld, smallRecord root count, smallReview, ?_, ?_, ?_,
      small_inputs hroot count⟩, hb, hf, hfiles⟩
    · rw [hpg, Option.bind_some]
      exact small_record_read hroot.2 count
    · rw [hpr _ (by decide), hjson, Option.bind_some]
      exact small_review_read
    · rw [hpr _ (by decide), hrepo0, Option.bind_some]
      exact small_receipt_read
  have hgoverned : (final.read governedRootFile).bind readObject = some (smallRecord root count) := by
    rw [hfr _ (by decide), hpg, Option.bind_some]
    exact small_record_read hroot.2 count
  have hv6 : get smallReceipt "schema_version" ≠ some (str "runtime-self-review/v2") := by decide
  obtain ⟨x, hx⟩ : ∃ x, get smallReceipt "candidate_qualification_sha256" = some x :=
    Option.isSome_iff_exists.mp (by decide)
  obtain ⟨y, hy⟩ : ∃ y, get smallReceipt "baseline_file_root_sha256" = some y :=
    Option.isSome_iff_exists.mp (by decide)
  obtain ⟨c, hc⟩ : ∃ c, get smallReceipt "baseline_commit" = some c := Option.isSome_iff_exists.mp (by decide)
  obtain ⟨d, hd⟩ : ∃ d, get smallReceipt "baseline_tree" = some d := Option.isSome_iff_exists.mp (by decide)
  obtain ⟨a, ha⟩ : ∃ a, attestation smallTools smallNow final (smallTools.zip files) smallReceipt = some a := by
    simp only [attestation, versionFields, commonFields, if_neg hv6, hgoverned, hfm, (small_record_get root count).2.2.1,
      hreads _ _ (by decide) (by decide) hjson, hreads _ _ (by decide) (by decide) hmarkdown,
      hreads _ _ (by decide) (by decide) hrepo0, hreads _ _ (by decide) (by decide) htasks,
      hx, hy, hc, hd, Option.bind_eq_bind, Option.bind_some]
    exact ⟨_, rfl⟩
  refine ⟨p, b, final, files, a, hp, hwritten, ha, (seal_outside_iff small_kept).mpr ⟨?_, (fun h => by cases h), rfl, ?_, smallReceipt, final,
    files, hwritten.inputs, writeManifest_iff.mpr ⟨b, hb, hf⟩, hfiles, ha, rfl⟩⟩
  · decide
  · decide

theorem small_verifiable {p : Pack} {root : Text}
    (hrecord : governedRecord smallTools smallBase = some (smallRecord root 3))
    (h : smallBase.write governedRootFile (line (smallRecord root 3)) = some p) : Verifiable smallTools p smallOutputs := by
  obtain ⟨-, -, -, hname, -, hres, -⟩ := Pack.write_eq h
  obtain ⟨hpl, hpg, -⟩ := Pack.write_read (p := smallBase) rfl h
  refine ⟨by rw [hres]; rfl, hpl, by rw [hname]; decide, ?_, by rw [FourNames, hname]; exact small_names,
    by decide⟩
  rw [hpg, governedRecord_exclusion (by decide) (small_exclusions _ (by decide)).1 rfl h, hrecord]
  rfl

end BettingHelper.Seal
