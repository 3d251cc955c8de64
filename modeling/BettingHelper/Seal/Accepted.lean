/-
  BettingHelper.Seal.Accepted — what the verifier went through, when it accepts.

  Proved: the outputs of the second seal are three files out of the copy exactly when
  their names and the pack's are four (`temporary_kept`, `seal_temporary`), and the copy
  differs from the pack in files of the exclusion registry only (`rebuild_reads`).
-/

import BettingHelper.Seal.Steps

namespace BettingHelper.Seal

open BettingHelper.Lib.Json

variable {κ : Type} [DecidableEq κ] {t : Tools κ} {w w' : World} {o : Outputs} {p q : Pack} {z : Bytes} {a : Doc}
  {now : Text} {given : Context}

structure Accepted (t : Tools κ) (now : Text) (w : World) (o : Outputs) (given : Context) (a : Doc)
    (context : Option (κ × Text)) (z s : Bytes) (rebuilt : Pack) (c : Option κ) (after : World) (expected created : Doc) :
    Prop where
  strict : (safeFiles t w.pack true true).isSome
  record : (w.read o.attestation.place).bind readObject = some a
  loaded : loadContext t w o a given = some context
  zip : w.read o.zip.place = some z
  sidecar : w.read o.sidecar.place = some s
  external : externalOk t a z s o.zip.name
  rebuild : rebuild t w.pack context = some (rebuilt, c)
  again : sealReviewPack t now [] ⟨rebuilt, fun _ => none⟩ (temporaryOutputs t w.pack o) c = some (after, expected)
  date : get a "created_at" = some created
  same : setCreatedAt expected created = a
  archive : after.read (temporary t w.pack o.zip).place = some z
  current : isV7 a → (exclusions.all fun r => (after.pack.read r).isSome && after.pack.read r = w.pack.read r) ∧
    after.read (temporary t w.pack o.sidecar).place = some s

theorem verify_iff : verifySealedReviewPack t now w o given = some a ↔
    ∃ context z s rebuilt c after expected created,
      Accepted t now w o given a context z s rebuilt c after expected created := by
  simp only [verifySealedReviewPack, Option.bind_eq_bind, Option.bind_eq_some_iff, Option.guard_eq_some', exists_const,
    Prod.exists]
  constructor
  · rintro ⟨l, h1, b, h2, context, h3, z, h4, s, h5, h6, rebuilt, c, h7, after, expected, h8, created, h9, h10, h11, h12, h13⟩
    cases h13
    refine ⟨context, z, s, rebuilt, c, after, expected, created, ?_, ?_, h3, h4, h5, h6, h7, h8, h9, h10, h11, h12⟩
    · rw [h1]
      rfl
    · exact Option.bind_eq_some_iff.mpr h2
  · rintro ⟨context, z, s, rebuilt, c, after, expected, created, h⟩
    obtain ⟨l, hl⟩ := Option.isSome_iff_exists.mp h.strict
    exact ⟨l, hl, a, Option.bind_eq_some_iff.mp h.record, context, h.loaded, z, h.zip, s, h.sidecar, h.external,
      rebuilt, c, h.rebuild, after, expected, h.again, created, h.date, h.same, h.archive, h.current, rfl⟩

/-! ## The second seal -/

/-- No two outputs have one name, and none has the pack's. -/
def FourNames (name : Pack) (o : Outputs) : Prop := (name.name :: [o.zip, o.sidecar, o.attestation].map (·.name)).Nodup

omit [DecidableEq κ] in
theorem temporary_kept {name : Pack} (h : FourNames name o) :
    (temporaryOutputs t name o).Kept o.zip.name o.sidecar.name o.attestation.name := by
  simp only [FourNames, List.map_cons, List.map_nil, List.nodup_cons, List.mem_cons, List.not_mem_nil, or_false,
    not_or] at h
  obtain ⟨⟨h1, h2, h3⟩, ⟨h4, h5⟩, h6, -⟩ := h
  exact ⟨if_neg (Ne.symm h1), if_neg (Ne.symm h2), if_neg (Ne.symm h3), h4, h5, h6⟩

omit [DecidableEq κ] in
/-- No file is written where the copy is. -/
theorem temporary_write {name : Pack} {x : Target} {b : Bytes} (h : w.write (temporary t name x).place b = some w') :
    x.name ≠ name.name := by
  intro hx
  have hplace : (temporary t name x).place = .inside [] := if_pos hx
  rw [hplace, World.write] at h
  obtain ⟨q, hq, -⟩ := Option.map_eq_some_iff.mp h
  obtain ⟨l, hl, -⟩ := Pack.write_eq hq
  exact absurd rfl (put_cases hl).1

theorem seal_temporary {name : Pack} {flushed : Bytes} {c : Option κ}
    (h : sealReviewPack t now flushed w (temporaryOutputs t name o) c = some (w', a)) : FourNames name o := by
  simp only [sealReviewPack, writeZip, Option.bind_eq_bind, Option.bind_eq_some_iff, Option.guard_eq_some',
    exists_const] at h
  obtain ⟨hd, -, receipt, -, pack, -, w₁, ⟨-, w₀, hw₀, -⟩, z, -, -, w₂, hw₂, z', -, d, -, w₃, hw₃, -⟩ := h
  refine List.nodup_cons.mpr ⟨?_, hd⟩
  simp only [List.map_cons, List.map_nil, List.mem_cons, List.not_mem_nil, or_false, not_or]
  exact ⟨(temporary_write hw₀).symm, (temporary_write hw₂).symm, (temporary_write hw₃).symm⟩

/-! ## The copy -/

/-- The pack in the temporary directory. -/
def copied (t : Tools κ) (p : Pack) : Pack := { p with resolved := t.temporaryResolved }

omit [DecidableEq κ] in
@[simp] theorem copied_read (r : Text) : (copied t p).read r = p.read r := rfl

omit [DecidableEq κ] in
@[simp] theorem copied_node (r : Text) : (copied t p).node r = p.node r := rfl

omit [DecidableEq κ] in
@[simp] theorem copied_hasLink : (copied t p).hasLink = p.hasLink := rfl

omit [DecidableEq κ] in
@[simp] theorem copied_manifestOf : manifestOf t (copied t p) = manifestOf t p := rfl

omit [DecidableEq κ] in
theorem copy_iff : p.copy t = some q ↔ p.name ∉ [[], text ".", text ".."] ∧ q = copied t p := by
  rw [Pack.copy]
  split_ifs with hn
  · exact ⟨(fun h => by cases h), fun h => absurd hn h.1⟩
  · exact ⟨fun h => ⟨hn, (Option.some.inj h).symm⟩, fun h => congrArg some h.2.symm⟩

omit [DecidableEq κ] in
theorem computeGovernedContentRoot_iff {d : Doc} : computeGovernedContentRoot t p = some (q, d) ↔
    governedRecord t p = some d ∧ p.write governedRootFile (line d) = some q := by
  simp only [computeGovernedContentRoot, Option.bind_eq_bind, Option.bind_eq_some_iff]
  constructor
  · rintro ⟨r, hr, x, hx, h⟩
    cases h
    exact ⟨hr, hx⟩
  · rintro ⟨hr, hx⟩
    exact ⟨d, hr, q, hx, rfl⟩

omit [DecidableEq κ] in
theorem writeManifest_iff : writeManifest t p = some q ↔ ∃ b, manifestOf t p = some b ∧ p.write manifestFile b = some q := by
  simp only [writeManifest, Option.bind_eq_bind, Option.bind_eq_some_iff]

theorem buildRuntimeSelfReview_ok {c : κ} (h : buildRuntimeSelfReview t p c = some q) :
    ∃ json markdown x, p.write reviewJson json = some x ∧ x.write reviewMarkdown markdown = some q := by
  simp only [buildRuntimeSelfReview, Option.bind_eq_bind, Option.bind_eq_some_iff, Option.guard_eq_some', exists_const] at h
  obtain ⟨b, -, s, -, r, -, -, d, -, ⟨json, markdown⟩, -, x, hx, hq⟩ := h
  exact ⟨json, markdown, x, hx, hq⟩

/-- A baseline's copy has its governed root written again. -/
theorem rebuild_none_iff {c : Option κ} : rebuild t p none = some (q, c) ↔
    c = none ∧ p.name ∉ [[], text ".", text ".."] ∧ ∃ d, governedRecord t p = some d ∧
      (copied t p).write governedRootFile (line d) = some q := by
  simp only [rebuild, Option.bind_eq_bind, Option.bind_eq_some_iff, Prod.exists]
  constructor
  · rintro ⟨x, hx, y, d, hy, h⟩
    cases h
    obtain ⟨hn, rfl⟩ := copy_iff.mp hx
    obtain ⟨hd, hy⟩ := computeGovernedContentRoot_iff.mp hy
    exact ⟨rfl, hn, d, hd, hy⟩
  · rintro ⟨rfl, hn, d, hd, hy⟩
    exact ⟨_, copy_iff.mpr ⟨hn, rfl⟩, q, d, computeGovernedContentRoot_iff.mpr ⟨hd, hy⟩, rfl⟩

/-- Only the files the exclusion registry names are written again. -/
theorem rebuild_reads {c : Option κ} {context : Option (κ × Text)} (h : rebuild t p context = some (q, c))
    (hp : p.hasLink = false) : q.hasLink = false ∧ ∀ d, d ∉ exclusions → q.read d = p.read d := by
  simp only [rebuild, Option.bind_eq_bind, Option.bind_eq_some_iff, Prod.exists] at h
  obtain ⟨x, hx, y, d, hy, h⟩ := h
  obtain ⟨-, rfl⟩ := copy_iff.mp hx
  obtain ⟨-, hy⟩ := computeGovernedContentRoot_iff.mp hy
  obtain ⟨hyl, -, hyr⟩ := Pack.write_read (p := copied t p) hp hy
  have hyp : ∀ d, d ∉ exclusions → y.read d = p.read d := by
    intro d hd
    rw [hyr d (fun he => hd (by rw [he]; exact List.mem_cons_self)), copied_read]
  cases context with
  | none =>
    cases h
    exact ⟨hyl, hyp⟩
  | some c =>
    simp only [Option.bind_eq_some_iff] at h
    obtain ⟨k, -, v, hv, h⟩ := h
    cases h
    obtain ⟨json, markdown, u, hu, hv⟩ := buildRuntimeSelfReview_ok hv
    obtain ⟨hul, -, hur⟩ := Pack.write_read hyl hu
    obtain ⟨hvl, -, hvr⟩ := Pack.write_read hul hv
    refine ⟨hvl, fun d hd => ?_⟩
    have h1 : d ≠ reviewMarkdown := fun he => hd (by rw [he]; decide)
    have h2 : d ≠ reviewJson := fun he => hd (by rw [he]; decide)
    rw [hvr d h1, hur d h2, hyp d hd]

/-- The second seal, step by step. -/
theorem Accepted.steps {context : Option (κ × Text)} {s : Bytes} {rebuilt : Pack} {c : Option κ} {after : World}
    {expected created : Doc} (h : Accepted t now w o given a context z s rebuilt c after expected created) :
    ∃ receipt files, validateInputs t rebuilt c = some receipt ∧ writeManifest t rebuilt = some after.pack ∧
      safeFiles t after.pack true false = some files ∧ t.zip files = z ∧
      attestation t now after.pack z receipt = some expected := by
  have hk := temporary_kept (t := t) (seal_temporary h.again)
  obtain ⟨-, -, -, -, receipt, final, files, h1, h2, h3, h4, hw⟩ := (seal_outside_iff hk).mp h.again
  have hz := (sealedWorld_read (t := t) (p := final) (z := t.zip files) (a := expected) (f := fun _ => none) hk).1
  rw [← hw] at hz
  have hzip : t.zip files = z := Option.some.inj (hz.symm.trans h.archive)
  have hpack : after.pack = final := by
    rw [hw]
    rfl
  rw [hpack, ← hzip]
  exact ⟨receipt, files, h1, h2, h3, rfl, h4⟩

end BettingHelper.Seal
