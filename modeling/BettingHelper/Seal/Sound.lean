/-
  BettingHelper.Seal.Sound — what an accepted seal says of the pack.

  The verifier compares the archive with one made of a copy, in which the governed root and
  the manifest (and of a descendant's pack the self-review) were written again. The files
  written again are compared with the pack's own for attestations of version 7 only.

  Proved: `sealed_iff`. Of an accepted seal the archive holds the pack's files, and the
  attestation the hashes of the pack's own, exactly when the attestation is of version 7 or
  the pack's governed root and manifest are the ones computed from it.
-/

import BettingHelper.Seal.Reverify

namespace BettingHelper.Seal

open BettingHelper.Lib.Json

variable {κ : Type} [DecidableEq κ] {t : Tools κ} {w : World} {o : Outputs} {p q : Pack} {z : Bytes} {a : Doc}
  {now : Text} {given : Context}

/-- The archive and the attestation are those of the pack. -/
structure Sealed (t : Tools κ) (p : Pack) (z : Bytes) (a : Doc) : Prop where
  members : ∃ l, t.zip l = z ∧ (l.map (·.1)).Nodup ∧ ∀ r b, (r, b) ∈ l ↔ p.read r = some b
  manifest : ∃ b, p.read manifestFile = some b ∧ get a "manifest_sha256" = some (.str (hexdigest t b))
  root : ∃ b d x, p.read governedRootFile = some b ∧ readObject b = some d ∧ get d "root_sha256" = some x ∧
    get a "governed_content_root" = some x
  markdown : ∃ b, p.read reviewMarkdown = some b ∧ get a "self_review_markdown_sha256" = some (.str (hexdigest t b))
  json : ∃ b, p.read reviewJson = some b ∧ get a "self_review_json_sha256" = some (.str (hexdigest t b))

/-- The pack's governed root and manifest are those computed from it. -/
def OwnFiles (t : Tools κ) (p : Pack) : Prop :=
  p.read governedRootFile = (governedRecord t p).map line ∧ p.read manifestFile = manifestOf t p

omit [DecidableEq κ] in
/-- Packs whose files are read alike are sealed alike. -/
theorem Sealed.of_reads (h : ∀ r, p.read r = q.read r) (hs : Sealed t q z a) : Sealed t p z a := by
  obtain ⟨hm, h1, h2, h3, h4⟩ := hs
  refine ⟨?_, ?_, ?_, ?_, ?_⟩
  · simp only [h]
    exact hm
  · rw [h]
    exact h1
  · rw [h]
    exact h2
  · rw [h]
    exact h3
  · rw [h]
    exact h4

/-- What was sealed again is the copy, its manifest written again too. -/
theorem Accepted.sealed {context : Option (κ × Text)} {s : Bytes} {rebuilt : Pack} {c : Option κ} {after : World}
    {expected created : Doc} (h : Accepted t now w o given a context z s rebuilt c after expected created) :
    w.pack.hasLink = false ∧ after.pack.hasLink = false ∧ Sealed t after.pack z a := by
  obtain ⟨l, hl⟩ := Option.isSome_iff_exists.mp h.strict
  have hp := (safeFiles_strict hl).2.2
  obtain ⟨hr, -⟩ := rebuild_reads h.rebuild hp
  obtain ⟨receipt, files, -, hm, hf, hzip, ha⟩ := h.steps
  obtain ⟨b, -, hb⟩ := writeManifest_iff.mp hm
  obtain ⟨hfl, -⟩ := Pack.write_read hr hb
  obtain ⟨hn, hmem⟩ := safeFiles_mem hfl hf
  obtain ⟨m, g, d, x, s', j, h1, h2, h3, h4, h5, h6, h7, h8, h9, h10⟩ := attestation_get ha
  have hget : ∀ k, k ≠ "created_at" → get a k = get expected k := fun k hk => by rw [← h.same, get_setCreatedAt hk]
  refine ⟨hp, hfl, ⟨files, hzip, hn, hmem⟩, ⟨m, h1, ?_⟩, ⟨g, d, x, h2, h3, h4, ?_⟩, ⟨s', h5, ?_⟩, ⟨j, h6, ?_⟩⟩
  · rw [hget _ (by decide), h7]
  · rw [hget _ (by decide), h8]
  · rw [hget _ (by decide), h9]
  · rw [hget _ (by decide), h10]

/-! ## Soundness -/

/-- An accepted seal is one of the pack exactly when its attestation is of version 7, or
the two files the verifier writes again without comparing them are the pack's own. -/
theorem sealed_iff (hzip : Function.Injective t.zip) (h : verifySealedReviewPack t now w o given = some a)
    (hz : w.read o.zip.place = some z) : Sealed t w.pack z a ↔ isV7 a ∨ OwnFiles t w.pack := by
  obtain ⟨context, z', s, rebuilt, c, after, expected, created, hacc⟩ := verify_iff.mp h
  cases hz.symm.trans hacc.zip
  obtain ⟨hp, hal, hsealed⟩ := hacc.sealed
  obtain ⟨hrl, hrr⟩ := rebuild_reads hacc.rebuild hp
  obtain ⟨receipt, files, -, hm, -⟩ := hacc.steps
  obtain ⟨b, hb, hw⟩ := writeManifest_iff.mp hm
  obtain ⟨-, hmr, hother⟩ := Pack.write_read hrl hw
  by_cases h7 : isV7 a
  · refine iff_of_true (hsealed.of_reads fun r => ?_) (.inl h7)
    by_cases hr : r ∈ exclusions
    · have := List.all_eq_true.mp (hacc.current h7).1 r hr
      rw [Bool.and_eq_true, decide_eq_true_eq] at this
      exact this.2.symm
    · rw [hother r (fun he => hr (by rw [he]; decide)), hrr r hr]
  · -- a baseline's pack: the governed root and the manifest are written again
    have hnone : context = none := by
      have := hacc.loaded
      unfold loadContext at this
      rw [if_neg h7] at this
      cases given <;> cases this
      rfl
    have hrebuild := hacc.rebuild
    rw [hnone] at hrebuild
    obtain ⟨-, -, d, hd, hy⟩ := rebuild_none_iff.mp hrebuild
    obtain ⟨-, hgr, -⟩ := Pack.write_read (p := copied t w.pack) hp hy
    constructor
    · intro hs
      refine .inr ?_
      obtain ⟨l, hl, -, hmem⟩ := hs.members
      obtain ⟨l', hl', -, hmem'⟩ := hsealed.members
      cases hzip (hl.trans hl'.symm)
      have heq : ∀ r, w.pack.read r = after.pack.read r := fun r => Option.ext fun c => by rw [← hmem, hmem']
      have hroot : w.pack.read governedRootFile = some (line d) := by rw [heq, hother _ (by decide), hgr]
      -- so writing the governed root changed nothing
      rw [Pack.write_same (p := copied t w.pack) (r := governedRootFile) (by decide) hp hroot] at hy
      cases hy
      exact ⟨by rw [hroot, hd]; rfl, by rw [heq, hmr, ← hb, copied_manifestOf]⟩
    · rintro (h7' | ⟨hroot, hman⟩)
      · exact absurd h7' h7
      rw [hd] at hroot
      rw [Pack.write_same (p := copied t w.pack) (r := governedRootFile) (by decide) hp hroot] at hy
      cases hy
      rw [← copied_manifestOf, hb] at hman
      have hsame := Pack.write_same (r := manifestFile) (by decide) hrl hman
      rw [hw] at hsame
      refine hsealed.of_reads fun r => ?_
      rw [Option.some.inj hsame, copied_read]

/-! ### The small pack, sealed -/

/-- The sealed small pack is verified, with its own manifest or with another. -/
theorem small_accepted : ∃ p b final files a,
    Written smallTools p smallReceipt b final files ∧ Verifiable smallTools p smallOutputs ∧
    ∀ q, Rewritten final q → ∃ w : World, w.pack = q ∧ w.read smallOutputs.zip.place = some (smallTools.zip files) ∧
      verifySealedReviewPack smallTools smallNow w smallOutputs .absent = some a := by
  obtain ⟨root, hl, hd, hrecord⟩ := small_record
  obtain ⟨p, b, final, files, a, hp, hw, ha, -⟩ := small_sealed ⟨hl, hd⟩ 3
  have hv := small_verifiable hrecord hp
  refine ⟨p, b, final, files, a, hw, hv, fun q hq => ?_⟩
  obtain ⟨hz, hs, hr⟩ := sealedWorld_read (t := smallTools) (p := q) (z := smallTools.zip files) (a := a)
    (f := fun _ => none) small_kept
  exact ⟨sealedWorld smallTools (fun _ => none) smallOutputs _ _ _ q (smallTools.zip files) a, rfl, hz,
    hw.verified hv hq (by decide +kernel) small_isNow ha hz hs hr⟩

theorem sealed_small : ∃ w z a, verifySealedReviewPack smallTools smallNow w smallOutputs .absent = some a ∧
    w.read smallOutputs.zip.place = some z ∧ Sealed smallTools w.pack z a := by
  obtain ⟨p, b, final, files, a, hw, hv, h⟩ := small_accepted
  obtain ⟨w, rfl, hz, ha⟩ := h final (.inl rfl)
  obtain ⟨-, hm, hr⟩ := Pack.write_read hv.unlinked hw.written
  refine ⟨w, _, a, ha, hz, (sealed_iff smallZip_injective ha hz).mpr (.inr ⟨?_, ?_⟩)⟩
  · rw [hr _ (by decide), hv.root, hw.record hv.unlinked (.inl rfl)]
  · rw [hm, manifestOf_manifest (hw.safe hv.unlinked).1 hw.written, hw.manifest]

/-- With its manifest emptied after the seal, the small pack is accepted still. -/
theorem emptied_manifest_accepted : ∃ w z a,
    verifySealedReviewPack smallTools smallNow w smallOutputs .absent = some a ∧
    w.read smallOutputs.zip.place = some z ∧ ¬Sealed smallTools w.pack z a := by
  obtain ⟨p, b, final, files, a, hw, hv, h⟩ := small_accepted
  obtain ⟨hfl, hm, -⟩ := Pack.write_read hv.unlinked hw.written
  obtain ⟨n, hn⟩ := (Pack.read_iff hfl).mp hm
  obtain ⟨q, hq⟩ : ∃ q, final.write manifestFile [] = some q := by
    have hput : put final.entries manifestFile [] =
        some (final.entries.map fun e => if e.1 = manifestFile then (e.1, e.2.overwrite []) else e) := by
      rw [put, if_neg (by decide), Pack.mem_entries.mp hn]
    unfold Pack.write
    split
    · next hnone =>
      rw [hput] at hnone
      cases hnone
    · exact ⟨_, rfl⟩
  obtain ⟨w, rfl, hz, ha⟩ := h q (.inr ⟨_, _, .inl rfl, hq⟩)
  refine ⟨w, _, a, ha, hz, fun hs => ?_⟩
  -- the archive has the manifest as it was
  obtain ⟨l, hl, -, hmem⟩ := hs.members
  obtain rfl : l = files := smallZip_injective hl
  have hlisted := (hmem manifestFile b).mp (((safeFiles_mem hfl hw.files).2 manifestFile b).mpr hm)
  rw [(Pack.write_read hfl hq).2.1] at hlisted
  have hb : manifestOf smallTools p = some [] := by rw [hw.manifest, Option.some.inj hlisted]
  simp only [manifestOf, Option.bind_eq_bind, Option.bind_eq_some_iff, Option.some.injEq] at hb
  obtain ⟨fs, -, hb⟩ := hb
  have hne : ∀ d, line d ≠ [] := by
    intro d hd
    have hlen := congrArg List.length hd
    rw [line, encode, List.flatMap_append, List.length_append] at hlen
    have : (['\n'.toNat].flatMap fun c => String.utf8EncodeChar (Char.ofNat c)).length = 1 := by decide
    simp only [List.length_nil] at hlen
    omega
  exact hne _ hb

end BettingHelper.Seal
