/-
  BettingHelper.Delivery.Verdict — what the ingest makes of a delivered observation.

  `validate_synthetic_observation` lets only observations of the context's generation
  through, and that is generation 0: until the ledger is ruptured each is applied, a
  duplicate, or ruptures it, and afterwards each finds its generation closed
  (`apply_verdict`). What the store keeps of an observation is how `reconcile` tells its
  outcome later (`found`).
-/

import BettingHelper.Delivery.InputJournal
import BettingHelper.Ingest.Clock

namespace BettingHelper.Delivery

open BettingHelper.Store BettingHelper.Ingest BettingHelper.Lib

variable {h : Hashes} {L : Ledger} {c : Context} {o : Observation} {now : Int}

theorem validate_ok (hv : validateSyntheticObservation h c o = .ok ()) :
    (o.observationKind = .terminal ∧ o.contextKind = .runBoundNotDocument ∧ o.discoveryRunId = c.runId ∧
      o.browserRunId = c.browserRunId ∧ o.streamId = c.streamId ∧ o.generation = c.generation) ∧
    o.contentHash = plain (h.rawObservation o.toObservationContent) := by
  unfold validateSyntheticObservation at hv
  split_ifs at hv with h1 h2
  simp only [not_or, not_not] at h1 h2
  exact ⟨h1, h2⟩

/-- The observation is of this run's build, and its number fits a column. -/
def Taken (L : Ledger) (o : Observation) : Prop :=
  o.packHash = plain L.context.vendorSha256.value ∧ o.buildHash = plain L.context.codeSha256.value ∧
    o.sequence.value ≤ maxInteger

/-- The code an Ingestor.apply fails with on a rupture. -/
def ruptureError : Cause → IngestError
  | .missing => .gap
  | .conflict _ _ => .conflict

/-- What an apply does to the ledger and gives. -/
inductive Verdict (h : Hashes) (L : Ledger) (now : Int) (o : Observation) :
    Ledger → Except IngestError (AckOutbox Int) → Prop
  | refused (e : IngestError) : ¬Taken L o → e = .integerRange ∨ e = .runBinding → Verdict h L now o L (.error e)
  | closed : Taken L o → L.rupture.isSome → Verdict h L now o L (.error .generationClosed)
  | duplicate (d : Commit) : Taken L o → L.rupture = none → d ∈ L.log → d.key = L.position 0 →
      d.seq = o.sequence.value → d.payload.contentHash = o.contentHash.value → Verdict h L now o L (.ok (ack d))
  | failed : Taken L o → L.rupture = none → (∀ d ∈ L.log, d.key = L.position 0 → d.seq = o.sequence.value →
      d.payload.contentHash ≠ o.contentHash.value) → Verdict h L now o L (.error (.store .integrity))
  | applied : Taken L o → L.rupture = none → o.sequence.value = Chain.height L.log (L.position 0) + 1 →
      L.committable h now o →
      Verdict h L now o (L.append (L.nextCommit h now o) false) (.ok (ack (L.nextCommit h now o)))
  | ruptured (cause : Cause) : Taken L o → L.rupture = none → (∀ d ∈ L.log, d.key = L.position 0 →
      d.seq = o.sequence.value → d.payload.contentHash ≠ o.contentHash.value) →
      Verdict h L now o { L with rupture := some ⟨cause, Chain.height L.log (L.position 0), o.sequence.value,
        o.contentHash.value, now⟩ } (.error (ruptureError cause))

theorem active_none (hr : L.rupture = none) : L.active = 0 := by simp [Ledger.active, hr]

theorem breakOff_verdict (cause : Cause) (ht : Taken L o) (hr : L.rupture = none) (hd : ∀ d ∈ L.log,
    d.key = L.position 0 → d.seq = o.sequence.value → d.payload.contentHash ≠ o.contentHash.value) :
    Verdict h L now o (L.breakOff h now cause o (ruptureError cause)).1
      (L.breakOff h now cause o (ruptureError cause)).2 := by
  unfold Ledger.breakOff
  rw [hr]
  simp only
  split_ifs
  · exact .ruptured cause ht hr hd
  · exact .failed ht hr hd

theorem advance_verdict (hs : L.Sound h) (ht : Taken L o) (hr : L.rupture = none) :
    Verdict h L now o (L.advance h now o).1 (L.advance h now o).2 := by
  unfold Ledger.advance
  rw [active_none hr]
  cases hf : L.commitAt 0 o.sequence.value with
  | some d =>
    obtain ⟨hd, hk, hq⟩ := Ledger.commitAt_some hf
    simp only
    split_ifs with he
    · exact .duplicate d ht hr hd hk hq he
    all_goals
      have hno : ∀ e ∈ L.log, e.key = L.position 0 → e.seq = o.sequence.value →
          e.payload.contentHash ≠ o.contentHash.value := by
        intro e hem hek heq
        rw [Chain.link_unique hs.linked hem hd (hek.trans hk.symm) (heq.trans hq.symm)]
        exact he
    · exact breakOff_verdict _ ht hr hno
    · exact .failed ht hr hno
  | none =>
    have hlt := Ledger.commitAt_none hs o.sequencePos hf
    have hno : ∀ e ∈ L.log, e.key = L.position 0 → e.seq = o.sequence.value →
        e.payload.contentHash ≠ o.contentHash.value := by
      intro d hd hk hdq
      have hb := (Chain.seq_bounds hs.linked hd).2
      rw [hk, hdq] at hb
      omega
    simp only
    split_ifs with hq
    · unfold Ledger.commit
      split_ifs with hc
      · exact .applied ht hr hq hc
      · exact .failed ht hr hno
    · exact breakOff_verdict .missing ht hr hno

/-- An apply changes the ledger by a commit or by a rupture. -/
theorem Verdict.change {L' : Ledger} {r : Except IngestError (AckOutbox Int)} (hv : Verdict h L now o L' r) : L' = L ∨
    (Taken L o ∧ L.rupture = none ∧ o.sequence.value = Chain.height L.log (L.position 0) + 1 ∧ L.committable h now o ∧
      L' = L.append (L.nextCommit h now o) false ∧ r = .ok (ack (L.nextCommit h now o))) ∨
    ∃ cause, Taken L o ∧ L.rupture = none ∧ (∀ d ∈ L.log, d.key = L.position 0 → d.seq = o.sequence.value →
      d.payload.contentHash ≠ o.contentHash.value) ∧ L' = { L with rupture := some ⟨cause,
        Chain.height L.log (L.position 0), o.sequence.value, o.contentHash.value, now⟩ } ∧
      r = .error (ruptureError cause) := by
  cases hv with
  | refused e _ _ => exact .inl rfl
  | closed _ _ => exact .inl rfl
  | duplicate d _ _ _ _ _ _ => exact .inl rfl
  | failed _ _ _ => exact .inl rfl
  | applied ht hr hq hc => exact .inr (.inl ⟨ht, hr, hq, hc, rfl, rfl⟩)
  | ruptured cause ht hr hd => exact .inr (.inr ⟨cause, ht, hr, hd, rfl, rfl⟩)

/-- Every apply of an observation that passed the validation is one of these. -/
theorem apply_verdict (hs : L.Sound h) (hc : L.context = c) (hv : validateSyntheticObservation h c o = .ok ()) :
    Verdict h L now o (L.apply h now o).1 (L.apply h now o).2 := by
  obtain ⟨⟨hkind, -, hrun, hbrowser, hstream, hgen⟩, hhash⟩ := validate_ok hv
  have hg : o.generation.value = 0 := by rw [hgen, ← hc]; exact hs.firstGeneration
  have hadm : admissible h o = if maxInteger < o.sequence.value then .error .integerRange else .ok () := by
    unfold admissible
    rw [if_neg (not_not.mpr hhash), if_neg (by rw [hkind]; simp)]
    simp [hg]
  have hbound : L.bound o ↔ o.packHash = plain L.context.vendorSha256.value ∧
      o.buildHash = plain L.context.codeSha256.value := by
    unfold Ledger.bound Ledger.stream
    rw [hc]
    exact ⟨fun hb => hb.2, fun hb => ⟨hrun.symm, hb⟩⟩
  unfold Ledger.apply
  rw [hadm]
  by_cases hq : maxInteger < o.sequence.value
  · rw [if_pos hq]
    exact .refused _ (fun ht => absurd ht.2.2 (Nat.not_le.mpr hq)) (.inl rfl)
  · rw [if_neg hq]
    simp only
    by_cases hb : L.bound o
    · have ht : Taken L o := ⟨(hbound.mp hb).1, (hbound.mp hb).2, Nat.not_lt.mp hq⟩
      have hpos : ¬(L.stream.browserRunId ≠ o.browserRunId ∨ L.stream.streamId ≠ o.streamId ∨
          L.active < o.generation.value) := by
        rw [Ledger.stream, hc, hg]
        simp [Context.stream, hbrowser, hstream]
      rw [if_neg (not_not.mpr hb), if_neg hpos]
      rcases Ledger.active_cases (L := L) with ⟨hr, ha⟩ | ⟨⟨r, hr⟩, ha⟩
      · rw [if_neg (by omega)]
        exact advance_verdict hs ht hr
      · rw [if_pos (by omega)]
        exact .closed ht (by rw [hr]; rfl)
    · rw [if_pos hb]
      exact .refused _ (fun ht => hb (hbound.mpr ⟨ht.1, ht.2.1⟩)) (.inr rfl)

/-! ## What the store keeps of an observation -/

/-- The outcome `reconcile` reads off the store for a content hash: that of the gap it
    opened, else the ACK of its commit. -/
def found (L : Ledger) (x : Digest) : Option Outcome :=
  match L.rupture.filter (·.digest = x) with
  | some r => some (.rejected (gapCode r.cause.reason))
  | none => (L.log.find? (·.payload.contentHash = x)).map fun d => .applied (ack d)

theorem found_gap (x : Digest) : (L.tables h).gapRecords.find? (·.gapId = ⟨.gap, x⟩) =
    (L.rupture.filter (·.digest = x)).map (·.gapRow L.stream) := by
  simp only [Ledger.tables]
  rcases L.rupture with _ | ⟨_ | ⟨y, z⟩, hi, n, e, u⟩
  · rfl
  all_goals by_cases he : e = x <;> simp [Rupture.gapRow, Option.filter, he]

theorem found_ack (hs : L.Sound h) (x : Digest) : (L.tables h).ackOutbox.find? (fun a => ∃ r ∈ (L.tables h).rawCommits,
    a.rawCommitId = r.rawCommitId ∧ r.rawObservationContentHash = x) =
    (L.log.find? (·.payload.contentHash = x)).map Ingest.ack := by
  change (L.log.map Ingest.ack).find? _ = _
  rw [List.find?_map]
  rw [← List.head?_filter, ← List.head?_filter]
  congr 2
  refine List.filter_congr fun d hd => ?_
  simp only [Function.comp_apply, decide_eq_decide]
  constructor
  · intro ⟨r, hr, hid, hx⟩
    obtain ⟨e, he, rfl⟩ := List.mem_map.mp hr
    cases hl : e.late with
    | true => simp [Ingest.ack, Entry.raw, hl] at hid
    | false =>
      have hel : e.commit ∈ L.log := by
        rw [Ledger.mem_log]
        cases e
        subst hl
        exact he
      have hcur : d.cursor = e.commit.cursor := by simpa [Ingest.ack, Entry.raw, hl] using hid
      rw [List.inj_on_of_nodup_map hs.cursors hd hel hcur]
      exact hx
  · intro hx
    exact ⟨_, List.mem_map_of_mem (Ledger.mem_log.mp hd), rfl, hx⟩

end BettingHelper.Delivery
