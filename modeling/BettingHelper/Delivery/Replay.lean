/-
  BettingHelper.Delivery.Replay — `replay.verify_replay_equivalence` and the projection it
  compares (`offline_projection.semantic_projection`).

  The rows of a journal are told again to the ledger with every time erased (`tellRow`).
  When the journal and its store tell the same story (`Tells`), a replay that returns from
  each call meets no outcome it does not expect (`replayAll_tells`).

  The run has no sqlite-faults.jsonl. The tables the projection wants empty are, since
  nothing writes them.
-/

import BettingHelper.Delivery.Site

namespace BettingHelper.Delivery

open BettingHelper.Store BettingHelper.Ingest BettingHelper.Lib BettingHelper.Lib.Crash

/-! ## offline_projection -/

/-- The integers of the rows the projection keeps, but for columns that only ever hold
    small literals. -/
def integers (db : Db Int) : List Nat :=
  db.rawCommits.flatMap (fun r => [r.position.generation, r.sequence]) ++
  db.rawConflicts.flatMap (fun r => [r.position.generation, r.sequence]) ++
  db.applicationRecords.flatMap (fun r => [r.position.generation, r.sequence]) ++
  db.derivedRevisions.flatMap (fun r => [r.position.generation, r.sequence, r.revision]) ++
  db.reducerCursors.flatMap (fun r => [r.position.generation, r.highestContiguousSequence]) ++
  db.ackOutbox.flatMap (fun r => [r.position.generation, r.highestContiguousSequence]) ++
  db.ackCursors.flatMap (fun r => [r.position.generation, r.highestContiguousSequence]) ++
  db.streamGenerations.flatMap (fun r => r.position.generation :: r.predecessorGeneration.toList) ++
  db.gapRecords.flatMap (fun r => [r.predecessorGeneration, r.successorGeneration, r.missingFromSequence,
    r.missingToSequence, r.detectedSequence, r.ackBlockedAfterSequence]) ++
  db.generationTransitions.flatMap (fun r => [r.predecessorGeneration, r.successorGeneration]) ++
  db.coherenceControllers.map (·.controllerRevision)

/-- `semantic_projection`. Each table is sorted by `rfc8785.dumps`, which refuses integers
    past `maxDumped`. -/
def semanticProjection (h : Hashes) (db : Db Int) : Except JournalError (Db Unit) :=
  (ofStore (validateJournal h.cursorStep db)).bind fun _ =>
  if ∀ n ∈ integers db, n ≤ maxDumped then .ok db.project else .error .integerDomain

/-- Every table has the same rows; `rfc8785.dumps` tells rows apart, so sorted they are equal. -/
def sameRows (a b : Db Unit) : Prop :=
  a.runMeta.Perm b.runMeta ∧ a.rawCommits.Perm b.rawCommits ∧ a.rawConflicts.Perm b.rawConflicts ∧
  a.applicationRecords.Perm b.applicationRecords ∧ a.derivedRevisions.Perm b.derivedRevisions ∧
  a.reducerCursors.Perm b.reducerCursors ∧ a.ackOutbox.Perm b.ackOutbox ∧ a.ackCursors.Perm b.ackCursors ∧
  a.streamGenerations.Perm b.streamGenerations ∧ a.gapRecords.Perm b.gapRecords ∧
  a.gapEpochBindings.Perm b.gapEpochBindings ∧ a.generationTransitions.Perm b.generationTransitions ∧
  a.coherenceEpochs.Perm b.coherenceEpochs ∧ a.coherenceControllers.Perm b.coherenceControllers ∧
  a.coherenceTransitions.Perm b.coherenceTransitions ∧ a.shockObservations.Perm b.shockObservations

instance (a b : Db Unit) : Decidable (sameRows a b) := by unfold sameRows; infer_instance

theorem sameRows_refl (a : Db Unit) : sameRows a a := by simp [sameRows]

/-! ## verify_replay_equivalence -/

inductive ReplayError where
  | journal (e : JournalError)
  /-- of `create_offline_run` -/
  | store (e : StoreError)
  /-- `KeyError`, of an OUTCOME row before its RECEIVED row -/
  | key
  /-- `E_OFFLINE_REPLAY_OUTCOME` -/
  | outcome
  /-- `E_OFFLINE_REPLAY_MISMATCH` -/
  | mismatch
  deriving DecidableEq, Repr

/-- `logical`: an outcome without `committed_at_us`. -/
def Outcome.logical : Outcome → Except RejectCode (AckOutbox Unit)
  | .applied acked => .ok acked.project
  | .rejected code => .error code

def ofJournal {α : Type} : Except JournalError α → Except ReplayError α
  | .ok a => .ok a
  | .error e => .error (.journal e)

variable (w : Wire) (h : Hashes)

/-- The replay directory and `applied`, the last entry first. -/
abbrev Replay := Disk × List (Nat × Outcome)

/-- One pass of the loop over the operations. -/
def replayOperation (now : Int) (op : Row × Option Observation) (s : Replay) : Except ReplayError Replay :=
  match op.1.body, op.2 with
  | .received n x, some o =>
    match (apply w h now o x.batchId s.1).result with
    | .error e => .error (.journal e)
    | .ok outcome => .ok ((apply w h now o x.batchId s.1).final s.1, (n, outcome) :: s.2)
  | .received _ _, none => .error .key
  | .outcome n recorded, _ =>
    match s.2.lookup n with
    | none => .error .key
    | some observed => if observed.logical ≠ recorded.logical then .error .outcome else .ok s
  | .ackConfirmation generation sequence cursorHash, _ =>
    match (recordAckConfirmation w h now generation sequence cursorHash s.1).result with
    | .error e => .error (.journal e)
    | .ok () => .ok ((recordAckConfirmation w h now generation sequence cursorHash s.1).final s.1, s.2)
  | .partialTail _ _, _ => .ok s

/-- The loop; `clock` is read once for a row. -/
def replayAll (clock : Nat → Int) : List (Row × Option Observation) → Replay → Except ReplayError Replay
  | [], s => .ok s
  | op :: ops, s => (replayOperation w h (clock op.1.rowIndex) op s).bind (replayAll clock ops)

/-- `verify_replay_equivalence`: the number of deliveries it reports. `clock` is read by
    `reconcile`, `created` and `replayClock` by the replay. -/
def verifyReplayEquivalence (clock : Nat → Int) (created : Int) (replayClock : Nat → Int) (d : Disk) :
    Except ReplayError Nat :=
  match (reconcile w h clock d).result with
  | .error e => .error (.journal e)
  | .ok _ =>
    let original := (reconcile w h clock d).final d
    (ofJournal (iterOperations w h original)).bind fun operations =>
    (ofJournal (semanticProjection h original.db)).bind fun expected =>
    match createOfflineRun h original.context created with
    | .error e => .error (.store e)
    | .ok db =>
      (replayAll w h replayClock operations (.fresh original.context db, [])).bind fun replay =>
      (ofJournal (semanticProjection h replay.1.db)).bind fun actual =>
      if ¬sameRows actual expected then .error .mismatch else .ok replay.2.length

/-! ## A journal told to a ledger -/

/-- A ledger without its times, and the outcome each delivery had, the last one first. -/
abbrev Told := Ledger × List (Nat × Except RejectCode (AckOutbox Unit))

variable {w h}

/-- What a row says happened, to a ledger whose times are erased. An OUTCOME row must say
    what the ledger decided. -/
def tellRow (h : Hashes) (d : Disk) (s : Told) (r : Row) : Option Told :=
  match r.body with
  | .received n x =>
    (d.rawFile x.rawHash).bind fun o =>
    match outcomeOf (s.1.apply h 0 o).2 with
    | .error _ => none
    | .ok outcome => some ((s.1.apply h 0 o).1, (n, outcome.logical) :: s.2)
  | .outcome n recorded => if s.2.lookup n = some recorded.logical then some s else none
  | .ackConfirmation generation sequence cursorHash =>
    (ackFor (s.1.log.map ack) generation sequence cursorHash).bind fun a =>
    match (s.1.confirmAck 0 (.row a)).2 with
    | .error _ => none
    | .ok _ => some ((s.1.confirmAck 0 (.row a)).1, s.2)
  | .partialTail _ _ => some s

/-- Told the rows from the start, the ledger becomes `L` with its times erased. -/
def Tells (h : Hashes) (d : Disk) (rs : List Row) (L : Ledger) : Prop :=
  ∃ seen, Keyed.run (tellRow h d) (Ledger.fresh d.context 0, []) rs = some (L.erase, seen)

variable {d : Disk} {L : Ledger} {rs : List Row}

theorem outcomeOf_timeless {r s : Except IngestError (AckOutbox Int)} (ht : timeless r = timeless s) {out : Outcome}
    (ho : outcomeOf r = .ok out) : ∃ out', outcomeOf s = .ok out' ∧ out'.logical = out.logical := by
  cases r with
  | error e =>
    cases s with
    | error e' =>
      cases ht
      exact ⟨out, ho, rfl⟩
    | ok a => cases ht
  | ok a =>
    cases s with
    | error e => cases ht
    | ok a' =>
      cases ho
      exact ⟨_, rfl, congrArg Except.ok (Except.ok.inj ht).symm⟩

/-- An erased ledger decides as the ledger does, the clock standing after its creation. -/
theorem apply_told (hs : L.Sound h) {now : Int} {o : Observation} (hnow : L.createdAtUs ≤ now) :
    (L.apply h now o).1.erase = (L.erase.apply h 0 o).1 ∧ ∀ out, outcomeOf (L.apply h now o).2 = .ok out →
      ∃ out', outcomeOf (L.erase.apply h 0 o).2 = .ok out' ∧ out'.logical = out.logical := by
  have ht := Ledger.apply_erase (h := h) hs.created now o
  obtain ⟨h1, h2⟩ := ht.resolve_right fun hx => by omega
  exact ⟨h1, fun out ho => outcomeOf_timeless h2 ho⟩

/-! ## The replay follows the telling -/

/-- The acknowledgement a row names, with and without its time. -/
theorem ackFor_erase (g q : DecimalText) (x : Digest) (L : Ledger) :
    (ackFor (L.log.map ack) g q x = none ∧ ackFor (L.erase.log.map ack) g q x = none) ∨
    ∃ c ∈ L.log, ackFor (L.log.map ack) g q x = some (ack c) ∧
      ackFor (L.erase.log.map ack) g q x = some (ack (Commit.erase c)) := by
  unfold ackFor
  rw [Ledger.erase_log, List.find?_map, List.map_map, List.find?_map]
  have hsame : ∀ c : Commit, ((fun r : AckOutbox Int => decide (r.position.generation = g.value ∧
      r.highestContiguousSequence = q.value ∧ r.cursorHash = x)) ∘ (ack ∘ Commit.erase)) c =
      ((fun r : AckOutbox Int => decide (r.position.generation = g.value ∧ r.highestContiguousSequence = q.value ∧
        r.cursorHash = x)) ∘ ack) c := fun c => rfl
  rw [funext hsame]
  cases hf : L.log.find? ((fun r : AckOutbox Int => decide (r.position.generation = g.value ∧
      r.highestContiguousSequence = q.value ∧ r.cursorHash = x)) ∘ ack) with
  | none => exact .inl ⟨rfl, rfl⟩
  | some c => exact .inr ⟨c, List.mem_of_find?_eq_some hf, rfl, rfl⟩

/-- The replay's store is the told ledger's but for its times, and the outcomes it had are
    those told. -/
structure Keeping (w : Wire) (h : Hashes) (s : Replay) (t : Told) (L : Ledger) : Prop where
  site : Site w h s.1 L
  erase : L.erase = t.1
  seen : s.2.map (fun p => (p.1, p.2.logical)) = t.2

theorem lookup_logical (n : Nat) (l : List (Nat × Outcome)) :
    (l.map fun p => (p.1, p.2.logical)).lookup n = (l.lookup n).map (·.logical) := by
  induction l with
  | nil => rfl
  | cons p l ih =>
    obtain ⟨m, outcome⟩ := p
    simp only [List.map_cons, List.lookup_cons]
    cases n == m with
    | true => rfl
    | false => exact ih

/-- One operation of the replay fails in the replay's own journal or store, or keeps to
    what is told. -/
theorem replayOperation_told {s : Replay} {t t' : Told} {N : Ledger} (hk : Keeping w h s t N) {r : Row} {now : Int}
    (hnow : N.createdAtUs ≤ now) (ht : tellRow h d t r = some t') :
    (∃ e, replayOperation w h now (r, Site.observationOf d r) s = .error (.journal e)) ∨
    ∃ s' N', replayOperation w h now (r, Site.observationOf d r) s = .ok s' ∧ Keeping w h s' t' N' ∧
      N'.createdAtUs = N.createdAtUs := by
  obtain ⟨hs, he, hseen⟩ := hk
  obtain ⟨e, applied⟩ := s
  obtain ⟨M, seen⟩ := t
  unfold tellRow at ht
  unfold replayOperation Site.observationOf
  cases hb : r.body with
  | received n x =>
    simp only [hb, Option.bind_eq_some_iff] at ht
    obtain ⟨o, hf, ht⟩ := ht
    simp only [hf]
    cases hres : (apply w h now o x.batchId e).result with
    | error err => exact .inl ⟨err, rfl⟩
    | ok out =>
      right
      obtain ⟨rs, hr, hrec, hv, ha, hout, hfin⟩ := apply_returned hres
      have hres' : (Ingest.apply h now o e.db).2 = (N.apply h now o).2 := by
        rw [hs.tables, Ledger.apply_tables hs.sound]
      rw [hres'] at hout
      obtain ⟨h1, h2⟩ := apply_told hs.sound (o := o) hnow
      obtain ⟨out', hout', hlog⟩ := h2 out hout
      have heM : N.erase = M := he
      rw [heM] at h1 hout'
      simp only [hout', Option.some.injEq] at ht
      subst ht
      refine ⟨_, (N.apply h now o).1, rfl, ⟨?_, h1, ?_⟩, (Ledger.apply_change (h := h) now o).createdAtUs⟩
      · simp only [hfin]
        exact hs.answered hr hrec hv ha out
      · simp only [List.map_cons, hlog]
        exact congrArg _ hseen
  | outcome n recorded =>
    simp only [hb] at ht
    split_ifs at ht with hl
    cases ht
    right
    have hl' : (applied.lookup n).map (·.logical) = some recorded.logical := by
      rw [← lookup_logical]
      exact (congrArg (List.lookup n) hseen).trans hl
    obtain ⟨observed, ho, hlog⟩ := Option.map_eq_some_iff.mp hl'
    simp only [ho, hlog, ne_eq, not_true_eq_false, if_false]
    exact ⟨_, N, rfl, ⟨hs, he, hseen⟩, rfl⟩
  | ackConfirmation g q x =>
    simp only [hb, Option.bind_eq_some_iff] at ht
    obtain ⟨a, hf, ht⟩ := ht
    have heM : N.erase = M := he
    rw [← heM] at hf
    simp only
    cases hres : (recordAckConfirmation w h now g q x e).result with
    | error err => exact .inl ⟨err, rfl⟩
    | ok u =>
      right
      obtain ⟨b, rs, hb', hc, hr, hfin⟩ := recordAckConfirmation_returned hres
      rw [hs.tables] at hb' hc
      rcases ackFor_erase g q x N with ⟨-, hnone⟩ | ⟨c, hcl, hc1, hc2⟩
      · rw [hnone] at hf
        cases hf
      · have hbc : b = ack c := Option.some.inj (hb'.symm.trans hc1)
        have hac : a = ack (Commit.erase c) := Option.some.inj (hf.symm.trans hc2)
        subst hbc hac
        have hnow0 : 0 ≤ now := Int.le_trans hs.sound.created hnow
        obtain ⟨h1, h2⟩ := Ledger.confirmAck_erase hcl hnow0
        rw [heM] at h1 h2
        have ht' : t' = ((M.confirmAck 0 (.row (ack (Commit.erase c)))).1, seen) := by
          split at ht
          · cases ht
          · exact (Option.some.inj ht).symm
        subst ht'
        refine ⟨_, (N.confirmAck now (.row (ack c))).1, rfl, ⟨?_, h1, hseen⟩,
          (Ledger.confirmAck_change now _).createdAtUs⟩
        simp only [hfin]
        refine (hs.confirmed (.row (ack c)) now).appended ?_ trivial trivial
        exact hr
  | partialTail a x =>
    simp only [hb, Option.some.injEq] at ht
    subst ht
    exact .inr ⟨_, N, rfl, ⟨hs, he, hseen⟩, rfl⟩

/-- So does the whole replay. -/
theorem replayAll_told {clock : Nat → Int} {l : List Row} {s : Replay} {t t' : Told} {N : Ledger} (hk : Keeping w h s t N)
    (hclock : ∀ n, N.createdAtUs ≤ clock n) (ht : Keyed.run (tellRow h d) t l = some t') :
    (∃ e, replayAll w h clock (l.map fun r => (r, Site.observationOf d r)) s = .error (.journal e)) ∨
    ∃ s' N', replayAll w h clock (l.map fun r => (r, Site.observationOf d r)) s = .ok s' ∧ Keeping w h s' t' N' := by
  induction l generalizing s t N with
  | nil =>
    cases ht
    exact .inr ⟨s, N, rfl, hk⟩
  | cons r l ih =>
    unfold Keyed.run at ht
    simp only [List.map_cons, replayAll]
    cases hrow : tellRow h d t r with
    | none =>
      rw [hrow] at ht
      cases ht
    | some u =>
      rw [hrow] at ht
      rcases replayOperation_told hk (hclock r.rowIndex) hrow with ⟨e, he⟩ | ⟨s', N', he, hk', hcr⟩
      · exact .inl ⟨e, by rw [he]; rfl⟩
      · rw [he]
        exact ih hk' (fun n => by rw [hcr]; exact hclock n) ht

/-- A replay of a journal that tells its store's story raises no E_OFFLINE_REPLAY_OUTCOME. -/
theorem verify_no_outcome {clock replayClock : Nat → Int} {created : Int} (hclock : ∀ n, created ≤ replayClock n)
    (ht : ∀ n, (reconcile w h clock d).result = .ok n → ∃ L, Site w h ((reconcile w h clock d).final d) L ∧
      Tells h ((reconcile w h clock d).final d) ((reconcile w h clock d).final d).journalRows L) :
    verifyReplayEquivalence w h clock created replayClock d ≠ .error .outcome := by
  unfold verifyReplayEquivalence
  cases hrec : (reconcile w h clock d).result with
  | error e => simp
  | ok n =>
    obtain ⟨L, hs, seen, htell⟩ := ht n hrec
    cases hrows : rows w ((reconcile w h clock d).final d) with
    | error e => simp [iterOperations, hrows, ofJournal, Except.bind]
    | ok rs =>
    rw [rows_journalRows hrows] at htell
    simp only [hs.iterOperations_eq hrows, ofJournal, Except.bind]
    cases hp : semanticProjection h ((reconcile w h clock d).final d).db with
    | error e => simp
    | ok expected =>
      cases hc : createOfflineRun h ((reconcile w h clock d).final d).context created with
      | error e => simp
      | ok db =>
        have hk : Keeping w h (.fresh ((reconcile w h clock d).final d).context db, [])
            (Ledger.fresh ((reconcile w h clock d).final d).context 0, [])
            (Ledger.fresh ((reconcile w h clock d).final d).context created) :=
          ⟨site_fresh hc, rfl, rfl⟩
        rcases replayAll_told hk hclock htell with ⟨e, he⟩ | ⟨s', N', he, hk'⟩
        · simp [he]
        · simp only [he]
          cases hp' : semanticProjection h s'.1.db with
          | error e => simp
          | ok actual =>
            simp only [ne_eq]
            split_ifs <;> simp

end BettingHelper.Delivery
