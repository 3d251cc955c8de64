/-
  BettingHelper.Store.Constraints — what the DDL lets a statement do.

  One insert for each table and the two UPDATEs of the gap transaction. A statement's
  condition is its CHECKs, its PRIMARY KEY and UNIQUE constraints, its immediate foreign
  keys and its BEFORE trigger, in the DDL's order; where it fails, `sqlite3.IntegrityError`
  is raised (`StoreError.integrity`). Deferred foreign keys are looked at on commit
  (`DeferredOk`).
-/

import Mathlib
import BettingHelper.Store.Schema

namespace BettingHelper.Store

-- the joins of the coherence triggers nest deeper than the default allows
set_option synthInstance.maxSize 512

inductive StoreError where
  /-- `sqlite3.IntegrityError`: a constraint or a trigger's RAISE(ABORT). -/
  | integrity
  /-- `E_STORE_DURABLE_CHAIN` -/
  | durableChain
  /-- `E_STORE_ACK_CHAIN` -/
  | ackChain
  deriving DecidableEq, Repr

/-- A statement whose condition is `p`. -/
def guarded (p : Prop) [Decidable p] (db : Db Int) : Except StoreError (Db Int) :=
  if p then .ok db else .error .integrity

/-! ## run_meta, coherence_epochs, coherence_controllers -/

def RunMetaOk (db : Db Int) (r : RunMeta Int) : Prop :=
  r.runStatus = .opened ∧ 0 ≤ r.createdAtUs ∧ ∀ s ∈ db.runMeta, s.runId ≠ r.runId
  deriving Decidable

def insertRunMeta (r : RunMeta Int) (db : Db Int) : Except StoreError (Db Int) :=
  guarded (RunMetaOk db r) { db with runMeta := db.runMeta ++ [r] }

def EpochOk (db : Db Int) (r : CoherenceEpoch Int) : Prop :=
  0 ≤ r.openedAtUs ∧
  (∀ s ∈ db.coherenceEpochs, s.coherenceEpochId ≠ r.coherenceEpochId ∧
    ¬(s.runId = r.runId ∧ s.fixtureId = r.fixtureId)) ∧
  ∃ m ∈ db.runMeta, m.runId = r.runId
  deriving Decidable

def insertEpoch (r : CoherenceEpoch Int) (db : Db Int) : Except StoreError (Db Int) :=
  guarded (EpochOk db r) { db with coherenceEpochs := db.coherenceEpochs ++ [r] }

def ControllerOk (db : Db Int) (r : CoherenceController Int) : Prop :=
  0 ≤ r.updatedAtUs ∧ r.controllerState ≠ .newEpochPending ∧
  (∀ s ∈ db.coherenceControllers, s.coherenceControllerId ≠ r.coherenceControllerId ∧
    ¬(s.runId = r.runId ∧ s.fixtureId = r.fixtureId)) ∧
  (∃ m ∈ db.runMeta, m.runId = r.runId) ∧
  ∀ s ∈ r.activeShockObservationId, ∃ o ∈ db.shockObservations, o.shockObservationId = s
  deriving Decidable

def insertController (r : CoherenceController Int) (db : Db Int) : Except StoreError (Db Int) :=
  guarded (ControllerOk db r) { db with coherenceControllers := db.coherenceControllers ++ [r] }

/-! ## stream_generations -/

/-- `successor_generation_requires_coherence_closure`. -/
def SuccessorGuard (db : Db Int) (r : StreamGeneration Int) : Prop :=
  0 < r.position.generation → ∃ gt ∈ db.generationTransitions, ∃ g ∈ db.gapRecords, ∃ b ∈ db.gapEpochBindings,
    ∃ t ∈ db.coherenceTransitions, ∃ c ∈ db.coherenceControllers, ∃ p ∈ db.streamGenerations,
      g.gapId = gt.gapId ∧ b.gapId = g.gapId ∧ t.coherenceTransitionId = b.coherenceTransitionId ∧
      c.coherenceControllerId = b.coherenceControllerId ∧ p.position.stream = r.position.stream ∧
      some p.position.generation = r.predecessorGeneration ∧ gt.stream = r.position.stream ∧
      some gt.predecessorGeneration = r.predecessorGeneration ∧
      gt.successorGeneration = r.position.generation ∧ p.generationState ≠ .active ∧
      t.predecessorEpochId = b.predecessorEpochId ∧ t.shockObservationId = b.shockObservationId ∧
      c.controllerState = .shockedClosed ∧ c.currentEpochId = b.predecessorEpochId
  deriving Decidable

/-- The table's own CHECKs. With a NULL predecessor the one on `predecessor_generation`
    is NULL for a positive generation, which passes. -/
def GenerationRowOk (r : StreamGeneration Int) : Prop :=
  0 ≤ r.openedAtUs ∧ (∀ t ∈ r.closedAtUs, r.openedAtUs ≤ t) ∧
  ((r.position.generation = 0 ∧ r.predecessorGeneration = none) ∨
    (0 < r.position.generation ∧ ∀ p ∈ r.predecessorGeneration, p = r.position.generation - 1)) ∧
  ((r.generationState = .active ∧ r.closedAtUs = none ∧ r.closeReason = none) ∨
    (r.generationState ≠ .active ∧ r.closedAtUs.isSome ∧ r.closeReason.isSome))
  deriving Decidable

def GenerationOk (db : Db Int) (r : StreamGeneration Int) : Prop :=
  GenerationRowOk r ∧
  (∀ g ∈ db.streamGenerations, g.generationId ≠ r.generationId ∧ g.position ≠ r.position ∧
    ¬(g.position.stream = r.position.stream ∧ g.generationState = .active ∧ r.generationState = .active)) ∧
  (∃ m ∈ db.runMeta, m.runId = r.position.stream.runId) ∧
  SuccessorGuard db r
  deriving Decidable

def insertGeneration (r : StreamGeneration Int) (db : Db Int) : Except StoreError (Db Int) :=
  guarded (GenerationOk db r) { db with streamGenerations := db.streamGenerations ++ [r] }

/-- `stream_generation_gap_close_requires_coherence`. -/
def GapCloseGuard (db : Db Int) (r : StreamGeneration Int) : Prop :=
  ∃ g ∈ db.gapRecords, ∃ b ∈ db.gapEpochBindings, ∃ t ∈ db.coherenceTransitions, ∃ c ∈ db.coherenceControllers,
    b.gapId = g.gapId ∧ t.coherenceTransitionId = b.coherenceTransitionId ∧
    c.coherenceControllerId = b.coherenceControllerId ∧ g.stream = r.position.stream ∧
    g.predecessorGeneration = r.position.generation ∧ some g.gapReason = r.closeReason ∧
    t.coherenceControllerId = c.coherenceControllerId ∧ t.predecessorEpochId = b.predecessorEpochId ∧
    t.shockObservationId = b.shockObservationId ∧ (t.fromState = .opened ∨ t.fromState = .newEpochOpen) ∧
    c.currentEpochId = b.predecessorEpochId ∧ c.controllerState = .shockedClosed ∧
    c.activeShockObservationId = some b.shockObservationId
  deriving Decidable

/-- `stream_generation_update_guard`, for an UPDATE that keeps the other columns. -/
def GenerationUpdateOk (db : Db Int) (old new : StreamGeneration Int) : Prop :=
  GenerationRowOk new ∧
  ((old.generationState = .active ∧ (new.generationState = .quarantinedGap ∨ new.generationState = .closed)) ∨
    (old.generationState = .quarantinedGap ∧ new.generationState = .closed)) ∧
  (old.generationState = .active ∧ new.generationState ≠ .active → GapCloseGuard db new)
  deriving Decidable

/-- `UPDATE stream_generations SET generation_state=?,closed_at_us=?,close_reason=? WHERE generation_id=?`. -/
def closeGeneration (state : GenerationState) (now : Int) (reason : GapReason) (id : RowId) (db : Db Int) :
    Except StoreError (Db Int) :=
  let set (g : StreamGeneration Int) : StreamGeneration Int :=
    { g with generationState := state, closedAtUs := some now, closeReason := some reason }
  guarded (∀ g ∈ db.streamGenerations, g.generationId = id → GenerationUpdateOk db g (set g))
    { db with streamGenerations := db.streamGenerations.map fun g => if g.generationId = id then set g else g }

/-! ## The durable chain -/

/-- `COALESCE((SELECT MAX(r.sequence) … r.disposition = 'APPLIED'), 0)`. -/
def maxApplied (db : Db Int) (p : Position) : Nat :=
  ((db.rawCommits.filter fun r => r.position = p ∧ r.disposition = .applied).map (·.sequence)).foldl max 0

/-- `raw_commits_position_guard`. -/
def RawPositionGuard (db : Db Int) (r : RawCommit Int) : Prop :=
  (r.disposition = .applied →
    (∃ g ∈ db.streamGenerations, g.position = r.position ∧ g.generationState = .active) ∧
    r.sequence = maxApplied db r.position + 1 ∧
    (r.sequence = 1 → r.previousCursorHash = h0) ∧
    (1 < r.sequence → ∃ c ∈ db.reducerCursors, c.position = r.position ∧
      c.highestContiguousSequence = r.sequence - 1 ∧ c.cursorHash = r.previousCursorHash)) ∧
  (r.disposition = .lateRepairOnly →
    ∃ g ∈ db.streamGenerations, g.position = r.position ∧ g.generationState ≠ .active)
  deriving Decidable

def RawCommitOk (db : Db Int) (r : RawCommit Int) : Prop :=
  1 ≤ r.sequence ∧ 0 ≤ r.committedAtUs ∧
  (∀ s ∈ db.rawCommits, s.rawCommitId ≠ r.rawCommitId ∧ s.rawObservationId ≠ r.rawObservationId ∧
    ¬(s.position = r.position ∧ s.sequence = r.sequence)) ∧
  (∃ g ∈ db.streamGenerations, g.position = r.position) ∧
  RawPositionGuard db r
  deriving Decidable

def insertRawCommit (r : RawCommit Int) (db : Db Int) : Except StoreError (Db Int) :=
  guarded (RawCommitOk db r) { db with rawCommits := db.rawCommits ++ [r] }

def RawConflictOk (db : Db Int) (r : RawConflict Int) : Prop :=
  1 ≤ r.sequence ∧ 0 ≤ r.detectedAtUs ∧
  (∀ s ∈ db.rawConflicts, s.rawConflictId ≠ r.rawConflictId ∧
    s.conflictingRawObservationId ≠ r.conflictingRawObservationId ∧
    ¬(s.position = r.position ∧ s.sequence = r.sequence ∧ s.conflictingContentHash = r.conflictingContentHash)) ∧
  ∃ c ∈ db.rawCommits, c.rawCommitId = r.existingRawCommitId ∧ c.position = r.position ∧ c.sequence = r.sequence
  deriving Decidable

def insertRawConflict (r : RawConflict Int) (db : Db Int) : Except StoreError (Db Int) :=
  guarded (RawConflictOk db r) { db with rawConflicts := db.rawConflicts ++ [r] }

/-- With `application_requires_applied_raw`, which subsumes the foreign keys. -/
def ApplicationOk (db : Db Int) (r : ApplicationRecord Int) : Prop :=
  1 ≤ r.sequence ∧ 0 ≤ r.appliedAtUs ∧
  (∀ s ∈ db.applicationRecords, s.applicationId ≠ r.applicationId ∧ s.rawCommitId ≠ r.rawCommitId ∧
    ¬(s.position = r.position ∧ s.sequence = r.sequence)) ∧
  ∃ c ∈ db.rawCommits, c.rawCommitId = r.rawCommitId ∧ c.position = r.position ∧ c.sequence = r.sequence ∧
    c.disposition = .applied ∧ c.rawObservationContentHash = r.rawObservationContentHash ∧
    c.previousCursorHash = r.inputCursorHash
  deriving Decidable

def insertApplication (r : ApplicationRecord Int) (db : Db Int) : Except StoreError (Db Int) :=
  guarded (ApplicationOk db r) { db with applicationRecords := db.applicationRecords ++ [r] }

/-- With `derived_revision_requires_application`. -/
def RevisionOk (db : Db Int) (r : DerivedRevision Int) : Prop :=
  1 ≤ r.sequence ∧ 1 ≤ r.revision ∧ 0 ≤ r.createdAtUs ∧
  (∀ s ∈ db.derivedRevisions, s.derivedRevisionId ≠ r.derivedRevisionId ∧ s.applicationId ≠ r.applicationId ∧
    s.rawCommitId ≠ r.rawCommitId ∧ ¬(s.position = r.position ∧ s.sequence = r.sequence) ∧
    ¬(s.position = r.position ∧ s.revision = r.revision)) ∧
  (∃ c ∈ db.rawCommits, c.rawCommitId = r.rawCommitId) ∧
  ∃ a ∈ db.applicationRecords, a.applicationId = r.applicationId ∧ a.rawCommitId = r.rawCommitId ∧
    a.position = r.position ∧ a.sequence = r.sequence
  deriving Decidable

def insertRevision (r : DerivedRevision Int) (db : Db Int) : Except StoreError (Db Int) :=
  guarded (RevisionOk db r) { db with derivedRevisions := db.derivedRevisions ++ [r] }

/-- With `reducer_cursor_requires_revision_and_raw`. -/
def ReducerCursorOk (db : Db Int) (r : ReducerCursor Int) : Prop :=
  1 ≤ r.highestContiguousSequence ∧ 0 ≤ r.advancedAtUs ∧
  (∀ s ∈ db.reducerCursors, s.reducerCursorId ≠ r.reducerCursorId ∧ s.derivedRevisionId ≠ r.derivedRevisionId ∧
    ¬(s.position = r.position ∧ s.highestContiguousSequence = r.highestContiguousSequence)) ∧
  ∃ d ∈ db.derivedRevisions, ∃ c ∈ db.rawCommits, c.rawCommitId = d.rawCommitId ∧
    d.derivedRevisionId = r.derivedRevisionId ∧ d.position = r.position ∧
    d.sequence = r.highestContiguousSequence ∧ c.rawObservationContentHash = r.rawObservationContentHash ∧
    c.previousCursorHash = r.previousCursorHash ∧ c.cursorHash = r.cursorHash
  deriving Decidable

def insertReducerCursor (r : ReducerCursor Int) (db : Db Int) : Except StoreError (Db Int) :=
  guarded (ReducerCursorOk db r) { db with reducerCursors := db.reducerCursors ++ [r] }

/-- With `ack_outbox_requires_complete_position`. -/
def AckOutboxOk (db : Db Int) (r : AckOutbox Int) : Prop :=
  1 ≤ r.highestContiguousSequence ∧ 0 ≤ r.committedAtUs ∧
  (∀ s ∈ db.ackOutbox, s.ackOutboxId ≠ r.ackOutboxId ∧ s.rawCommitId ≠ r.rawCommitId ∧
    s.applicationId ≠ r.applicationId ∧ s.derivedRevisionId ≠ r.derivedRevisionId ∧
    s.reducerCursorId ≠ r.reducerCursorId ∧
    ¬(s.position = r.position ∧ s.highestContiguousSequence = r.highestContiguousSequence)) ∧
  (∃ c ∈ db.reducerCursors, c.reducerCursorId = r.reducerCursorId ∧ c.position = r.position ∧
    c.highestContiguousSequence = r.highestContiguousSequence) ∧
  ∃ w ∈ db.rawCommits, ∃ a ∈ db.applicationRecords, ∃ d ∈ db.derivedRevisions, ∃ c ∈ db.reducerCursors,
    a.rawCommitId = w.rawCommitId ∧ d.applicationId = a.applicationId ∧ d.rawCommitId = w.rawCommitId ∧
    c.derivedRevisionId = d.derivedRevisionId ∧ w.rawCommitId = r.rawCommitId ∧
    a.applicationId = r.applicationId ∧ d.derivedRevisionId = r.derivedRevisionId ∧
    c.reducerCursorId = r.reducerCursorId ∧ w.position = r.position ∧
    w.sequence = r.highestContiguousSequence ∧ w.disposition = .applied ∧ c.cursorHash = r.cursorHash ∧
    c.highestContiguousSequence = r.highestContiguousSequence
  deriving Decidable

def insertAckOutbox (r : AckOutbox Int) (db : Db Int) : Except StoreError (Db Int) :=
  guarded (AckOutboxOk db r) { db with ackOutbox := db.ackOutbox ++ [r] }

/-- `ack_cursor_requires_durable_chain`. -/
def AckChainGuard (db : Db Int) (r : AckCursor Int) : Prop :=
  ¬((r.owner = .backend ∧ r.verifiedAgainst ≠ .backendDurableChain) ∨
    (r.owner = .extension ∧ r.verifiedAgainst ≠ .localSpoolChain)) ∧
  (r.highestContiguousSequence = 0 → r.cursorHash = h0 ∧ r.previousAckCursorId = none) ∧
  (0 < r.highestContiguousSequence → ∃ o ∈ db.ackOutbox, ∃ c ∈ db.reducerCursors, ∃ w ∈ db.rawCommits,
    c.reducerCursorId = o.reducerCursorId ∧ w.rawCommitId = o.rawCommitId ∧ o.position = r.position ∧
    o.highestContiguousSequence = r.highestContiguousSequence ∧ o.cursorHash = r.cursorHash ∧
    c.cursorHash = r.cursorHash ∧ w.sequence = r.highestContiguousSequence ∧ w.cursorHash = r.cursorHash ∧
    w.disposition = .applied) ∧
  (∀ p ∈ db.ackCursors, p.position = r.position → p.owner = r.owner →
    p.highestContiguousSequence < r.highestContiguousSequence) ∧
  (∀ i ∈ r.previousAckCursorId,
    some i = ((db.ackCursors.filter fun p => p.position = r.position ∧ p.owner = r.owner).argmax
      (·.highestContiguousSequence)).map (·.ackCursorId))
  deriving Decidable

def AckCursorOk (db : Db Int) (r : AckCursor Int) : Prop :=
  0 ≤ r.recordedAtUs ∧
  (∀ s ∈ db.ackCursors, s.ackCursorId ≠ r.ackCursorId ∧
    ¬(s.position = r.position ∧ s.owner = r.owner ∧ s.highestContiguousSequence = r.highestContiguousSequence)) ∧
  (∀ i ∈ r.previousAckCursorId, ∃ p ∈ db.ackCursors, p.ackCursorId = i) ∧
  (∃ g ∈ db.streamGenerations, g.position = r.position) ∧
  AckChainGuard db r
  deriving Decidable

def insertAckCursor (r : AckCursor Int) (db : Db Int) : Except StoreError (Db Int) :=
  guarded (AckCursorOk db r) { db with ackCursors := db.ackCursors ++ [r] }

/-! ## The gap transaction -/

def GapRecordOk (db : Db Int) (r : GapRecord Int) : Prop :=
  r.successorGeneration = r.predecessorGeneration + 1 ∧ 1 ≤ r.missingFromSequence ∧
  r.missingFromSequence ≤ r.missingToSequence ∧
  ((r.gapReason = .conflictingDuplicate ∧ r.missingFromSequence = r.missingToSequence ∧
      r.missingToSequence = r.detectedSequence) ∨
    (r.gapReason ≠ .conflictingDuplicate ∧ r.missingToSequence < r.detectedSequence)) ∧
  r.ackBlockedAfterSequence < r.missingFromSequence ∧ 0 ≤ r.createdAtUs ∧
  ∀ s ∈ db.gapRecords, s.gapId ≠ r.gapId ∧
    ¬(s.stream = r.stream ∧ s.predecessorGeneration = r.predecessorGeneration ∧
      s.missingFromSequence = r.missingFromSequence ∧ s.missingToSequence = r.missingToSequence)
  deriving Decidable

def insertGapRecord (r : GapRecord Int) (db : Db Int) : Except StoreError (Db Int) :=
  guarded (GapRecordOk db r) { db with gapRecords := db.gapRecords ++ [r] }

def ShockOk (db : Db Int) (r : ShockObservation Int) : Prop :=
  r.shockLowerBoundUs ≤ r.shockUpperBoundUs ∧ 0 ≤ r.createdAtUs ∧
  (∀ s ∈ db.shockObservations, s.shockObservationId ≠ r.shockObservationId) ∧
  ∃ m ∈ db.runMeta, m.runId = r.runId
  deriving Decidable

def insertShock (r : ShockObservation Int) (db : Db Int) : Except StoreError (Db Int) :=
  guarded (ShockOk db r) { db with shockObservations := db.shockObservations ++ [r] }

/-- With `coherence_transition_binding_guard` for SHOCK_ATOMIC_CLOSE. -/
def TransitionOk (db : Db Int) (r : CoherenceTransition Int) : Prop :=
  (r.fromState = .opened ∨ r.fromState = .newEpochOpen) ∧ 0 ≤ r.transitionedAtUs ∧
  (∀ s ∈ db.coherenceTransitions, s.coherenceTransitionId ≠ r.coherenceTransitionId) ∧
  (∃ e ∈ db.coherenceEpochs, e.coherenceEpochId = r.predecessorEpochId) ∧
  ∃ c ∈ db.coherenceControllers, ∃ s ∈ db.shockObservations, s.shockObservationId = r.shockObservationId ∧
    c.coherenceControllerId = r.coherenceControllerId ∧ c.fixtureId = r.fixtureId ∧
    c.currentEpochId = r.predecessorEpochId ∧ c.controllerState = r.fromState ∧ s.runId = c.runId ∧
    s.fixtureId = c.fixtureId
  deriving Decidable

def insertTransition (r : CoherenceTransition Int) (db : Db Int) : Except StoreError (Db Int) :=
  guarded (TransitionOk db r) { db with coherenceTransitions := db.coherenceTransitions ++ [r] }

/-- `coherence_controller_update_guard`, for the UPDATE that closes on a shock. -/
def ControllerShockOk (db : Db Int) (old : CoherenceController Int) (shock : RowId) (now : Int) : Prop :=
  (old.controllerState = .opened ∨ old.controllerState = .newEpochOpen) ∧ 0 ≤ now ∧
  (∃ t ∈ db.coherenceTransitions, t.coherenceControllerId = old.coherenceControllerId ∧
    t.fromState = old.controllerState ∧ t.predecessorEpochId = old.currentEpochId ∧ t.shockObservationId = shock) ∧
  ∃ s ∈ db.shockObservations, s.shockObservationId = shock
  deriving Decidable

/-- `UPDATE coherence_controllers SET controller_state='SHOCKED_CLOSED',… WHERE coherence_controller_id=?`. -/
def shockController (shock : RowId) (now : Int) (id : RowId) (db : Db Int) : Except StoreError (Db Int) :=
  let set (c : CoherenceController Int) : CoherenceController Int :=
    { c with controllerState := .shockedClosed, activeShockObservationId := some shock,
             controllerRevision := c.controllerRevision + 1, updatedAtUs := now }
  guarded (∀ c ∈ db.coherenceControllers, c.coherenceControllerId = id → ControllerShockOk db c shock now)
    { db with coherenceControllers :=
        db.coherenceControllers.map fun c => if c.coherenceControllerId = id then set c else c }

/-- With `gap_epoch_binding_requires_atomic_coherence_close`. -/
def BindingOk (db : Db Int) (r : GapEpochBinding Int) : Prop :=
  0 ≤ r.boundAtUs ∧
  (∀ s ∈ db.gapEpochBindings, s.gapEpochBindingId ≠ r.gapEpochBindingId ∧
    ¬(s.gapId = r.gapId ∧ s.predecessorEpochId = r.predecessorEpochId) ∧
    ¬(s.gapId = r.gapId ∧ s.coherenceTransitionId = r.coherenceTransitionId)) ∧
  ∃ g ∈ db.gapRecords, ∃ t ∈ db.coherenceTransitions, ∃ c ∈ db.coherenceControllers, ∃ s ∈ db.shockObservations,
    t.coherenceTransitionId = r.coherenceTransitionId ∧ c.coherenceControllerId = r.coherenceControllerId ∧
    s.shockObservationId = r.shockObservationId ∧ g.gapId = r.gapId ∧
    t.coherenceControllerId = r.coherenceControllerId ∧ t.predecessorEpochId = r.predecessorEpochId ∧
    t.shockObservationId = r.shockObservationId ∧ (t.fromState = .opened ∨ t.fromState = .newEpochOpen) ∧
    c.runId = g.stream.runId ∧ c.fixtureId = s.fixtureId ∧ c.currentEpochId = r.predecessorEpochId ∧
    c.controllerState = .shockedClosed ∧ c.activeShockObservationId = some r.shockObservationId ∧
    s.runId = g.stream.runId
  deriving Decidable

def insertBinding (r : GapEpochBinding Int) (db : Db Int) : Except StoreError (Db Int) :=
  guarded (BindingOk db r) { db with gapEpochBindings := db.gapEpochBindings ++ [r] }

def GenerationTransitionOk (db : Db Int) (r : GenerationTransition Int) : Prop :=
  r.successorGeneration = r.predecessorGeneration + 1 ∧ 0 ≤ r.transitionedAtUs ∧
  (∀ s ∈ db.generationTransitions, s.generationTransitionId ≠ r.generationTransitionId ∧ s.gapId ≠ r.gapId ∧
    ¬(s.stream = r.stream ∧ s.predecessorGeneration = r.predecessorGeneration ∧
      s.successorGeneration = r.successorGeneration)) ∧
  ∃ g ∈ db.gapRecords, g.gapId = r.gapId
  deriving Decidable

def insertGenerationTransition (r : GenerationTransition Int) (db : Db Int) : Except StoreError (Db Int) :=
  guarded (GenerationTransitionOk db r) { db with generationTransitions := db.generationTransitions ++ [r] }

/-! ## Commit -/

def hasGeneration (db : Db Int) (s : StreamKey) (n : Nat) : Prop := ∃ g ∈ db.streamGenerations, g.position = ⟨s, n⟩
  deriving Decidable

/-- The foreign keys declared DEFERRABLE INITIALLY DEFERRED. -/
def DeferredOk (db : Db Int) : Prop :=
  (∀ g ∈ db.streamGenerations, ∀ p ∈ g.predecessorGeneration, hasGeneration db g.position.stream p) ∧
  (∀ g ∈ db.gapRecords, hasGeneration db g.stream g.predecessorGeneration ∧
    hasGeneration db g.stream g.successorGeneration) ∧
  (∀ t ∈ db.generationTransitions, hasGeneration db t.stream t.predecessorGeneration ∧
    hasGeneration db t.stream t.successorGeneration) ∧
  (∀ b ∈ db.gapEpochBindings, (∃ e ∈ db.coherenceEpochs, e.coherenceEpochId = b.predecessorEpochId) ∧
    (∃ c ∈ db.coherenceControllers, c.coherenceControllerId = b.coherenceControllerId) ∧
    (∃ s ∈ db.shockObservations, s.shockObservationId = b.shockObservationId) ∧
    ∃ t ∈ db.coherenceTransitions, t.coherenceTransitionId = b.coherenceTransitionId) ∧
  ∀ c ∈ db.coherenceControllers, ∃ e ∈ db.coherenceEpochs, e.coherenceEpochId = c.currentEpochId
  deriving Decidable

/-- `with connection:` after BEGIN IMMEDIATE. The body's changes are kept when it ends
    without an exception of its own and the deferred foreign keys hold; else all are
    rolled back. What the body leaves to be raised after the commit is its second part. -/
def transact {ε α : Type} (ofStore : StoreError → ε) (body : Db Int → Except ε (Db Int × Except ε α)) (db : Db Int) :
    Db Int × Except ε α :=
  match body db with
  | .error e => (db, .error e)
  | .ok (db', result) => if DeferredOk db' then (db', result) else (db, .error (ofStore .integrity))

end BettingHelper.Store
