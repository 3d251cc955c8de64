/-
  BettingHelper.Store.Schema — the tables of one run's SQLite store
  (vendor/hybrid-discovery-v6.3.6/sql/discovery-store-v1.sql), as the offline journal
  uses them: the sixteen tables of `store.TABLES`.

  Rows are over the type of their physical-time columns. The store itself has the
  microseconds of `time_ns() // 1000` there (`Int`); the replay projection leaves
  those columns out (`Unit`, `Db.project`).

  A hex digest is the 256-bit value it spells, so the DDL's length and GLOB checks on
  digests hold by typing. An id such as `raw:<digest>` is its prefix and its digest. A
  column for which every INSERT of the code writes one literal, and which no UPDATE
  touches, is not kept.
-/

import Mathlib

namespace BettingHelper.Store

/-- The value of a `sha256(...).hexdigest()`. -/
abbrev Digest := BitVec 256

/-- The universal seed of every cursor chain (`ingest.H0`). -/
def h0 : Digest := 0x149300a0e3954885a1d6c0f13a9d1101227cc21cce37bd6b7c72eab641741c0c#256

inductive Tag where
  | raw
  | lateRepair
  | application
  | revision
  | cursor
  | ack
  | confirmation
  | conflict
  | gap
  | shock
  | transition
  | binding
  | generationTransition
  | generation
  | epoch
  | controller
  deriving DecidableEq, Repr

/-- An id of the form `<prefix>:<digest>`. -/
structure RowId where
  tag : Tag
  digest : Digest
  deriving DecidableEq, Repr

/-- The columns `run_id, browser_run_id, producer_id, stream_id`. -/
structure StreamKey where
  runId : String
  browserRunId : String
  producerId : String
  streamId : String
  deriving DecidableEq, Repr

/-- `store.KEY`: a stream and one generation of it. -/
structure Position where
  stream : StreamKey
  generation : Nat
  deriving DecidableEq, Repr

inductive RunStatus where
  | opened
  | closed
  | destructionPending
  deriving DecidableEq, Repr

inductive GenerationState where
  | active
  | quarantinedGap
  | closed
  deriving DecidableEq, Repr

/-- The reasons `_gap` is called with; they are also the `close_reason` it writes. -/
inductive GapReason where
  | missingSequence
  | conflictingDuplicate
  deriving DecidableEq, Repr

inductive RepairStatus where
  | opened
  | historyRepairedEpochRemainsClosed
  | resnapshotNewGeneration
  | terminal
  deriving DecidableEq, Repr

inductive Disposition where
  | applied
  | lateRepairOnly
  | quarantinedSchema
  deriving DecidableEq, Repr

inductive AckOwner where
  | extension
  | backend
  deriving DecidableEq, Repr

inductive VerifiedAgainst where
  | localSpoolChain
  | backendDurableChain
  deriving DecidableEq, Repr

inductive ControllerState where
  | opened
  | shockedClosed
  | waitingForResnapshot
  | newEpochPending
  | newEpochOpen
  deriving DecidableEq, Repr

inductive ShockType where
  | sequenceGap
  | schemaConflict
  deriving DecidableEq, Repr

inductive TransitionReason where
  | gap
  | conflict
  deriving DecidableEq, Repr

/-! ## Rows -/

structure RunMeta (τ : Type) where
  runId : String
  runStatus : RunStatus
  packHash : Digest
  buildHash : Digest
  createdAtUs : τ
  deriving DecidableEq, Repr

structure StreamGeneration (τ : Type) where
  generationId : RowId
  position : Position
  predecessorGeneration : Option Nat
  generationState : GenerationState
  openedAtUs : τ
  closedAtUs : Option τ
  closeReason : Option GapReason
  deriving DecidableEq, Repr

structure RawCommit (τ : Type) where
  rawCommitId : RowId
  position : Position
  sequence : Nat
  rawObservationId : String
  rawObservationContentHash : Digest
  previousCursorHash : Digest
  cursorHash : Digest
  disposition : Disposition
  committedAtUs : τ
  deriving DecidableEq, Repr

structure RawConflict (τ : Type) where
  rawConflictId : RowId
  existingRawCommitId : RowId
  position : Position
  sequence : Nat
  conflictingRawObservationId : String
  conflictingContentHash : Digest
  detectedAtUs : τ
  deriving DecidableEq, Repr

structure ApplicationRecord (τ : Type) where
  applicationId : RowId
  rawCommitId : RowId
  position : Position
  sequence : Nat
  rawObservationContentHash : Digest
  inputCursorHash : Digest
  appliedAtUs : τ
  deriving DecidableEq, Repr

structure DerivedRevision (τ : Type) where
  derivedRevisionId : RowId
  applicationId : RowId
  rawCommitId : RowId
  position : Position
  sequence : Nat
  revision : Nat
  previousRevisionHash : Option Digest
  revisionHash : Digest
  createdAtUs : τ
  deriving DecidableEq, Repr

structure ReducerCursor (τ : Type) where
  reducerCursorId : RowId
  derivedRevisionId : RowId
  position : Position
  highestContiguousSequence : Nat
  previousCursorHash : Digest
  cursorHash : Digest
  rawObservationContentHash : Digest
  advancedAtUs : τ
  deriving DecidableEq, Repr

structure AckOutbox (τ : Type) where
  ackOutboxId : RowId
  rawCommitId : RowId
  applicationId : RowId
  derivedRevisionId : RowId
  reducerCursorId : RowId
  position : Position
  highestContiguousSequence : Nat
  cursorHash : Digest
  committedAtUs : τ
  deriving DecidableEq, Repr

structure AckCursor (τ : Type) where
  ackCursorId : RowId
  position : Position
  owner : AckOwner
  highestContiguousSequence : Nat
  cursorHash : Digest
  verifiedAgainst : VerifiedAgainst
  previousAckCursorId : Option RowId
  recordedAtUs : τ
  deriving DecidableEq, Repr

structure GapRecord (τ : Type) where
  gapId : RowId
  stream : StreamKey
  predecessorGeneration : Nat
  successorGeneration : Nat
  missingFromSequence : Nat
  missingToSequence : Nat
  detectedSequence : Nat
  gapReason : GapReason
  repairStatus : RepairStatus
  ackBlockedAfterSequence : Nat
  createdAtUs : τ
  deriving DecidableEq, Repr

structure GapEpochBinding (τ : Type) where
  gapEpochBindingId : RowId
  gapId : RowId
  predecessorEpochId : RowId
  coherenceControllerId : RowId
  shockObservationId : RowId
  coherenceTransitionId : RowId
  boundAtUs : τ
  deriving DecidableEq, Repr

structure GenerationTransition (τ : Type) where
  generationTransitionId : RowId
  gapId : RowId
  stream : StreamKey
  predecessorGeneration : Nat
  successorGeneration : Nat
  transitionReason : TransitionReason
  transitionedAtUs : τ
  deriving DecidableEq, Repr

structure CoherenceEpoch (τ : Type) where
  coherenceEpochId : RowId
  runId : String
  fixtureId : String
  openedAtUs : τ
  deriving DecidableEq, Repr

structure CoherenceController (τ : Type) where
  coherenceControllerId : RowId
  runId : String
  fixtureId : String
  controllerState : ControllerState
  currentEpochId : RowId
  activeShockObservationId : Option RowId
  controllerRevision : Nat
  updatedAtUs : τ
  deriving DecidableEq, Repr

structure CoherenceTransition (τ : Type) where
  coherenceTransitionId : RowId
  coherenceControllerId : RowId
  fixtureId : String
  fromState : ControllerState
  predecessorEpochId : RowId
  shockObservationId : RowId
  transitionedAtUs : τ
  deriving DecidableEq, Repr

structure ShockObservation (τ : Type) where
  shockObservationId : RowId
  runId : String
  fixtureId : String
  shockType : ShockType
  shockLowerBoundUs : τ
  shockUpperBoundUs : τ
  evidenceHash : Digest
  createdAtUs : τ
  deriving DecidableEq, Repr

/-- The tables of `store.TABLES`, each in insertion order. -/
structure Db (τ : Type) where
  runMeta : List (RunMeta τ)
  rawCommits : List (RawCommit τ)
  rawConflicts : List (RawConflict τ)
  applicationRecords : List (ApplicationRecord τ)
  derivedRevisions : List (DerivedRevision τ)
  reducerCursors : List (ReducerCursor τ)
  ackOutbox : List (AckOutbox τ)
  ackCursors : List (AckCursor τ)
  streamGenerations : List (StreamGeneration τ)
  gapRecords : List (GapRecord τ)
  gapEpochBindings : List (GapEpochBinding τ)
  generationTransitions : List (GenerationTransition τ)
  coherenceEpochs : List (CoherenceEpoch τ)
  coherenceControllers : List (CoherenceController τ)
  coherenceTransitions : List (CoherenceTransition τ)
  shockObservations : List (ShockObservation τ)
  deriving DecidableEq, Repr

/-- `bootstrap_v1`: the tables of a database just created. -/
def Db.empty (τ : Type) : Db τ := ⟨[], [], [], [], [], [], [], [], [], [], [], [], [], [], [], []⟩

/-! ## Rows without their physical times

The columns dropped are those contracts/offline_slice/v1/replay-projection.json lists
under `table_time_exclusions`. -/

variable {τ : Type}

def RunMeta.project (r : RunMeta τ) : RunMeta Unit := { r with createdAtUs := () }

def StreamGeneration.project (r : StreamGeneration τ) : StreamGeneration Unit :=
  ⟨r.generationId, r.position, r.predecessorGeneration, r.generationState, (), none, r.closeReason⟩

def RawCommit.project (r : RawCommit τ) : RawCommit Unit := { r with committedAtUs := () }

def RawConflict.project (r : RawConflict τ) : RawConflict Unit := { r with detectedAtUs := () }

def ApplicationRecord.project (r : ApplicationRecord τ) : ApplicationRecord Unit := { r with appliedAtUs := () }

def DerivedRevision.project (r : DerivedRevision τ) : DerivedRevision Unit := { r with createdAtUs := () }

def ReducerCursor.project (r : ReducerCursor τ) : ReducerCursor Unit := { r with advancedAtUs := () }

def AckOutbox.project (r : AckOutbox τ) : AckOutbox Unit := { r with committedAtUs := () }

def AckCursor.project (r : AckCursor τ) : AckCursor Unit := { r with recordedAtUs := () }

def GapRecord.project (r : GapRecord τ) : GapRecord Unit := { r with createdAtUs := () }

def GapEpochBinding.project (r : GapEpochBinding τ) : GapEpochBinding Unit := { r with boundAtUs := () }

def GenerationTransition.project (r : GenerationTransition τ) : GenerationTransition Unit :=
  { r with transitionedAtUs := () }

def CoherenceEpoch.project (r : CoherenceEpoch τ) : CoherenceEpoch Unit := { r with openedAtUs := () }

def CoherenceController.project (r : CoherenceController τ) : CoherenceController Unit := { r with updatedAtUs := () }

def CoherenceTransition.project (r : CoherenceTransition τ) : CoherenceTransition Unit :=
  { r with transitionedAtUs := () }

def ShockObservation.project (r : ShockObservation τ) : ShockObservation Unit :=
  { r with shockLowerBoundUs := (), shockUpperBoundUs := (), createdAtUs := () }

def Db.project (db : Db τ) : Db Unit where
  runMeta := db.runMeta.map (·.project)
  rawCommits := db.rawCommits.map (·.project)
  rawConflicts := db.rawConflicts.map (·.project)
  applicationRecords := db.applicationRecords.map (·.project)
  derivedRevisions := db.derivedRevisions.map (·.project)
  reducerCursors := db.reducerCursors.map (·.project)
  ackOutbox := db.ackOutbox.map (·.project)
  ackCursors := db.ackCursors.map (·.project)
  streamGenerations := db.streamGenerations.map (·.project)
  gapRecords := db.gapRecords.map (·.project)
  gapEpochBindings := db.gapEpochBindings.map (·.project)
  generationTransitions := db.generationTransitions.map (·.project)
  coherenceEpochs := db.coherenceEpochs.map (·.project)
  coherenceControllers := db.coherenceControllers.map (·.project)
  coherenceTransitions := db.coherenceTransitions.map (·.project)
  shockObservations := db.shockObservations.map (·.project)

end BettingHelper.Store
