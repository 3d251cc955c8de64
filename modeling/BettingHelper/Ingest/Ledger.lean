/-
  BettingHelper.Ingest.Ledger — what the ingest store is for, in its own terms.

  A ledger is the log of one stream: the commits in the order they were made, at most one
  rupture (the gap or conflict that closed generation 0 and opened generation 1), the late
  repairs kept beside the log, and the confirmations. `Ledger.apply`, `confirmAck` and
  `storeLateRepair` say what an operation does to it, with no tables and no constraints.

  `Ledger.tables` spells a ledger out as the sixteen tables. That the store's operations
  are the ledger's, on these tables, is BettingHelper.Ingest.Refinement.
-/

import BettingHelper.Lib.Chain
import BettingHelper.Ingest.Ingestor

namespace BettingHelper.Ingest

open BettingHelper.Store BettingHelper.Lib

/-- What a commit is about, and when it was made. -/
structure Receipt where
  rawObservationId : String
  contentHash : Digest
  committedAtUs : Int
  deriving DecidableEq, Repr

abbrev Commit := Chain.Link Position Receipt Digest

structure Entry where
  commit : Commit
  late : Bool
  deriving DecidableEq, Repr

inductive Cause where
  | missing
  /-- The commit contradicted, by its cursor, and the id of the contradicting observation. -/
  | conflict (existing : Digest) (rawObservationId : String)
  deriving DecidableEq, Repr

def Cause.reason : Cause → GapReason
  | .missing => .missingSequence
  | .conflict _ _ => .conflictingDuplicate

structure Rupture where
  cause : Cause
  /-- The height generation 0 had, and keeps. -/
  highest : Nat
  sequence : Nat
  digest : Digest
  atUs : Int
  deriving DecidableEq, Repr

structure Confirmation where
  position : Position
  sequence : Nat
  cursor : Digest
  previous : Option Digest
  recordedAtUs : Int
  deriving DecidableEq, Repr

structure Ledger where
  context : Context
  createdAtUs : Int
  entries : List Entry
  rupture : Option Rupture
  confirmations : List Confirmation
  deriving DecidableEq, Repr

namespace Ledger

variable (h : Hashes) (L : Ledger)

def stream : StreamKey := L.context.stream

def position (g : Nat) : Position := ⟨L.stream, g⟩

/-- The applied commits. -/
def log : List Commit := (L.entries.filter fun e => !e.late).map (·.commit)

/-- The generation that is ACTIVE. -/
def active : Nat := if L.rupture.isSome then 1 else 0

end Ledger

/-- `CursorStep`, as the step of a hash chain. -/
def chainStep (h : Hashes) (k : Position) (n : Nat) (r : Receipt) (prior : Digest) : Digest :=
  h.cursorStep ⟨k, n, r.contentHash, prior⟩

/-! ## The tables of a ledger -/

def Entry.raw (e : Entry) : RawCommit Int :=
  ⟨⟨if e.late then .lateRepair else .raw, e.commit.cursor⟩, e.commit.key, e.commit.seq,
    e.commit.payload.rawObservationId, e.commit.payload.contentHash, e.commit.prior, e.commit.cursor,
    if e.late then .lateRepairOnly else .applied, e.commit.payload.committedAtUs⟩

def application (c : Commit) : ApplicationRecord Int :=
  ⟨⟨.application, c.cursor⟩, ⟨.raw, c.cursor⟩, c.key, c.seq, c.payload.contentHash, c.prior, c.payload.committedAtUs⟩

def revision (c : Commit) : DerivedRevision Int :=
  ⟨⟨.revision, c.cursor⟩, ⟨.application, c.cursor⟩, ⟨.raw, c.cursor⟩, c.key, c.seq, c.seq,
    if c.seq = 1 then none else some c.prior, c.cursor, c.payload.committedAtUs⟩

def reducer (c : Commit) : ReducerCursor Int :=
  ⟨⟨.cursor, c.cursor⟩, ⟨.revision, c.cursor⟩, c.key, c.seq, c.prior, c.cursor, c.payload.contentHash,
    c.payload.committedAtUs⟩

def ack (c : Commit) : AckOutbox Int :=
  ⟨⟨.ack, c.cursor⟩, ⟨.raw, c.cursor⟩, ⟨.application, c.cursor⟩, ⟨.revision, c.cursor⟩, ⟨.cursor, c.cursor⟩,
    c.key, c.seq, c.cursor, c.payload.committedAtUs⟩

def Confirmation.row (a : Confirmation) : AckCursor Int :=
  ⟨⟨.confirmation, a.cursor⟩, a.position, .backend, a.sequence, a.cursor, .backendDurableChain,
    a.previous.map (⟨.confirmation, ·⟩), a.recordedAtUs⟩

namespace Rupture

variable (s : StreamKey) (r : Rupture)

def closedState : GenerationState :=
  match r.cause with
  | .missing => .quarantinedGap
  | .conflict _ _ => .closed

def conflictRows : List (RawConflict Int) :=
  match r.cause with
  | .missing => []
  | .conflict existing o => [⟨⟨.conflict, r.digest⟩, ⟨.raw, existing⟩, ⟨s, 0⟩, r.sequence, o, r.digest, r.atUs⟩]

def gapRow : GapRecord Int :=
  match r.cause with
  | .missing => ⟨⟨.gap, r.digest⟩, s, 0, 1, r.highest + 1, r.sequence - 1, r.sequence, .missingSequence, .opened,
      r.highest, r.atUs⟩
  | .conflict _ _ => ⟨⟨.gap, r.digest⟩, s, 0, 1, r.sequence, r.sequence, r.sequence, .conflictingDuplicate, .opened,
      r.sequence - 1, r.atUs⟩

def shockRow : ShockObservation Int :=
  ⟨⟨.shock, r.digest⟩, s.runId, fixture,
    match r.cause with
    | .missing => .sequenceGap
    | .conflict _ _ => .schemaConflict, r.atUs, r.atUs, r.digest, r.atUs⟩

def transitionRow (identity : Digest) : CoherenceTransition Int :=
  ⟨⟨.transition, r.digest⟩, ⟨.controller, identity⟩, fixture, .opened, ⟨.epoch, identity⟩, ⟨.shock, r.digest⟩, r.atUs⟩

def bindingRow (identity : Digest) : GapEpochBinding Int :=
  ⟨⟨.binding, r.digest⟩, ⟨.gap, r.digest⟩, ⟨.epoch, identity⟩, ⟨.controller, identity⟩, ⟨.shock, r.digest⟩,
    ⟨.transition, r.digest⟩, r.atUs⟩

def generationTransitionRow : GenerationTransition Int :=
  ⟨⟨.generationTransition, r.digest⟩, ⟨.gap, r.digest⟩, s, 0, 1,
    match r.cause with
    | .missing => .gap
    | .conflict _ _ => .conflict, r.atUs⟩

end Rupture

namespace Ledger

variable (h : Hashes) (L : Ledger)

def identity : Digest := L.context.identity h

def generationRows : List (StreamGeneration Int) :=
  match L.rupture with
  | none => [⟨⟨.generation, L.identity h⟩, L.position 0, none, .active, L.createdAtUs, none, none⟩]
  | some r => [⟨⟨.generation, L.identity h⟩, L.position 0, none, r.closedState, L.createdAtUs, some r.atUs,
      some r.cause.reason⟩, ⟨⟨.generation, r.digest⟩, L.position 1, some 0, .active, r.atUs, none, none⟩]

def controllerRow : CoherenceController Int :=
  match L.rupture with
  | none => ⟨⟨.controller, L.identity h⟩, L.stream.runId, fixture, .opened, ⟨.epoch, L.identity h⟩, none, 0,
      L.createdAtUs⟩
  | some r => ⟨⟨.controller, L.identity h⟩, L.stream.runId, fixture, .shockedClosed, ⟨.epoch, L.identity h⟩,
      some ⟨.shock, r.digest⟩, 1, r.atUs⟩

def tables : Db Int where
  runMeta := [⟨L.stream.runId, .opened, L.context.vendorSha256.value, L.context.codeSha256.value, L.createdAtUs⟩]
  rawCommits := L.entries.map (·.raw)
  rawConflicts := L.rupture.toList.flatMap (·.conflictRows L.stream)
  applicationRecords := L.log.map application
  derivedRevisions := L.log.map revision
  reducerCursors := L.log.map reducer
  ackOutbox := L.log.map ack
  ackCursors := L.confirmations.map (·.row)
  streamGenerations := L.generationRows h
  gapRecords := L.rupture.toList.map (·.gapRow L.stream)
  gapEpochBindings := L.rupture.toList.map (·.bindingRow (L.identity h))
  generationTransitions := L.rupture.toList.map (·.generationTransitionRow L.stream)
  coherenceEpochs := [⟨⟨.epoch, L.identity h⟩, L.stream.runId, fixture, L.createdAtUs⟩]
  coherenceControllers := [L.controllerRow h]
  coherenceTransitions := L.rupture.toList.map (·.transitionRow (L.identity h))
  shockObservations := L.rupture.toList.map (·.shockRow L.stream)

/-! ## The ledger's operations -/

/-- The ledger of a run just created. -/
def fresh (c : Context) (now : Int) : Ledger := ⟨c, now, [], none, []⟩

/-- The observation names this run and its build. -/
def bound (o : Observation) : Prop :=
  L.stream.runId = o.discoveryRunId ∧ o.packHash = plain L.context.vendorSha256.value ∧
    o.buildHash = plain L.context.codeSha256.value
  deriving Decidable

def commitAt (g n : Nat) : Option Commit := L.log.find? fun c => c.key = L.position g ∧ c.seq = n

/-- The commit that would come next in the active generation. -/
def nextCommit (now : Int) (o : Observation) : Commit :=
  let key := L.position L.active
  let receipt : Receipt := ⟨o.rawObservationId, o.contentHash.value, now⟩
  let prior := Chain.head h0 L.log key
  ⟨key, o.sequence.value, receipt, prior, chainStep h key o.sequence.value receipt prior⟩

def append (c : Commit) (late : Bool) : Ledger := { L with entries := L.entries ++ [⟨c, late⟩] }

/-- The tables hold no two equal cursors and no two equal observation ids. -/
def committable (now : Int) (o : Observation) : Prop :=
  0 ≤ now ∧ (∀ d ∈ L.log, d.cursor ≠ (L.nextCommit h now o).cursor) ∧
    ∀ e ∈ L.entries, e.commit.payload.rawObservationId ≠ o.rawObservationId
  deriving Decidable

/-- The next observation in line. -/
def commit (now : Int) (o : Observation) : Ledger × Except IngestError (AckOutbox Int) :=
  if L.committable h now o then
    (L.append (L.nextCommit h now o) false, .ok (ack (L.nextCommit h now o)))
  else (L, .error (.store .integrity))

/-- The first rupture closes the generation. Its generation may not be closed before it was
    opened, and the successor's id is not the first generation's. A later one finds the
    coherence controller shut. -/
def breakOff (now : Int) (cause : Cause) (o : Observation) (code : IngestError) :
    Ledger × Except IngestError (AckOutbox Int) :=
  match L.rupture with
  | some _ => (L, .error .gapCoherenceBinding)
  | none =>
    if L.createdAtUs ≤ now ∧ o.contentHash.value ≠ L.identity h then
      ({ L with rupture := some ⟨cause, Chain.height L.log (L.position 0), o.sequence.value, o.contentHash.value, now⟩ },
        .error code)
    else (L, .error (.store .integrity))

/-- A conflict is recorded before the controller is looked at, so a repeated conflict row
    fails first. -/
def conflictRecordable (now : Int) (o : Observation) : Prop :=
  0 ≤ now ∧ ∀ r ∈ L.rupture, ∀ row ∈ r.conflictRows L.stream,
    row.rawConflictId ≠ ⟨.conflict, o.contentHash.value⟩ ∧ row.conflictingRawObservationId ≠ o.rawObservationId
  deriving Decidable

/-- An observation of the active generation. -/
def advance (now : Int) (o : Observation) : Ledger × Except IngestError (AckOutbox Int) :=
  match L.commitAt L.active o.sequence.value with
  | some c =>
    if c.payload.contentHash = o.contentHash.value then (L, .ok (ack c))
    else if L.conflictRecordable now o then
      L.breakOff h now (.conflict c.cursor o.rawObservationId) o .conflict
    else (L, .error (.store .integrity))
  | none =>
    if o.sequence.value = Chain.height L.log (L.position L.active) + 1 then L.commit h now o
    else L.breakOff h now .missing o .gap

def apply (now : Int) (o : Observation) : Ledger × Except IngestError (AckOutbox Int) :=
  match admissible h o with
  | .error e => (L, .error e)
  | .ok () =>
    if ¬L.bound o then (L, .error .runBinding)
    else if L.stream.browserRunId ≠ o.browserRunId ∨ L.stream.streamId ≠ o.streamId ∨ L.active < o.generation.value then
      (L, .error .generationBinding)
    else if o.generation.value < L.active then (L, .error .generationClosed)
    else L.advance h now o

def lastConfirmation (p : Position) : Option Confirmation := (L.confirmations.filter (·.position = p)).getLast?

/-- The confirmation of a durable acknowledgement, after the last one of its position. -/
def nextConfirmation (now : Int) (a : AckOutbox Int) : Confirmation :=
  ⟨a.position, a.highestContiguousSequence, a.cursorHash, (L.lastConfirmation a.position).map (·.cursor), now⟩

def confirm (now : Int) (a : AckOutbox Int) : Ledger × Except IngestError (AckCursor Int) :=
  if 0 ≤ now then
    ({ L with confirmations := L.confirmations ++ [L.nextConfirmation now a] }, .ok (L.nextConfirmation now a).row)
  else (L, .error (.store .integrity))

def confirmAck (now : Int) (arg : AckArg) : Ledger × Except IngestError (AckCursor Int) :=
  match arg with
  | .malformed => (L, .error .ackConfirmationBinding)
  | .row a =>
    if a ∉ L.log.map ack then (L, .error .ackConfirmationBinding)
    else
      match L.lastConfirmation a.position with
      | none => L.confirm now a
      | some p =>
        if a.highestContiguousSequence < p.sequence then (L, .error .ackConfirmationRegression)
        else if p.sequence = a.highestContiguousSequence then (L, .ok p.row)
        else L.confirm now a

/-- The observation belongs to the gap that quarantined generation 0. -/
def repairable (o : Observation) : Prop :=
  ⟨o.discoveryRunId, o.browserRunId, o.clockDomainId, o.streamId⟩ = L.stream ∧ o.generation.value = 0 ∧
    ∃ r ∈ L.rupture, r.cause = .missing ∧ r.highest < o.sequence.value ∧ o.sequence.value < r.sequence ∧
      ∀ e ∈ L.entries, ¬(e.commit.key = L.position 0 ∧ e.commit.seq = o.sequence.value)
  deriving Decidable

/-- The commit that would have stood at the observation's number, on the head the log kept. -/
def lateCommit (now : Int) (o : Observation) : Commit :=
  let receipt : Receipt := ⟨o.rawObservationId, o.contentHash.value, now⟩
  let prior := Chain.head h0 L.log (L.position 0)
  ⟨L.position 0, o.sequence.value, receipt, prior, chainStep h (L.position 0) o.sequence.value receipt prior⟩

def storable (now : Int) (o : Observation) : Prop :=
  0 ≤ now ∧ (∀ e ∈ L.entries, e.late → e.commit.cursor ≠ (L.lateCommit h now o).cursor) ∧
    ∀ e ∈ L.entries, e.commit.payload.rawObservationId ≠ o.rawObservationId
  deriving Decidable

def storeLateRepair (now : Int) (o : Observation) : Ledger × Except IngestError (RawCommit Int) :=
  if o.contentHash ≠ plain (h.rawObservation o.toObservationContent) then (L, .error .contentHash)
  else if maxInteger < o.generation.value ∨ maxInteger < o.sequence.value then (L, .error .integerRange)
  else if ¬L.bound o then (L, .error .runBinding)
  else if ¬L.repairable o then (L, .error .lateRepairBinding)
  else if L.storable h now o then
    (L.append (L.lateCommit h now o) true, .ok (Entry.raw ⟨L.lateCommit h now o, true⟩))
  else (L, .error (.store .integrity))

end Ledger

end BettingHelper.Ingest
