/-
  BettingHelper.Ingest.Ingestor — `ingest.Ingestor`: apply, confirm_ack and
  store_late_repair, each one transaction.

  The reading of `time_ns() // 1000` is an argument. An operation gives the tables after
  it and what it returned or raised.
-/

import BettingHelper.Ingest.Observation

namespace BettingHelper.Ingest

open BettingHelper.Store

inductive IngestError where
  /-- `verify_canonical_content_hash` -/
  | contentHash
  /-- `ContractNotImplementedError("F0A-T04:OBSERVATION_SEMANTICS")` -/
  | observationSemantics
  | integerRange
  | runBinding
  | generationBinding
  | generationClosed
  | conflict
  | gap
  | incompleteDurableChain
  | gapCoherenceBinding
  | ackConfirmationBinding
  | ackConfirmationRegression
  | lateRepairBinding
  | store (e : StoreError)
  deriving DecidableEq, Repr

/-- 9223372036854775807, the largest integer a column holds. -/
def maxInteger : Nat := 2 ^ 63 - 1

def ofStore {α : Type} : Except StoreError α → Except IngestError α
  | .ok a => .ok a
  | .error e => .error (.store e)

variable (h : Hashes)

/-! ## What the operations read -/

def Db.rawAt (db : Db Int) (p : Position) (n : Nat) : Option (RawCommit Int) :=
  db.rawCommits.find? fun r => r.position = p ∧ r.sequence = n

/-- `… ORDER BY highest_contiguous_sequence DESC LIMIT 1` -/
def Db.lastCursor (db : Db Int) (p : Position) : Option (ReducerCursor Int) :=
  (db.reducerCursors.filter (·.position = p)).argmax (·.highestContiguousSequence)

/-- The run's row of run_meta is open and the one the observation names. -/
def runBound (db : Db Int) (o : Observation) : Prop :=
  ∃ m, db.runMeta = [m] ∧ m.runId = o.discoveryRunId ∧ m.runStatus = .opened ∧
    o.packHash = plain m.packHash ∧ o.buildHash = plain m.buildHash

instance (db : Db Int) (o : Observation) : Decidable (runBound db o) :=
  match e : db.runMeta with
  | [m] => decidable_of_iff (m.runId = o.discoveryRunId ∧ m.runStatus = .opened ∧
      o.packHash = plain m.packHash ∧ o.buildHash = plain m.buildHash) (by simp [runBound, e])
  | [] => .isFalse (by simp [runBound, e])
  | _ :: _ :: _ => .isFalse (by simp [runBound, e])

/-- The generations an observation names; it does not name the producer. -/
def lookupGeneration (o : Observation) (db : Db Int) : List (StreamGeneration Int) :=
  db.streamGenerations.filter fun g => g.position.stream.runId = o.discoveryRunId ∧
    g.position.stream.browserRunId = o.browserRunId ∧ g.position.stream.streamId = o.streamId ∧
    g.position.generation = o.generation.value

/-- What apply requires before it looks at the sequence: the journal is valid, the run and
    the generation are the store's, the generation is ACTIVE and no conflict is on it. -/
def bindGeneration (o : Observation) (db : Db Int) : Except IngestError (StreamGeneration Int) :=
  match validateJournal h.cursorStep db with
  | .error e => .error (.store e)
  | .ok () =>
    if ¬runBound db o then .error .runBinding
    else
      match lookupGeneration o db with
      | [current] =>
        if current.generationState ≠ .active then .error .generationClosed
        else if ∃ r ∈ db.rawConflicts, r.position = current.position then .error .conflict
        else .ok current
      | _ => .error .generationBinding

/-! ## What they write -/

/-- The five rows of one applied observation. -/
def commitChain (key : Position) (o : Observation) (previous : Option (ReducerCursor Int)) (now : Int) (db : Db Int) :
    Except StoreError (Db Int) :=
  let sequence := o.sequence.value
  let contentHash := o.contentHash.value
  let priorHash := (previous.map (·.cursorHash)).getD h0
  let cursor := h.cursorStep ⟨key, sequence, contentHash, priorHash⟩
  insertRawCommit
    ⟨⟨.raw, cursor⟩, key, sequence, o.rawObservationId, contentHash, priorHash, cursor, .applied, now⟩ db
  >>= insertApplication ⟨⟨.application, cursor⟩, ⟨.raw, cursor⟩, key, sequence, contentHash, priorHash, now⟩
  >>= insertRevision ⟨⟨.revision, cursor⟩, ⟨.application, cursor⟩, ⟨.raw, cursor⟩, key, sequence, sequence,
    previous.map fun _ => priorHash, cursor, now⟩
  >>= insertReducerCursor
    ⟨⟨.cursor, cursor⟩, ⟨.revision, cursor⟩, key, sequence, priorHash, cursor, contentHash, now⟩
  >>= insertAckOutbox ⟨⟨.ack, cursor⟩, ⟨.raw, cursor⟩, ⟨.application, cursor⟩, ⟨.revision, cursor⟩,
    ⟨.cursor, cursor⟩, key, sequence, cursor, now⟩

/-- The statements of `_gap`, once the controller is found. -/
def gapRows (current : StreamGeneration Int) (controller : CoherenceController Int) (highest sequence : Nat)
    (digest : Digest) (now : Int) (reason : GapReason) (db : Db Int) : Except StoreError (Db Int) :=
  let conflict := reason = .conflictingDuplicate
  let stream := current.position.stream
  let generation := current.position.generation
  insertGapRecord ⟨⟨.gap, digest⟩, stream, generation, generation + 1,
    if conflict then sequence else highest + 1, if conflict then sequence else sequence - 1, sequence, reason,
    .opened, if conflict then sequence - 1 else highest, now⟩ db
  >>= insertShock ⟨⟨.shock, digest⟩, stream.runId, controller.fixtureId,
    if conflict then .schemaConflict else .sequenceGap, now, now, digest, now⟩
  >>= insertTransition ⟨⟨.transition, digest⟩, controller.coherenceControllerId, controller.fixtureId,
    controller.controllerState, controller.currentEpochId, ⟨.shock, digest⟩, now⟩
  >>= shockController ⟨.shock, digest⟩ now controller.coherenceControllerId
  >>= insertBinding ⟨⟨.binding, digest⟩, ⟨.gap, digest⟩, controller.currentEpochId,
    controller.coherenceControllerId, ⟨.shock, digest⟩, ⟨.transition, digest⟩, now⟩
  >>= closeGeneration (if conflict then .closed else .quarantinedGap) now reason current.generationId
  >>= insertGenerationTransition ⟨⟨.generationTransition, digest⟩, ⟨.gap, digest⟩, stream, generation,
    generation + 1, if conflict then .conflict else .gap, now⟩
  >>= insertGeneration
    ⟨⟨.generation, digest⟩, ⟨stream, generation + 1⟩, some generation, .active, now, none, none⟩

/-- `Ingestor._gap`. -/
def recordGap (current : StreamGeneration Int) (highest sequence : Nat) (digest : Digest) (now : Int)
    (reason : GapReason) (db : Db Int) : Except IngestError (Db Int) :=
  match db.coherenceControllers.filter (·.runId = current.position.stream.runId) with
  | [controller] =>
    if controller.controllerState = .opened ∨ controller.controllerState = .newEpochOpen then
      ofStore (gapRows current controller highest sequence digest now reason db)
    else .error .gapCoherenceBinding
  | _ => .error .gapCoherenceBinding

/-! ## apply -/

def applyBody (now : Int) (o : Observation) (db : Db Int) :
    Except IngestError (Db Int × Except IngestError (AckOutbox Int)) :=
  match bindGeneration h o db with
  | .error e => .error e
  | .ok current =>
    let key := current.position
    let sequence := o.sequence.value
    let contentHash := o.contentHash.value
    let previous := Db.lastCursor db key
    let highest := (previous.map (·.highestContiguousSequence)).getD 0
    match Db.rawAt db key sequence with
    | some raw =>
      if raw.rawObservationContentHash = contentHash then
        match db.ackAt key sequence with
        | none => .error .incompleteDurableChain
        | some row => .ok (db, .ok row)
      else
        match insertRawConflict ⟨⟨.conflict, contentHash⟩, raw.rawCommitId, key, sequence, o.rawObservationId,
            contentHash, now⟩ db with
        | .error e => .error (.store e)
        | .ok db' =>
          (recordGap current highest sequence contentHash now .conflictingDuplicate db').map (·, .error .conflict)
    | none =>
      if sequence = highest + 1 then
        match commitChain h key o previous now db with
        | .error e => .error (.store e)
        | .ok db' =>
          match db'.ackOutbox.find? fun r => r.ackOutboxId = ⟨.ack, h.cursorStep ⟨key, sequence, contentHash,
              (previous.map (·.cursorHash)).getD h0⟩⟩ with
          | none => .error .incompleteDurableChain
          | some row => .ok (db', .ok row)
      else if sequence ≤ highest then .error .incompleteDurableChain
      else (recordGap current highest sequence contentHash now .missingSequence db).map (·, .error .gap)

/-- The checks apply makes before it opens the store. -/
def admissible (o : Observation) : Except IngestError Unit :=
  if o.contentHash ≠ plain (h.rawObservation o.toObservationContent) then .error .contentHash
  else if o.observationKind = .lifecycle ∨ o.observationKind = .gap then .error .observationSemantics
  else if maxInteger < o.generation.value ∨ maxInteger < o.sequence.value then .error .integerRange
  else .ok ()

/-- `Ingestor.apply`. -/
def apply (now : Int) (o : Observation) (db : Db Int) : Db Int × Except IngestError (AckOutbox Int) :=
  match admissible h o with
  | .error e => (db, .error e)
  | .ok () => transact .store (applyBody h now o) db

/-! ## confirm_ack -/

/-- The dictionary given to confirm_ack: a row of ack_outbox, or anything else. -/
inductive AckArg where
  | row (r : AckOutbox Int)
  | malformed
  deriving DecidableEq, Repr

def lastConfirmed (db : Db Int) (p : Position) : Option (AckCursor Int) :=
  (db.ackCursors.filter fun r => r.position = p ∧ r.owner = .backend).argmax (·.highestContiguousSequence)

def confirmBody (now : Int) (arg : AckArg) (db : Db Int) :
    Except IngestError (Db Int × Except IngestError (AckCursor Int)) :=
  match validateJournal h.cursorStep db with
  | .error e => .error (.store e)
  | .ok () =>
    match arg with
    | .malformed => .error .ackConfirmationBinding
    | .row ack =>
      if db.ackOutbox.find? (·.ackOutboxId = ack.ackOutboxId) ≠ some ack then .error .ackConfirmationBinding
      else
        let previous := lastConfirmed db ack.position
        let insert : Except IngestError (Db Int × Except IngestError (AckCursor Int)) :=
          let row : AckCursor Int := ⟨⟨.confirmation, ack.cursorHash⟩, ack.position, .backend,
            ack.highestContiguousSequence, ack.cursorHash, .backendDurableChain, previous.map (·.ackCursorId), now⟩
          (ofStore (insertAckCursor row db)).map (·, .ok row)
        match previous with
        | none => insert
        | some p =>
          if ack.highestContiguousSequence < p.highestContiguousSequence then .error .ackConfirmationRegression
          else if p.highestContiguousSequence = ack.highestContiguousSequence then
            if p.cursorHash ≠ ack.cursorHash then .error .ackConfirmationBinding else .ok (db, .ok p)
          else insert

/-- `Ingestor.confirm_ack`. -/
def confirmAck (now : Int) (arg : AckArg) (db : Db Int) : Db Int × Except IngestError (AckCursor Int) :=
  transact .store (confirmBody h now arg) db

/-! ## store_late_repair -/

/-- The position a late repair names; the producer is its clock domain's. -/
def lateKey (o : Observation) : Position :=
  ⟨⟨o.discoveryRunId, o.browserRunId, o.clockDomainId, o.streamId⟩, o.generation.value⟩

def lateRepairBody (now : Int) (o : Observation) (db : Db Int) :
    Except IngestError (Db Int × Except IngestError (RawCommit Int)) :=
  match validateJournal h.cursorStep db with
  | .error e => .error (.store e)
  | .ok () =>
    let sequence := o.sequence.value
    let key := lateKey o
    if ¬runBound db o then .error .runBinding
    else if ¬∃ g ∈ db.streamGenerations, g.position = key ∧
        (g.generationState = .closed ∨ g.generationState = .quarantinedGap) then .error .lateRepairBinding
    else if (¬∃ g ∈ db.gapRecords, g.stream = key.stream ∧ g.predecessorGeneration = key.generation ∧
        g.missingFromSequence ≤ sequence ∧ sequence ≤ g.missingToSequence ∧ g.repairStatus = .opened) ∨
        (Db.rawAt db key sequence).isSome then .error .lateRepairBinding
    else
      let previous := (db.reducerCursors.filter fun r =>
        r.position = key ∧ r.highestContiguousSequence < sequence).argmax (·.highestContiguousSequence)
      let priorHash := (previous.map (·.cursorHash)).getD h0
      let cursor := h.cursorStep ⟨key, sequence, o.contentHash.value, priorHash⟩
      let row : RawCommit Int := ⟨⟨.lateRepair, cursor⟩, key, sequence, o.rawObservationId, o.contentHash.value,
        priorHash, cursor, .lateRepairOnly, now⟩
      (ofStore (insertRawCommit row db)).map (·, .ok row)

/-- `Ingestor.store_late_repair`. -/
def storeLateRepair (now : Int) (o : Observation) (db : Db Int) : Db Int × Except IngestError (RawCommit Int) :=
  if o.contentHash ≠ plain (h.rawObservation o.toObservationContent) then (db, .error .contentHash)
  else if maxInteger < o.generation.value ∨ maxInteger < o.sequence.value then (db, .error .integerRange)
  else transact .store (lateRepairBody h now o) db

end BettingHelper.Ingest
