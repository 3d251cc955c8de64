/-
  BettingHelper.Delivery.InputJournal — `input_journal.InputJournal`: the delivery journal
  kept alongside the ingest store.

  A call is a program over the run directory (`Disk`), with every state it writes on the
  way: a crash leaves one of them. A row is appended byte by byte, a raw file is put in
  place by one rename, and an Ingestor call is one transaction. The observer is None.
  `_rows` always gives what reading the file again gives, so the bytes an instance has
  verified before are not kept.
-/

import BettingHelper.Lib.Crash
import BettingHelper.Delivery.JournalFile

namespace BettingHelper.Delivery

open BettingHelper.Store BettingHelper.Ingest BettingHelper.Lib BettingHelper.Lib.Crash

inductive JournalError where
  /-- `E_OFFLINE_SOURCE_BINDING` -/
  | sourceBinding
  /-- `E_OFFLINE_CONTENT_HASH` -/
  | contentHash
  /-- `E_OFFLINE_FILE_INTEGRITY` -/
  | fileIntegrity
  /-- `E_OFFLINE_JOURNAL_PARTIAL_TAIL` -/
  | journalPartialTail
  /-- `E_OFFLINE_JOURNAL_INTEGRITY` -/
  | journalIntegrity
  /-- `E_OFFLINE_RAW_CONFLICT` -/
  | rawConflict
  /-- `E_OFFLINE_RAW_BINDING` -/
  | rawBinding
  /-- `E_OFFLINE_OUTCOME_BINDING` -/
  | outcomeBinding
  /-- `E_OFFLINE_OUTCOME_CONFLICT` -/
  | outcomeConflict
  /-- `E_OFFLINE_ACK_BINDING` -/
  | ackBinding
  /-- `E_OFFLINE_PARTIAL_ALREADY_RETAINED` -/
  | partialAlreadyRetained
  /-- `FileNotFoundError`, of a raw or a retained file. -/
  | missingFile
  /-- `rfc8785.IntegerDomainError` -/
  | integerDomain
  | ingest (e : IngestError)
  deriving DecidableEq, Repr

/-- The run directory. -/
structure Disk where
  /-- context.json -/
  context : Context
  /-- run.sqlite3 -/
  db : Db Int
  /-- The files of raw/, each named by its content hash. -/
  raw : List Observation
  /-- receive.jsonl -/
  journal : Option JournalFile
  /-- The files partial-tail-<digest>.jsonl. -/
  retained : List (Digest × JournalFile)

/-- The directory of a run just created. -/
def Disk.fresh (c : Context) (db : Db Int) : Disk := ⟨c, db, [], none, []⟩

/-- The directory with this journal. -/
def Disk.holding (d : Disk) (f : JournalFile) : Disk := { d with journal := some f }

/-- Where in the code a state was written. -/
inductive Place where
  | rawStored
  /-- `os.open(…, O_CREAT)` in `_append`. -/
  | journalCreated (b : Body)
  /-- The first `n` bytes of the row of `b`. -/
  | appending (b : Body) (n : Nat)
  | appended (b : Body)
  /-- `Ingestor.apply` has returned or raised. -/
  | ingested
  /-- `Ingestor.confirm_ack` has returned or raised. -/
  | confirmed
  | tailRenamed
  | tailCreated
  /-- The first `n` bytes of the complete lines. -/
  | restoring (n : Nat)
  deriving DecidableEq, Repr

abbrev Call (α : Type) := Prog Disk Place JournalError α

/-- `maximum` of `_read`. -/
def maximum : Nat := 16777216

/-- The largest integer `rfc8785.dumps` takes. -/
def maxDumped : Nat := 2 ^ 53 - 1

variable (w : Wire) (h : Hashes)

/-! ## Rows -/

/-- `InputJournal._rows`. -/
def rows (d : Disk) : Except JournalError (List Row) :=
  match d.journal with
  | none => .ok []
  | some f =>
    if maximum < f.size w then .error .fileIntegrity
    else if f.tail ≠ [] then .error .journalPartialTail
    else if ValidRows w f.rows then .ok f.rows
    else .error .journalIntegrity

/-- `rfc8785.dumps` takes the row. The numbers of an ACK are its only large integers: a row
    index counts the lines of a file of at most `maximum` bytes. -/
def Body.dumpable : Body → Prop
  | .outcome _ (.applied ack) => ack.position.generation ≤ maxDumped ∧ ack.highestContiguousSequence ≤ maxDumped ∧
      ack.committedAtUs.natAbs ≤ maxDumped
  | _ => True

instance (b : Body) : Decidable b.dumpable := by
  unfold Body.dumpable
  split <;> infer_instance

/-- The states of the file while the next row is appended to complete rows. -/
def appendWrites (b : Body) (rs : List Row) (d : Disk) : List (Place × Disk) :=
  let row := nextRow w rs b
  (if d.journal = none then [(.journalCreated b, d.holding ⟨[], []⟩)] else []) ++
  ((List.range (w.text row).length).map fun n =>
    (.appending b (n + 1), d.holding ⟨rs, (w.text row).take (n + 1)⟩)) ++
  [(.appended b, d.holding ⟨rs ++ [row], []⟩)]

/-- `InputJournal._append`. -/
def append (b : Body) : Call Unit :=
  Prog.andThen (Prog.read (rows w)) fun rs =>
  if b.dumpable then Prog.write (appendWrites w b rs) else Prog.raise .integerDomain

/-! ## record_received -/

/-- `validate_synthetic_observation`, of a text that spells an observation. -/
def validateSyntheticObservation (c : Context) (o : Observation) : Except JournalError Unit :=
  if o.observationKind ≠ .terminal ∨ o.contextKind ≠ .runBoundNotDocument ∨ o.discoveryRunId ≠ c.runId ∨
      o.browserRunId ≠ c.browserRunId ∨ o.streamId ≠ c.streamId ∨ o.generation ≠ c.generation then .error .sourceBinding
  else if o.contentHash ≠ plain (h.rawObservation o.toObservationContent) then .error .contentHash
  else .ok ()

def Disk.rawFile (d : Disk) (x : Digest) : Option Observation := d.raw.find? (·.contentHash.value = x)

/-- The raw file of an observation: already there with the same bytes, or put there. -/
def storeRaw (o : Observation) : Call Unit := fun d =>
  match d.rawFile o.contentHash.value with
  | some o' => if o' ≠ o then Prog.raise .rawConflict d else Prog.ret () d
  | none => Prog.write (fun d => [(.rawStored, { d with raw := d.raw ++ [o] })]) d

/-- `InputJournal.record_received`. -/
def recordReceived (o : Observation) (b : BatchId) : Call Nat :=
  Prog.andThen (Prog.read fun d => (rows w d).bind fun _ => validateSyntheticObservation h d.context o) fun _ =>
  Prog.andThen (storeRaw o) fun _ =>
  Prog.andThen (Prog.read (rows w)) fun rs =>
  let index := (receivedReferences rs).length + 1
  Prog.andThen (append w (.received index ⟨o.contentHash.value, b, o.generation, o.sequence⟩)) fun _ =>
  Prog.ret index

/-! ## record_outcome -/

def ofStore {α : Type} : Except StoreError α → Except JournalError α
  | .ok a => .ok a
  | .error e => .error (.ingest (.store e))

/-- An ACK is bound to its delivery: by the observation just applied, or else by the store. -/
def ackBound (d : Disk) (x : Received) (ack : AckOutbox Int) (appliedRaw : Option Observation) :
    Except JournalError Unit :=
  match appliedRaw with
  | some o =>
    if o.contentHash ≠ plain x.rawHash ∨ o.generation ≠ x.generation ∨ o.sequence ≠ x.sequence ∨
        plain ack.position.generation ≠ x.generation ∨ plain ack.highestContiguousSequence ≠ x.sequence then
      .error .outcomeBinding
    else .ok ()
  | none =>
    (ofStore (validateJournal h.cursorStep d.db)).bind fun _ =>
    if (d.db.ackOutbox.find? (·.ackOutboxId = ack.ackOutboxId)) ≠ some ack ∨
        (d.db.rawCommits.find? (·.rawCommitId = ack.rawCommitId)).map (·.rawObservationContentHash) ≠ some x.rawHash ∨
        plain ack.position.generation ≠ x.generation ∨ plain ack.highestContiguousSequence ≠ x.sequence then
      .error .outcomeBinding
    else .ok ()

/-- The checks of `_record_outcome`; whether there is something to append. -/
def outcomeBound (index : Nat) (outcome : Outcome) (appliedRaw : Option Observation) (d : Disk) :
    Except JournalError Bool :=
  (rows w d).bind fun rs =>
  match receivedAt rs index, outcomesAt rs index with
  | [x], [] =>
    match outcome with
    | .applied ack => (ackBound h d x ack appliedRaw).map fun _ => true
    | .rejected _ => .ok true
  | [_], existing :: _ => if existing ≠ outcome then .error .outcomeConflict else .ok false
  | _, _ => .error .outcomeBinding

/-- `InputJournal._record_outcome`. -/
def recordOutcome (index : Nat) (outcome : Outcome) (appliedRaw : Option Observation) : Call Unit :=
  Prog.andThen (Prog.read (outcomeBound w h index outcome appliedRaw)) fun new =>
  if new then append w (.outcome index outcome) else Prog.ret ()

/-! ## apply -/

/-- The outcome of an Ingestor.apply; an error not in `ERRORS` is raised on. -/
def outcomeOf : Except IngestError (AckOutbox Int) → Except JournalError Outcome
  | .ok ack => .ok (.applied ack)
  | .error .gap => .ok (.rejected .gap)
  | .error .conflict => .ok (.rejected .conflict)
  | .error .generationClosed => .ok (.rejected .closedGeneration)
  | .error (.store .integrity) => .ok (.rejected .storageFailed)
  | .error e => .error (.ingest e)

/-- `Ingestor(self.store).apply(raw)` -/
def ingestApply (now : Int) (o : Observation) : Call (Except IngestError (AckOutbox Int)) := fun d =>
  ⟨[(.ingested, { d with db := (Ingest.apply h now o d.db).1 })], .ok (Ingest.apply h now o d.db).2⟩

/-- `InputJournal._apply_received`. -/
def applyReceived (now : Int) (index : Nat) (o : Observation) : Call Outcome :=
  Prog.andThen (ingestApply h now o) fun result =>
  match outcomeOf result with
  | .error e => Prog.raise e
  | .ok outcome => Prog.andThen (recordOutcome w h index outcome (some o)) fun _ => Prog.ret outcome

/-- `InputJournal.apply`. -/
def apply (now : Int) (o : Observation) (b : BatchId) : Call Outcome :=
  Prog.andThen (recordReceived w h o b) fun index => applyReceived w h now index o

/-! ## record_ack_confirmation -/

/-- `Ingestor(self.store).confirm_ack(dict(row))` -/
def ingestConfirm (now : Int) (ack : AckOutbox Int) : Call Unit := fun d =>
  ⟨[(.confirmed, { d with db := (Ingest.confirmAck h now (.row ack) d.db).1 })],
    match (Ingest.confirmAck h now (.row ack) d.db).2 with
    | .ok _ => .ok ()
    | .error e => .error (.ingest e)⟩

/-- `SELECT * FROM ack_outbox WHERE generation=? AND highest_contiguous_sequence=? AND cursor_hash=?` -/
def ackFor (rows : List (AckOutbox Int)) (generation sequence : DecimalText) (cursorHash : Digest) : Option (AckOutbox Int) :=
  rows.find? fun r => r.position.generation = generation.value ∧ r.highestContiguousSequence = sequence.value ∧
    r.cursorHash = cursorHash

/-- `InputJournal.record_ack_confirmation`. -/
def recordAckConfirmation (now : Int) (generation sequence : DecimalText) (cursorHash : Digest) : Call Unit :=
  Prog.andThen (Prog.read fun d => match ackFor d.db.ackOutbox generation sequence cursorHash with
    | none => .error .ackBinding
    | some ack => .ok ack) fun ack =>
  Prog.andThen (ingestConfirm h now ack) fun _ =>
  append w (.ackConfirmation generation sequence cursorHash)

/-! ## reconcile -/

/-- What `iter_operations` yields for a row: a RECEIVED row with its observation. -/
def operation (d : Disk) (r : Row) : Except JournalError (Row × Option Observation) :=
  match r.body with
  | .received _ x =>
    match d.rawFile x.rawHash with
    | none => .error .missingFile
    | some o =>
      (validateSyntheticObservation h d.context o).bind fun _ =>
      if o.contentHash ≠ plain x.rawHash ∨ o.generation ≠ x.generation ∨ o.sequence ≠ x.sequence then .error .rawBinding
      else .ok (r, some o)
  | .partialTail artifact artifactSha256 =>
    if artifact ≠ artifactSha256 then .error .journalIntegrity
    else
      match d.retained.find? (·.1 = artifact) with
      | none => .error .missingFile
      | some (_, f) =>
        if maximum < f.size w then .error .fileIntegrity
        else if w.fileHash f ≠ artifactSha256 then .error .journalIntegrity
        else .ok (r, none)
  | _ => .ok (r, none)

/-- `InputJournal.iter_operations`, to its end. -/
def iterOperations (d : Disk) : Except JournalError (List (Row × Option Observation)) :=
  (rows w d).bind fun rs => rs.mapM (operation w h d)

/-- The journal renamed to partial-tail-<digest>.jsonl. -/
def Disk.aside (d : Disk) (f : JournalFile) : Disk :=
  { d with journal := none, retained := d.retained ++ [(w.fileHash f, f)] }

/-- The states of the files while a partial tail is set aside and the complete lines are
    written back. -/
def tailWrites (f : JournalFile) (d : Disk) : List (Place × Disk) :=
  [(.tailRenamed, d.aside w f), (.tailCreated, (d.aside w f).holding ⟨[], []⟩)] ++
  (List.range (linesSize w f.rows)).map fun n => (.restoring (n + 1), (d.aside w f).holding (cut w f.rows (n + 1)))

/-- The first half of `InputJournal.reconcile`. -/
def repairTail : Call Unit := fun d =>
  match d.journal with
  | none => Prog.ret () d
  | some f =>
    if maximum < f.size w then Prog.raise .fileIntegrity d
    else if f.tail = [] then Prog.ret () d
    else if (d.retained.find? (·.1 = w.fileHash f)).isSome then Prog.raise .partialAlreadyRetained d
    else
      Prog.andThen (Prog.write (tailWrites w f)) (fun _ => append w (.partialTail (w.fileHash f) (w.fileHash f))) d

/-- What the store has of the observation of a RECEIVED row: a gap it opened, else an ACK. -/
def findings (x : Received) (d : Disk) : Except JournalError (Option (GapRecord Int) × Option (AckOutbox Int)) :=
  (ofStore (validateJournal h.cursorStep d.db)).map fun _ =>
    (d.db.gapRecords.find? (·.gapId = ⟨.gap, x.rawHash⟩),
      d.db.ackOutbox.find? fun a => ∃ r ∈ d.db.rawCommits, a.rawCommitId = r.rawCommitId ∧
        r.rawObservationContentHash = x.rawHash)

def gapCode : GapReason → RejectCode
  | .missingSequence => .gap
  | .conflictingDuplicate => .conflict

/-- One pass of the loop of `reconcile`; whether it repaired an operation. -/
def settle (clock : Nat → Int) (completed : List Nat) (op : Row × Option Observation) : Call Bool :=
  match op.1.body, op.2 with
  | .received index x, some o =>
    if index ∈ completed then Prog.ret false
    else
      Prog.andThen (Prog.read (findings h x)) fun found =>
      Prog.andThen (match found with
        | (some gap, _) => Prog.andThen (Prog.read fun d =>
            if gap.stream.runId ≠ d.context.runId ∨ gap.stream.streamId ≠ d.context.streamId ∨
                gap.detectedSequence ≠ x.sequence.value then .error .outcomeBinding
            else .ok ()) fun _ => recordOutcome w h index (.rejected (gapCode gap.gapReason)) none
        | (none, some ack) => recordOutcome w h index (.applied ack) none
        | (none, none) => Prog.andThen (applyReceived w h (clock index) index o) fun _ => Prog.ret ()) fun _ =>
      Prog.ret true
  | _, _ => Prog.ret false

/-- `InputJournal.reconcile`: how many operations it repaired. `clock` is read when the
    delivery of a receive index is applied again. -/
def reconcile (clock : Nat → Int) : Call Nat :=
  Prog.andThen (repairTail w) fun _ =>
  Prog.andThen (Prog.read (iterOperations w h)) fun operations =>
  Prog.each (settle w h clock (outcomeReferences (operations.map (·.1)))) operations

end BettingHelper.Delivery
