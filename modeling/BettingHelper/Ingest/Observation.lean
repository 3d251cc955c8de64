/-
  BettingHelper.Ingest.Observation — raw observations and the run's context, as far as
  the ingest reads them (schemas/raw-observation.schema.json,
  contracts/offline_slice/v1/context.schema.json), and a store made by
  `create_offline_run`.

  The values are those the schemas accept. Their patterns are anchored `^…$` and checked
  with `re.search`, where `$` also matches before a final newline: a text so accepted is
  the value it spells and whether that newline is there. `int()` ignores it; a comparison
  of texts does not.
-/

import BettingHelper.Store.Journal

namespace BettingHelper.Ingest

open BettingHelper.Store

structure Anchored (α : Type) where
  value : α
  newline : Bool
  deriving DecidableEq, Repr

/-- `^(0|[1-9][0-9]*)$` -/
abbrev DecimalText := Anchored Nat

/-- `^[0-9a-f]{64}$` -/
abbrev HashText := Anchored Digest

/-- The text without a final newline: `str(n)`, `….hexdigest()`. -/
def plain {α : Type} (v : α) : Anchored α := ⟨v, false⟩

inductive ObservationKind where
  | networkMetadata
  | appState
  | domVerification
  | lifecycle
  | clockSample
  | gap
  | terminal
  deriving DecidableEq, Repr

inductive ContextKind where
  | document
  | runBoundNotDocument
  deriving DecidableEq, Repr

/-- An observation without its `content_hash`; `rest` stands for the members the ingest
    does not read. -/
structure ObservationContent where
  rawObservationId : String
  observationKind : ObservationKind
  packHash : HashText
  buildHash : HashText
  discoveryRunId : String
  streamId : String
  generation : DecimalText
  sequence : DecimalText
  contextKind : ContextKind
  browserRunId : String
  clockDomainId : String
  rest : String
  /-- `sequence` is a PositiveInteger of the schema. -/
  sequencePos : 1 ≤ sequence.value
  deriving DecidableEq, Repr

structure Observation extends ObservationContent where
  contentHash : HashText
  deriving DecidableEq, Repr

/-- contracts/offline_slice/v1/context.schema.json -/
structure Context where
  runId : String
  browserRunId : String
  producerId : String
  streamId : String
  generation : DecimalText
  codeSha256 : HashText
  vendorSha256 : HashText
  deriving DecidableEq, Repr

def Context.stream (c : Context) : StreamKey := ⟨c.runId, c.browserRunId, c.producerId, c.streamId⟩

/-- The hash functions of the code, as functions of the values they are given. -/
structure Hashes where
  /-- `canonical_content_hash("CursorStep", …)` -/
  cursorStep : CursorStep → Digest
  /-- `canonical_content_hash("RawObservation", …)`, whose domain leaves `/content_hash` out. -/
  rawObservation : ObservationContent → Digest
  /-- `sha256(rfc8785.dumps([run_id, stream_id, generation]))` -/
  identity : String → String → DecimalText → Digest

def Context.identity (c : Context) (h : Hashes) : Digest := h.identity c.runId c.streamId c.generation

/-! ## A fresh store -/

def fixture : String := "fixture:offline-accounting"

/-- The four inserts of `create_offline_run`. -/
def seed (h : Hashes) (c : Context) (now : Int) (db : Db Int) : Except StoreError (Db Int) :=
  insertRunMeta ⟨c.runId, .opened, c.vendorSha256.value, c.codeSha256.value, now⟩ db
  >>= insertGeneration
    ⟨⟨.generation, c.identity h⟩, ⟨c.stream, c.generation.value⟩, none, .active, now, none, none⟩
  >>= insertEpoch ⟨⟨.epoch, c.identity h⟩, c.runId, fixture, now⟩
  >>= insertController
    ⟨⟨.controller, c.identity h⟩, c.runId, fixture, .opened, ⟨.epoch, c.identity h⟩, none, 0, now⟩

/-- `create_offline_run`, as far as the store goes: one transaction on a new database.
    The context's hashes go into columns whose CHECK wants 64 characters. -/
def createOfflineRun (h : Hashes) (c : Context) (now : Int) : Except StoreError (Db Int) :=
  if c.vendorSha256.newline ∨ c.codeSha256.newline then .error .integrity
  else
    match transact id (fun db => (seed h c now db).map (·, .ok ())) (Db.empty Int) with
    | (db, .ok ()) => .ok db
    | (_, .error e) => .error e

end BettingHelper.Ingest
