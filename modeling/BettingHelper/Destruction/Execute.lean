/-
  BettingHelper.Destruction.Execute — one process that destroys a run, or goes on with its
  destruction, over the durable state it finds: the run's database, the browser's store and
  the files beside them.

  A transaction is one write, and so is the browser's deletion. A file is created empty
  and then written, so a process that is killed leaves any beginning of it. A process at
  its checkpoint waits until it is killed: its call ends with `Error.paused`.
-/

import BettingHelper.Lib.Crash
import BettingHelper.Destruction.Plan

namespace BettingHelper.Destruction

open BettingHelper.Lib.Json BettingHelper.Lib.Crash

/-! ## The durable state -/

inductive File where
  | consumedExternal
  | intent
  | deletionProof
  | checkpoint
  deriving DecidableEq, Repr

inductive Suffix where
  | journal
  | wal
  | shm
  deriving DecidableEq, Repr

structure BrowserStore where
  states : Doc
  entries : Doc
  keys : Doc

structure Case where
  /-- The run named in DISPOSABLE_OWNER.json. -/
  owner : String
  database : Option Database
  sidecars : List Suffix
  browser : Option BrowserStore
  files : File → Option (List UInt8)
  /-- Every consumption a transaction has committed, also once the database is gone. -/
  committed : List Row

def Case.put (s : Case) (f : File) (b : List UInt8) : Case := { s with files := Function.update s.files f (some b) }

/-- What a call writes, and where. -/
inductive Place where
  | consumption
  | marked
  | file (f : File)
  | database
  | sidecar (x : Suffix)
  | browser
  deriving DecidableEq, Repr

abbrev Action (α : Type) := Prog Case Place Error α

structure Config where
  runId : String
  checkpointId : String
  /-- The other members of the identity. -/
  identity : List (String × Doc)
  databaseName : String

/-- What differs between two calls: the mode, the process and what it draws at random. -/
structure Call where
  recover : Bool
  pid : Nat
  proofId : BitVec 256

/-! ## Its parts -/

def ownedCase (runId : String) : Action Unit := Prog.read fun s =>
  if isUuid4 runId = false then .error .runId
  else if runId ≠ s.owner then .error .disposableOnly
  else .ok ()

def immutableJson (f : File) (value : Doc) : Action Unit := fun s =>
  match s.files f with
  | some b => if b ≠ value.bytes then ⟨[], .error .immutableArtifact⟩ else ⟨[], .ok ()⟩
  | none => ⟨(List.range (value.bytes.length + 1)).map fun n => (.file f, s.put f (value.bytes.take n)), .ok ()⟩

structure Actual where
  browserPresent : Bool
  browser : Doc
  backendPresent : Bool
  backendState : Doc
  intent : Option Doc
  proof : Option Doc

def browserReport (c : Config) (b : Option BrowserStore) : Doc :=
  record [("database_name", str c.databaseName), ("present", .bool b.isSome),
    ("states", (b.map (·.states)).getD (.arr [])), ("entries", (b.map (·.entries)).getD (.arr [])),
    ("keys", (b.map (·.keys)).getD (.arr []))]

/-- `read_gap_state`. -/
def Database.report (d : Database) : Doc :=
  record (("run_id", str d.runId) :: ("run_status", str d.runStatus.name) ::
    ("authorization_consumptions", .arr (d.authorizationConsumptions.map Row.doc)) :: d.facts)

/-- A file that is absent is no document, and one that does not parse raises. -/
def loadFile (s : Case) (f : File) : Except Error (Option Doc) :=
  match s.files f with
  | none => .ok none
  | some b =>
    match readDoc b with
    | none => .error .decode
    | some d => .ok (some d)

def readActual (c : Config) : Action Actual := do
  ownedCase c.runId
  Prog.read fun s => do
    let intent ← loadFile s .intent
    let proof ← loadFile s .deletionProof
    return {
      browserPresent := s.browser.isSome
      browser := browserReport c s.browser
      backendPresent := s.database.isSome
      backendState := (s.database.map Database.report).getD .null
      intent, proof }

def inventory (a : Actual) : Doc :=
  record [("browser", a.browser), ("backend", record [("present", .bool a.backendPresent), ("state", a.backendState)])]

def insertConsumption (t : Trust) (r : Row) : Action Unit := fun s =>
  match s.database with
  | none => ⟨[], .error .missingDatabase⟩
  | some d =>
    if d.accepts t r then
      ⟨[(.consumption, { s with
        database := some { d with authorizationConsumptions := d.authorizationConsumptions ++ [r] }
        committed := s.committed ++ [r] })], .ok ()⟩
    else ⟨[], .error .integrity⟩

/-- The consumption is looked for in the database, or in its external copy once the
database is gone. -/
def consumed (t : Trust) (p : Plan) (s : Case) : Except Error Unit :=
  match s.database with
  | some d => if d.authorizationConsumptions ≠ [consumption t p] then .error .authorityRequired else .ok ()
  | none =>
    match s.files .consumedExternal with
    | none => .error .authorityRequired
    | some b =>
      match readDoc b with
      | none => .error .decode
      | some d => if d ≠ (consumption t p).doc then .error .authorityRequired else .ok ()

def validateConsumed (t : Trust) (p : Plan) : Action Unit := do
  ownedCase p.runId
  Prog.read fun _ => validatePlan t p
  Prog.read (consumed t p)

/-- The UPDATE that marks the run, refused by `run_meta_update_guard` without a
consumption. -/
def markRun : Action Unit := fun s =>
  match s.database with
  | none => ⟨[], .ok ()⟩
  | some d =>
    if d.runStatus = .closed then
      if d.authorizationConsumptions.any fun r => r.guards d.runId then
        ⟨[(.marked, { s with database := some { d with runStatus := .destructionPending } })], .ok ()⟩
      else ⟨[], .error .integrity⟩
    else ⟨[], .ok ()⟩

def persistIntent (t : Trust) (p : Plan) : Action Unit := do
  validateConsumed t p
  immutableJson .intent p.intent.doc
  ownedCase p.runId
  markRun

def validateExternal (t : Trust) (p : Plan) : Action Unit := do
  validateConsumed t p
  Prog.read fun s => if s.files .intent ≠ some p.intent.doc.bytes then .error .intentPrecommit else .ok ()

def unlinkDatabase : Action Unit := Prog.write fun s =>
  if s.database.isSome then [(.database, { s with database := none })] else []

def unlinkSidecar (x : Suffix) : Action Unit := Prog.write fun s =>
  if x ∈ s.sidecars then [(.sidecar x, { s with sidecars := s.sidecars.filter (· ≠ x) })] else []

def deleteBackend (t : Trust) (p : Plan) : Action Unit := do
  validateExternal t p
  ownedCase p.runId
  unlinkDatabase
  unlinkSidecar .journal
  unlinkSidecar .wal
  unlinkSidecar .shm

/-- The worker's `destruction-delete`. -/
def deleteBrowser : Action Unit := Prog.write fun s =>
  if s.browser.isSome then [(.browser, { s with browser := none })] else []

/-- What `write_proof` asks of a proof that is there. -/
def checkProof (t : Trust) (p : Plan) (d : Doc) : Except Error Unit :=
  match readProof d with
  | none => .error .schema
  | some q =>
    if q.conforms = false then .error .schema
    else if q.contentHash ≠ q.hash t ∨ q.runId ≠ p.runId ∨ q.destructionIntentId ≠ p.intent.destructionIntentId ∨
        q.externalProofPath ≠ proofPath p.runId ∨ q.extensionStoreState ≠ "DELETED" ∨ q.backendStoreState ≠ "DELETED" ∨
        q.proofState ≠ "COMPLETE_LOGICAL_DELETION" then .error .proof
    else .ok ()

def writeProof (t : Trust) (p : Plan) (c : Config) (x : Call) : Action Unit := do
  validateExternal t p
  let state ← readActual c
  if state.browserPresent ∨ state.backendPresent then Prog.raise .proofStoresPresent
  else
    match state.proof with
    | some d => Prog.read fun _ => checkProof t p d
    | none =>
      if (deletionProof t p x.proofId).conforms = false then Prog.raise .schema
      else immutableJson .deletionProof (deletionProof t p x.proofId).doc

def checkpointDoc (c : Config) (x : Call) : Doc :=
  record (("run_id", str c.runId) :: ("checkpoint_id", str c.checkpointId) :: ("pid", .int x.pid) :: c.identity)

/-- The process that is not recovering stops at its boundary and waits. -/
def checkpoint (c : Config) (x : Call) (name : String) : Action Unit :=
  if x.recover = false ∧ name = c.checkpointId then do
    immutableJson .checkpoint (checkpointDoc c x)
    Prog.raise .paused
  else pure ()

/-- The committed row, copied beside the database while that exists. -/
def copyConsumption : Action Unit := fun s =>
  match s.database with
  | none => ⟨[], .ok ()⟩
  | some d =>
    match d.authorizationConsumptions with
    | [] => ⟨[], .error .authorityRequired⟩
    | r :: _ => immutableJson .consumedExternal r.doc s

def authorize (t : Trust) (p : Plan) (c : Config) : Action Unit := do
  let actual ← readActual c
  if inventory actual ≠ p.exported.inventory then Prog.raise .inventoryHash
  else insertConsumption t (consumption t p)

/-- The two stores, in the order the boundary asks for. -/
def deleteStores (t : Trust) (p : Plan) (c : Config) (x : Call) : Action Unit :=
  if c.checkpointId = "destroy_04_after_backend_deletion" then do
    deleteBackend t p
    checkpoint c x "destroy_04_after_backend_deletion"
    validateExternal t p
    deleteBrowser
  else do
    validateExternal t p
    deleteBrowser
    checkpoint c x "destroy_03_after_extension_deletion"
    deleteBackend t p

def execute (t : Trust) (p : Plan) (c : Config) (x : Call) : Action Unit := do
  ownedCase c.runId
  Prog.read fun _ => validatePlan t p
  checkpoint c x "destroy_01_before_authority"
  if x.recover = true ∧ c.checkpointId = "destroy_01_before_authority" then pure ()
  else do
    if x.recover = true then pure () else authorize t p c
    validateConsumed t p
    copyConsumption
    checkpoint c x "destroy_01a_after_consumption_before_intent"
    persistIntent t p
    checkpoint c x "destroy_02_after_intent_before_deletion"
    deleteStores t p c x
    checkpoint c x "destroy_05_after_both_deletions_before_proof"
    writeProof t p c x
    checkpoint c x "destroy_06_after_proof"

end BettingHelper.Destruction
