/-
  BettingHelper.Extension.Spool — the extension's durable spool (spool.ts).

  A database is the stream's state record (`undefined` before the first write) and the
  rows of its generation in the order of their keys; what is in them is any value that
  structured clone stores, tampered with or not. A spool keeps the entries whose hashes
  it has checked (`Cache`). `validate` returns whether it throws, and the cache as it is
  left either way. Each function that throws returns `none`.

  `append` runs without another writer between its snapshot and its write.
-/

import BettingHelper.Extension.Canonical
import BettingHelper.Lib.Decimal

namespace BettingHelper.Extension

open Lib.Json (Text text isDigit natText isDecimal digitsValue padLeft)

variable {F : Type}

def H0 : Text := text "149300a0e3954885a1d6c0f13a9d1101227cc21cce37bd6b7c72eab641741c0c"

def maximum : Int := 9223372036854775807

def isLowerHex (c : Nat) : Bool := isDigit c || (0x61 ≤ c && c ≤ 0x66)

/-- `/^[0-9a-f]{8}-[0-9a-f]{4}-[0-9a-f]{4}-[0-9a-f]{4}-[0-9a-f]{12}$/` -/
def uuid (s : Text) : Bool :=
  s.length = 36 && (s.zipIdx.all fun (c, i) => if i ∈ [8, 13, 18, 23] then c = '-'.toNat else isLowerHex c)

/-- `BigInt(v)`, where `String(v)` is the decimal `s`. -/
def toBigInt (P : Platform F) (v : Js F) (s : Text) : Nat :=
  match v with
  | .number x => P.integer x
  | _ => digitsValue s

/-- The pattern is tested on `String(v)`. -/
def decimalOf (P : Platform F) (v : Js F) : Option Int := do
  let s ← v.toStr P
  guard (isDecimal s)
  guard (toBigInt P v s ≤ maximum)
  some (toBigInt P v s)

structure SpoolOptions (F : Type) where
  browserRunId : Text
  producerId : Text
  streamId : Text
  generation : Text
  validateRaw : Js F → Bool
  normalByteLimit : Option Int

/-- An object literal. -/
def literalObject (l : List (String × Js F)) : Js F := .object 0 (l.map fun m => (text m.1, m.2))

def str (s : String) : Js F := .string (text s)

/-- A row of the store and its key, an array of strings. -/
structure Row (F : Type) where
  key : List Text
  entry : Js F

structure Database (F : Type) where
  state : Js F
  rows : List (Row F)

/-- What is stored are values: no object has two members of one name. -/
def Database.Proper (db : Database F) : Prop := ∀ row ∈ db.rows, row.entry.Proper

/-- `verifiedRegistry` and `verifiedEntries`. -/
structure Cache (F : Type) where
  registry : Option CanonicalRegistry
  entries : List (Text × Js F)

def Cache.empty : Cache F := ⟨none, []⟩

namespace Spool

variable (P : Platform F) (digest : List UInt8 → Text) (c : SpoolOptions F)

def limit : Int := c.normalByteLimit.getD 133169152

/-- `configuration()` returns. -/
def configured : Bool :=
  uuid c.browserRunId && uuid c.producerId && uuid c.streamId && (decimalOf P (.string c.generation)).isSome &&
    (1024 ≤ limit c && limit c ≤ 133169152)

def initial : Js F := literalObject [
  ("storage_schema_version", str "browser-stream-state/v1"),
  ("producer_id", .string c.producerId), ("stream_id", .string c.streamId),
  ("active_generation", .string c.generation), ("next_sequence", str "1"), ("last_cursor_hash", .string H0),
  ("ack_generation", .string c.generation), ("ack_sequence", str "0"), ("ack_cursor_hash", .string H0),
  ("normal_bytes_used", str "0"), ("terminal_reserve_bytes_used", str "0"), ("generation_state", str "ACTIVE")]

def key (sequence : Text) : List Text := [c.producerId, c.streamId, padLeft 19 c.generation, padLeft 19 sequence]

def generationKey : Js F := literalObject [
  ("stream", literalObject [("browser_run_id", .string c.browserRunId), ("producer_id", .string c.producerId),
    ("stream_id", .string c.streamId)]),
  ("generation", .string c.generation)]

def cursor (registry : CanonicalRegistry) (raw previous : Js F) : Option Text := do
  let discoveryRunId ← raw.get "discovery_run_id"
  let sequence ← raw.get "sequence"
  let rawHash ← raw.get "content_hash"
  canonicalContentHash P digest registry (text "CursorStep") (literalObject [
    ("schema_version", str "cursor-step/v1"), ("discovery_run_id", discoveryRunId),
    ("browser_run_id", .string c.browserRunId), ("producer_id", .string c.producerId),
    ("stream_id", .string c.streamId), ("generation", .string c.generation), ("sequence", sequence),
    ("raw_observation_hash", rawHash), ("previous_cursor_hash", previous)])

/-- `left === right`, where right is a string. -/
def isText (v : Js F) (s : Text) : Bool := v.strictEq P (.string s)

/-- The state's keys and its fixed members. -/
def checkState (state : Js F) : Option Unit := do
  guard (state.sortedKeys.isSome && state.sortedKeys = (initial c).sortedKeys)
  guard (isText P (← state.get "storage_schema_version") (text "browser-stream-state/v1"))
  guard (isText P (← state.get "producer_id") c.producerId)
  guard (isText P (← state.get "stream_id") c.streamId)
  guard (isText P (← state.get "active_generation") c.generation)
  guard (isText P (← state.get "ack_generation") c.generation)
  guard (isText P (← state.get "generation_state") (text "ACTIVE"))
  guard (isText P (← state.get "terminal_reserve_bytes_used") (text "0"))

/-- What append and validate both ask of an observation. -/
def boundTo (raw : Js F) : Option Unit := do
  guard (c.validateRaw raw)
  let context ← raw.get "context"
  guard (isText P (← context.get "browser_run_id") c.browserRunId)
  guard (isText P (← raw.get "stream_id") c.streamId)
  guard (isText P (← raw.get "generation") c.generation)
  let discoveryRunId ← raw.get "discovery_run_id"
  guard (uuid (← discoveryRunId.toStr P))

/-- What is checked of every entry on every snapshot: its record, its observation and its size. -/
def checkEntry (index : Nat) (previous entry : Js F) : Option (Js F × Js F × Int) := do
  let row ← entry.get "spool_record"
  let raw ← entry.get "sanitized_observation"
  boundTo P c raw
  let position ← row.get "position"
  let sequence ← position.get "sequence"
  guard ((← raw.get "sequence").strictEq P sequence)
  let size ← decimalOf P (← row.get "payload_size_bytes")
  guard (size ≤ 65536)
  guard (entry.sortedKeys = some [text "sanitized_observation", text "spool_record", text "storage_schema_version"])
  guard (isText P (← entry.get "storage_schema_version") (text "browser-spool-entry/v1"))
  guard (isText P sequence (natText (index + 1)))
  guard ((← row.get "previous_cursor_hash").strictEq P previous)
  guard ((← row.get "raw_observation_id").strictEq P (← raw.get "raw_observation_id"))
  guard ((← row.get "raw_observation_content_hash").strictEq P (← raw.get "content_hash"))
  guard ((← position.get "generation_key").same P (generationKey c) = some true)
  some (row, raw, size)

/-- `checkEntry` returns. -/
structure Checked (index : Nat) (previous entry row raw : Js F) (size : Int) : Prop where
  row_eq : entry.get "spool_record" = some row
  raw_eq : entry.get "sanitized_observation" = some raw
  bound : boundTo P c raw = some ()
  position : ∃ position, row.get "position" = some position ∧
    (∃ sequence, position.get "sequence" = some sequence ∧ isText P sequence (natText (index + 1)) = true ∧
      ∃ s, raw.get "sequence" = some s ∧ s.strictEq P sequence = true) ∧
    ∃ key, position.get "generation_key" = some key ∧ key.same P (generationKey c) = some true
  size_eq : (row.get "payload_size_bytes").bind (decimalOf P) = some size
  size_le : size ≤ 65536
  keys : entry.sortedKeys = some [text "sanitized_observation", text "spool_record", text "storage_schema_version"]
  version : ∃ v, entry.get "storage_schema_version" = some v ∧ isText P v (text "browser-spool-entry/v1") = true
  previous_eq : ∃ v, row.get "previous_cursor_hash" = some v ∧ v.strictEq P previous = true
  id_eq : ∃ v w, row.get "raw_observation_id" = some v ∧ raw.get "raw_observation_id" = some w ∧ v.strictEq P w = true
  hash_eq : ∃ v w, row.get "raw_observation_content_hash" = some v ∧ raw.get "content_hash" = some w ∧ v.strictEq P w = true

theorem checkEntry_iff {index : Nat} {previous entry row raw : Js F} {size : Int} :
    checkEntry P c index previous entry = some (row, raw, size) ↔ Checked P c index previous entry row raw size := by
  simp only [checkEntry, Option.bind_eq_bind, Option.bind_eq_some_iff, Option.guard_eq_some', exists_const]
  constructor
  · rintro ⟨row', hrow, raw', hraw, u, hb, position, hpos, sequence, hseq, s, hs, hss, p, hp, n, hn, hle, hk, v, hv, hvt, ht, q,
      hq, hqe, i, hi, j, hj, hij, x, hx, y, hy, hxy, g, hg, hge, he⟩
    cases he
    exact ⟨hrow, hraw, hb, ⟨position, hpos, ⟨sequence, hseq, ht, s, hs, hss⟩, g, hg, hge⟩, by rw [hp]; exact hn, hle, hk,
      ⟨v, hv, hvt⟩, ⟨q, hq, hqe⟩, ⟨i, j, hi, hj, hij⟩, ⟨x, y, hx, hy, hxy⟩⟩
  · rintro ⟨hrow, hraw, hb, ⟨position, hpos, ⟨sequence, hseq, ht, s, hs, hss⟩, g, hg, hge⟩, hsize, hle, hk, ⟨v, hv, hvt⟩,
      ⟨q, hq, hqe⟩, ⟨i, j, hi, hj, hij⟩, ⟨x, y, hx, hy, hxy⟩⟩
    obtain ⟨p, hp, hn⟩ := Option.bind_eq_some_iff.mp hsize
    exact ⟨row, hrow, raw, hraw, (), hb, position, hpos, sequence, hseq, s, hs, hss, p, hp, size, hn, hle, hk, v, hv, hvt, ht, q,
      hq, hqe, i, hi, j, hj, hij, x, hx, y, hy, hxy, g, hg, hge, rfl⟩

/-- What is checked of an entry that is not identical to a verified one. -/
def verifyEntry (registry : CanonicalRegistry) (previous row raw : Js F) : Option Unit := do
  let size ← decimalOf P (← row.get "payload_size_bytes")
  let bytes ← raw.canonicalBytes P
  guard ((bytes.length : Int) ≤ size)
  guard (isText P (← row.get "cursor_hash") (← cursor P digest c registry raw previous))
  guard (isText P (← row.get "content_hash") (← canonicalContentHash P digest registry (text "SpoolRecord") row))
  guard (isText P (← raw.get "content_hash") (← canonicalContentHash P digest registry (text "RawObservation") raw))

/-- The loop over the entries: the last cursor hash and the bytes used, and the verified entries as they are left. -/
def validateEntries (registry : CanonicalRegistry) : List (Text × Js F) → Nat → Js F → Int → List (Js F) →
    Option (Js F × Int) × List (Text × Js F)
  | verified, _, previous, bytes, [] => (some (previous, bytes), verified)
  | verified, index, previous, bytes, entry :: rest =>
    match checkEntry P c index previous entry with
    | none => (none, verified)
    | some (row, raw, size) =>
      let sequence := natText (index + 1)
      let next := (row.get "cursor_hash").getD .undefined
      if ((verified.lookup sequence).getD .undefined).identical P entry then
        validateEntries registry verified (index + 1) next (bytes + size) rest
      else
        match verifyEntry P digest c registry previous row raw with
        | none => (none, verified)
        | some _ => validateEntries registry ((sequence, entry) :: verified) (index + 1) next (bytes + size) rest

/-- `entries[n - 1]?.spool_record.cursor_hash`, or H0. -/
def ackHash (entries : List (Js F)) (ack : Int) : Option (Js F) :=
  if ack = 0 then some (.string H0)
  else
    match entries[ack.toNat - 1]? with
    | none => some .undefined
    | some entry => do
      let row ← entry.get "spool_record"
      row.get "cursor_hash"

/-- The state's counters against the entries. -/
def checkCounters (state : Js F) (entries : List (Js F)) (previous : Js F) (bytes : Int) : Option Unit := do
  let ack ← decimalOf P (← state.get "ack_sequence")
  let next ← decimalOf P (← state.get "next_sequence")
  guard (next = entries.length + 1)
  guard ((← state.get "last_cursor_hash").strictEq P previous)
  let used ← decimalOf P (← state.get "normal_bytes_used")
  guard (used = bytes)
  guard (ack ≤ entries.length)
  guard ((← state.get "ack_cursor_hash").strictEq P (← ackHash entries ack))

/-- `identicalEntry(verifiedRegistry, registry)`, or a new start. -/
def Cache.fresh (cache : Cache F) (registry : CanonicalRegistry) : Cache F :=
  if cache.registry = some registry then cache else ⟨some registry, []⟩

def validate (registry : CanonicalRegistry) (cache : Cache F) (state : Js F) (entries : List (Js F)) : Bool × Cache F :=
  if configured P c then
    let verified := (Cache.fresh cache registry).entries
    match checkState P c state with
    | none => (false, ⟨some registry, verified⟩)
    | some _ =>
      match validateEntries P digest c registry verified 0 (.string H0) 0 entries with
      | (none, verified) => (false, ⟨some registry, verified⟩)
      | (some (previous, bytes), verified) =>
        ((checkCounters P state entries previous bytes).isSome, ⟨some registry, verified⟩)
  else (false, cache)

/-- `await stateRequest ?? this.initial()` -/
def stateOf (db : Database F) : Js F :=
  match db.state with
  | .undefined => initial c
  | .null => initial c
  | state => state

/-- The key a row stands under is the one of its own sequence. -/
def keyed (row : Row F) : Option Unit := do
  let record ← row.entry.get "spool_record"
  let position ← record.get "position"
  match ← position.get "sequence" with
  | .string sequence => guard (row.key = key c sequence)
  | _ => none

def snapshot (registry : CanonicalRegistry) (cache : Cache F) (db : Database F) : Bool × Cache F :=
  if configured P c ∧ ∀ row ∈ db.rows, (keyed c row).isSome then
    validate P digest c registry cache (stateOf c db) (db.rows.map (·.entry))
  else (false, cache)

/-! ## Appending -/

/-- The record of an observation. -/
def record (committedAt : Text) (sequence rawId rawHash previous : Js F) (cursorHash : Text) (size : Nat) (hash : Text) :
    Js F := literalObject [
  ("record_type", str "SpoolRecord"), ("schema_version", str "1"), ("content_hash", .string hash),
  ("guarantee", str "EFFECTIVELY_ONCE_AFTER_DURABLE_LOCAL_SPOOL_COMMIT"),
  ("spool_record_id", .string (text "SPOOL:" ++ cursorHash)),
  ("position", literalObject [("generation_key", generationKey c), ("sequence", sequence)]),
  ("raw_observation_id", rawId), ("raw_observation_content_hash", rawHash),
  ("previous_cursor_hash", previous), ("cursor_hash", .string cursorHash),
  ("cursor_hash_verification", str "VERIFIED_HD_CURSOR_STEP_V1"), ("spool_state", str "DURABLY_SPOOLED"),
  ("committed_at", .string committedAt), ("payload_size_bytes", .string (natText size)),
  ("individual_deletion_eligible", .bool false)]

def entryOf (record raw : Js F) : Js F := literalObject [
  ("storage_schema_version", str "browser-spool-entry/v1"), ("spool_record", record), ("sanitized_observation", raw)]

/-- `{...v, k: w}` -/
def setMember (v : Js F) (k : String) (w : Js F) : Js F :=
  match v with
  | .object r l =>
    .object r (if hasOwn l (text k) then l.map fun m => if m.1 = text k then (m.1, w) else m else l ++ [(text k, w)])
  | _ => v

/-- `add`: the rows stay in the order of their keys. -/
def addRow (rows : List (Row F)) (row : Row F) : Option (List (Row F)) :=
  if ∃ r ∈ rows, r.key = row.key then none
  else some (rows.takeWhile (fun r => r.key < row.key) ++ row :: rows.dropWhile fun r => r.key < row.key)

inductive Appended (F : Type) where
  | existing (record : Js F)
  | committed (record : Js F) (db : Database F)

/-- The entry whose position is the observation's, when it holds the same observation. -/
def existingRecord (entries : List (Js F)) (raw sequence : Js F) : Option (Js F) := do
  let entry ← entries.find? fun entry =>
    (((entry.get "spool_record").bind (·.get "position")).bind (·.get "sequence")).any (·.strictEq P sequence)
  guard ((← entry.get "sanitized_observation").same P raw = some true)
  entry.get "spool_record"

/-- What is asked of the given bytes before the spool is read. -/
def validated (registry : CanonicalRegistry) (canonicalSanitizedBytes canonicalBytes : List UInt8) : Option (Js F) := do
  guard (canonicalSanitizedBytes = canonicalBytes)
  guard (canonicalSanitizedBytes.length ≤ 65536)
  let raw ← parseStrictJson P canonicalSanitizedBytes
  guard (configured P c)
  boundTo P c raw
  guard ((← decimalOf P (← raw.get "sequence")) ≠ 0)
  guard (isText P (← raw.get "content_hash") (← canonicalContentHash P digest registry (text "RawObservation") raw))
  some raw

/-- The record of an observation, with its hash. -/
def hashedRecord (registry : CanonicalRegistry) (committedAt : Text) (raw sequence previous : Js F) (cursorHash : Text)
    (size : Nat) : Option (Js F) := do
  let rawId ← raw.get "raw_observation_id"
  let rawHash ← raw.get "content_hash"
  let hash ← canonicalContentHash P digest registry (text "SpoolRecord")
    (record c committedAt sequence rawId rawHash previous cursorHash size (List.replicate 64 '0'.toNat))
  some (record c committedAt sequence rawId rawHash previous cursorHash size hash)

/-- One transaction: the state is read again and compared, the entry is added and the state put. `indexes` is whether the
two unique indexes let an entry in beside the others; the key pads the sequence, which it can only do to a string. -/
def write (indexes : List (Js F) → Js F → Bool) (db : Database F) (previous next sequence entry : Js F) :
    Option (Database F) := do
  guard ((stateOf c db).same P previous = some true)
  guard (indexes (db.rows.map (·.entry)) entry)
  let own ← match sequence with
    | .string s => some (key c s)
    | _ => none
  let rows ← addRow db.rows ⟨own, entry⟩
  some ⟨next, rows⟩

/-- The state after an observation of that size is appended. -/
def nextState (state : Js F) (next used : Int) (cursorHash : Text) : Js F :=
  setMember (setMember (setMember state "next_sequence" (.string (natText (next + 1).toNat)))
    "last_cursor_hash" (.string cursorHash)) "normal_bytes_used" (.string (natText used.toNat))

/-- The observation is the next one. -/
def appendNext (indexes : List (Js F) → Js F → Bool) (registry : CanonicalRegistry) (committedAt : Text) (raw sequence : Js F)
    (size : Nat) (db : Database F) (next : Int) : Option (Appended F) := do
  let state := stateOf c db
  guard (sequence.strictEq P (← state.get "next_sequence"))
  guard (next ≠ maximum)
  let used ← decimalOf P (← state.get "normal_bytes_used")
  guard (used + size ≤ limit c)
  let previous ← state.get "last_cursor_hash"
  let cursorHash ← cursor P digest c registry raw previous
  let record ← hashedRecord P digest c registry committedAt raw sequence previous cursorHash size
  let db ← write P c indexes db state (nextState state next (used + size) cursorHash) sequence (entryOf record raw)
  some (.committed record db)

def append (indexes : List (Js F) → Js F → Bool) (registry : CanonicalRegistry) (cache : Cache F) (committedAt : Text)
    (canonicalSanitizedBytes canonicalBytes : List UInt8) (db : Database F) : Option (Appended F) := do
  let raw ← validated P digest c registry canonicalSanitizedBytes canonicalBytes
  let sequence ← raw.get "sequence"
  guard (snapshot P digest c registry cache db).1
  let next ← decimalOf P (← (stateOf c db).get "next_sequence")
  if (← decimalOf P sequence) < next then
    (existingRecord P (db.rows.map (·.entry)) raw sequence).map .existing
  else appendNext P digest c indexes registry committedAt raw sequence canonicalSanitizedBytes.length db next

end Spool

end BettingHelper.Extension
