/-
  BettingHelper.Store.Journal — `store.validate_journal`.

  The hash of a cursor step (`canonical_content_hash("CursorStep", …)`) is a parameter:
  any function of the position, the number, the observation's hash and the prior cursor.
-/

import Mathlib
import BettingHelper.Lib.Keyed
import BettingHelper.Store.Constraints

namespace BettingHelper.Store

open BettingHelper.Lib

/-- The fields of a cursor step that vary; its `schema_version` does not. -/
structure CursorStep where
  position : Position
  sequence : Nat
  rawObservationHash : Digest
  previousCursorHash : Digest
  deriving DecidableEq, Repr

variable {τ : Type}

def Db.applied (db : Db τ) : List (RawCommit τ) := db.rawCommits.filter (·.disposition = .applied)

/-- A tuple of `KEY` and a number, compared as Python compares tuples. -/
def sortKey (p : Position) (n : Nat) : (String ×ₗ String ×ₗ String ×ₗ String ×ₗ Nat) ×ₗ Nat :=
  toLex (toLex (p.stream.runId, toLex (p.stream.browserRunId, toLex (p.stream.producerId,
    toLex (p.stream.streamId, p.generation)))), n)

/-! ## The durable chain -/

/-- The four linked tables have one row for each applied commit, at distinct positions. -/
def Db.tablesLinked (db : Db τ) : Prop :=
  (db.applicationRecords.length = db.applied.length ∧ db.derivedRevisions.length = db.applied.length ∧
    db.reducerCursors.length = db.applied.length ∧ db.ackOutbox.length = db.applied.length) ∧
  (db.applicationRecords.map fun r => (r.position, r.sequence)).Nodup ∧
  (db.derivedRevisions.map fun r => (r.position, r.sequence)).Nodup ∧
  (db.reducerCursors.map fun r => (r.position, r.highestContiguousSequence)).Nodup ∧
  (db.ackOutbox.map fun r => (r.position, r.highestContiguousSequence)).Nodup
  deriving Decidable

def Db.applicationAt (db : Db τ) (p : Position) (n : Nat) : Option (ApplicationRecord τ) :=
  db.applicationRecords.find? fun r => r.position = p ∧ r.sequence = n

def Db.revisionAt (db : Db τ) (p : Position) (n : Nat) : Option (DerivedRevision τ) :=
  db.derivedRevisions.find? fun r => r.position = p ∧ r.sequence = n

def Db.cursorAt (db : Db τ) (p : Position) (n : Nat) : Option (ReducerCursor τ) :=
  db.reducerCursors.find? fun r => r.position = p ∧ r.highestContiguousSequence = n

def Db.ackAt (db : Db τ) (p : Position) (n : Nat) : Option (AckOutbox τ) :=
  db.ackOutbox.find? fun r => r.position = p ∧ r.highestContiguousSequence = n

/-- The records of one applied commit name each other, `prior` and `digest`. -/
def recordsLinked (raw : RawCommit τ) (app : ApplicationRecord τ) (revision : DerivedRevision τ)
    (cursor : ReducerCursor τ) (ack : AckOutbox τ) (sequence : Nat) (prior digest : Digest) : Prop :=
  app.rawCommitId = raw.rawCommitId ∧ revision.rawCommitId = raw.rawCommitId ∧ ack.rawCommitId = raw.rawCommitId ∧
  revision.applicationId = app.applicationId ∧ ack.applicationId = app.applicationId ∧
  cursor.derivedRevisionId = revision.derivedRevisionId ∧ ack.derivedRevisionId = revision.derivedRevisionId ∧
  ack.reducerCursorId = cursor.reducerCursorId ∧ app.inputCursorHash = prior ∧ cursor.previousCursorHash = prior ∧
  app.rawObservationContentHash = raw.rawObservationContentHash ∧
  cursor.rawObservationContentHash = raw.rawObservationContentHash ∧
  cursor.cursorHash = digest ∧ ack.cursorHash = digest ∧ revision.revisionHash = digest ∧
  revision.revision = sequence + 1 ∧ revision.previousRevisionHash = if sequence = 0 then none else some prior
  deriving Decidable

/-- One pass of the loop over the sorted commits: `state` is `chains.get(key, (0, h0))`. -/
def durableLink (cursorStep : CursorStep → Digest) (db : Db τ) (state : Nat × Digest) (raw : RawCommit τ) :
    Option (Nat × Digest) :=
  let (sequence, prior) := state
  let digest := cursorStep ⟨raw.position, raw.sequence, raw.rawObservationContentHash, prior⟩
  if raw.sequence = sequence + 1 ∧ raw.previousCursorHash = prior ∧ raw.cursorHash = digest then
    match db.applicationAt raw.position (sequence + 1), db.revisionAt raw.position (sequence + 1),
      db.cursorAt raw.position (sequence + 1), db.ackAt raw.position (sequence + 1) with
    | some app, some revision, some cursor, some ack =>
      if recordsLinked raw app revision cursor ack sequence prior digest then some (sequence + 1, digest) else none
    | _, _, _, _ => none
  else none

/-! ## The confirmations -/

def requiredBinding : AckOwner → VerifiedAgainst
  | .backend => .backendDurableChain
  | .extension => .localSpoolChain

/-- `valid` for one row of ack_cursors, after the row `previous` of the same owner. -/
def ackValid (db : Db τ) (previous : Option (AckCursor τ)) (ack : AckCursor τ) : Prop :=
  if ack.highestContiguousSequence = 0 then
    previous = none ∧ ack.previousAckCursorId = none ∧ ack.cursorHash = h0
  else
    ack.previousAckCursorId = previous.map (·.ackCursorId) ∧
    (∀ p ∈ previous, p.highestContiguousSequence < ack.highestContiguousSequence) ∧
    (db.ackAt ack.position ack.highestContiguousSequence).map (·.cursorHash) = some ack.cursorHash

instance [DecidableEq τ] (db : Db τ) (previous : Option (AckCursor τ)) (ack : AckCursor τ) :
    Decidable (ackValid db previous ack) := by unfold ackValid; infer_instance

def ackLink [DecidableEq τ] (db : Db τ) (previous : Option (AckCursor τ)) (ack : AckCursor τ) :
    Option (Option (AckCursor τ)) :=
  if ack.verifiedAgainst = requiredBinding ack.owner ∧ ackValid db previous ack then some (some ack) else none

def ownerRank : AckOwner → Nat
  | .backend => 0
  | .extension => 1

/-- Sorted by KEY, owner ("BACKEND" before "EXTENSION") and number. -/
def ackSortKey (r : AckCursor τ) : (String ×ₗ String ×ₗ String ×ₗ String ×ₗ Nat) ×ₗ (Nat ×ₗ Nat) :=
  toLex ((ofLex (sortKey r.position 0)).1, toLex (ownerRank r.owner, r.highestContiguousSequence))

/-- `store.validate_journal`. -/
def validateJournal [DecidableEq τ] (cursorStep : CursorStep → Digest) (db : Db τ) : Except StoreError Unit :=
  if db.tablesLinked then
    match Keyed.scan (·.position) (durableLink cursorStep db) (fun _ => (0, h0))
        (db.applied.insertionSort fun a b => sortKey a.position a.sequence ≤ sortKey b.position b.sequence) with
    | none => .error .durableChain
    | some _ =>
      match Keyed.scan (fun r : AckCursor τ => (r.position, r.owner)) (ackLink db) (fun _ => none)
          (db.ackCursors.insertionSort fun a b => ackSortKey a ≤ ackSortKey b) with
      | none => .error .ackChain
      | some _ => .ok ()
  else .error .durableChain

/-! ## What it accepts -/

theorem sortKey_lt {p : Position} {m n : Nat} : sortKey p m < sortKey p n ↔ m < n := by
  simp [sortKey, Prod.Lex.toLex_lt_toLex]

theorem ackSortKey_lt {r s : AckCursor τ} (hp : r.position = s.position) (ho : r.owner = s.owner) :
    ackSortKey r < ackSortKey s ↔ r.highestContiguousSequence < s.highestContiguousSequence := by
  simp [ackSortKey, hp, ho, Prod.Lex.toLex_lt_toLex]

/-- It accepts the tables when the linked rows line up and every chain and every
    owner's history passes in the order its rows were inserted. -/
theorem validateJournal_ok [DecidableEq τ] {cursorStep : CursorStep → Digest} {db : Db τ} (ht : db.tablesLinked)
    (hseq : ∀ p, (db.applied.filter (·.position = p)).Pairwise fun a b => a.sequence < b.sequence)
    (hchain : ∀ p, (Keyed.run (durableLink cursorStep db) (0, h0) (db.applied.filter (·.position = p))).isSome)
    (haseq : ∀ k, (db.ackCursors.filter fun r => (r.position, r.owner) = k).Pairwise
      fun a b => a.highestContiguousSequence < b.highestContiguousSequence)
    (hack : ∀ k, (Keyed.run (ackLink db) none (db.ackCursors.filter fun r => (r.position, r.owner) = k)).isSome) :
    validateJournal cursorStep db = .ok () := by
  have hd : (Keyed.scan (·.position) (durableLink cursorStep db) (fun _ => (0, h0))
      (db.applied.insertionSort fun a b => sortKey a.position a.sequence ≤ sortKey b.position b.sequence)).isSome := by
    refine (Keyed.scan_isSome_iff _ _ _ _).mpr fun p => ?_
    rw [Keyed.filter_insertionSort (fun r : RawCommit τ => sortKey r.position r.sequence)]
    · exact hchain p
    · refine (hseq p).imp_of_mem fun {a b} ha hb hab => ?_
      simp only [List.mem_filter, decide_eq_true_eq] at ha hb
      rw [ha.2, hb.2]
      exact sortKey_lt.mpr hab
  have ha : (Keyed.scan (fun r : AckCursor τ => (r.position, r.owner)) (ackLink db) (fun _ => none)
      (db.ackCursors.insertionSort fun a b => ackSortKey a ≤ ackSortKey b)).isSome := by
    refine (Keyed.scan_isSome_iff _ _ _ _).mpr fun k => ?_
    rw [Keyed.filter_insertionSort ackSortKey]
    · exact hack k
    · refine (haseq k).imp_of_mem fun {a b} ha hb hab => ?_
      simp only [List.mem_filter, decide_eq_true_eq] at ha hb
      have e : (a.position, a.owner) = (b.position, b.owner) := ha.2.trans hb.2.symm
      simp only [Prod.mk.injEq] at e
      exact (ackSortKey_lt e.1 e.2).mpr hab
  unfold validateJournal
  rw [if_pos ht]
  obtain ⟨f, hf⟩ := Option.isSome_iff_exists.mp hd
  obtain ⟨g, hg⟩ := Option.isSome_iff_exists.mp ha
  rw [hf]
  simp only
  rw [hg]

end BettingHelper.Store
