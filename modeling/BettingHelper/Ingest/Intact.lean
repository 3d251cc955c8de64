/-
  BettingHelper.Ingest.Intact — what every run of the Ingestor leaves in the tables.

  Proved (`journal_intact`): after any operations on a store of `create_offline_run`, in
  any order and with any outcomes, `validate_journal` accepts the tables; under every
  position the applied numbers are 1..n; each applied commit has one row in each of the
  four linked tables; its cursor is the chain of `CursorStep` from H0; and the
  confirmations of each owner ascend, name one another and are of durable acknowledgements.
-/

import BettingHelper.Ingest.Preserve

namespace BettingHelper.Ingest

open BettingHelper.Store BettingHelper.Lib

/-- `CursorStep` along the content hashes of a position's observations 1, 2, …, from H0. -/
def cursorChain (h : Hashes) (p : Position) (hashes : List Digest) : Digest :=
  Chain.climb (fun k n x prior => h.cursorStep ⟨k, n, x, prior⟩) p h0 0 hashes

def Db.appliedAt (db : Db Int) (p : Position) : List (RawCommit Int) := db.applied.filter (·.position = p)

/-- The rows of `ack_cursors` of one owner at one position. -/
def Db.history (db : Db Int) (p : Position) (o : AckOwner) : List (AckCursor Int) :=
  db.ackCursors.filter fun r => (r.position, r.owner) = (p, o)

/-- The commit has exactly one application, revision, reducer cursor and acknowledgement,
    each at its position and number. -/
structure OneOfEach (db : Db Int) (raw : RawCommit Int) : Prop where
  application : ∃ a, db.applicationRecords.filter (·.rawCommitId = raw.rawCommitId) = [a] ∧
    a.position = raw.position ∧ a.sequence = raw.sequence
  revision : ∃ d, db.derivedRevisions.filter (·.rawCommitId = raw.rawCommitId) = [d] ∧
    d.position = raw.position ∧ d.sequence = raw.sequence ∧
    ∃ c, db.reducerCursors.filter (·.derivedRevisionId = d.derivedRevisionId) = [c] ∧
      c.position = raw.position ∧ c.highestContiguousSequence = raw.sequence ∧ c.cursorHash = raw.cursorHash
  ack : ∃ a, db.ackOutbox.filter (·.rawCommitId = raw.rawCommitId) = [a] ∧
    a.position = raw.position ∧ a.highestContiguousSequence = raw.sequence ∧ a.cursorHash = raw.cursorHash

structure Intact (h : Hashes) (db : Db Int) : Prop where
  accepted : validateJournal h.cursorStep db = .ok ()
  numbered : ∀ p, (Db.appliedAt db p).map (·.sequence) = List.range' 1 (Db.appliedAt db p).length
  linked : ∀ raw ∈ db.applied, OneOfEach db raw
  chained : ∀ raw ∈ db.applied, raw.cursorHash = cursorChain h raw.position
    (((Db.appliedAt db raw.position).map (·.rawObservationContentHash)).take raw.sequence)
  ascending : ∀ p o, (Db.history db p o).Pairwise fun a b => a.highestContiguousSequence < b.highestContiguousSequence
  /-- The first confirmation names none, each later one the one before it. -/
  naming : ∀ p o, (Db.history db p o).map (·.previousAckCursorId) =
    (none :: (Db.history db p o).map fun a => some a.ackCursorId).dropLast
  durable : ∀ a ∈ db.ackCursors, ∃ o ∈ db.ackOutbox, o.position = a.position ∧
    o.highestContiguousSequence = a.highestContiguousSequence ∧ o.cursorHash = a.cursorHash

namespace Ledger

variable {h : Hashes} {L : Ledger}

/-! ## The rows of one commit -/

/-- A table made from the log has one row with a commit's id, the commit's own. -/
theorem rows_of_commit {ρ : Type} (hs : L.Sound h) (row : Commit → ρ) (id : ρ → RowId) (tag : Tag)
    (hid : ∀ c, id (row c) = ⟨tag, c.cursor⟩) {c : Commit} (hc : c ∈ L.log) :
    (L.log.map row).filter (fun r => id r = ⟨tag, c.cursor⟩) = [row c] := by
  have hf : L.log.filter (fun d => d.cursor = c.cursor) = [c] := by
    have hn := hs.cursors
    obtain ⟨l, m, hlm⟩ := List.append_of_mem hc
    rw [hlm] at hn ⊢
    rw [List.map_append, List.map_cons, List.nodup_append, List.nodup_cons] at hn
    obtain ⟨-, ⟨hm, -⟩, hl⟩ := hn
    have h1 : l.filter (fun d => d.cursor = c.cursor) = [] := by
      refine List.filter_eq_nil_iff.mpr fun d hd => ?_
      simpa using hl d.cursor (List.mem_map_of_mem hd) c.cursor List.mem_cons_self
    have h2 : m.filter (fun d => d.cursor = c.cursor) = [] := by
      refine List.filter_eq_nil_iff.mpr fun d hd => ?_
      intro he
      exact hm (List.mem_map.mpr ⟨d, hd, by simpa using he⟩)
    simp [h1, h2]
  rw [List.filter_map]
  have hg : ((fun r => decide (id r = ⟨tag, c.cursor⟩)) ∘ row) = fun d : Commit => decide (d.cursor = c.cursor) := by
    funext d
    simp [hid]
  rw [hg, hf]
  rfl

theorem mem_applied {raw : RawCommit Int} (hr : raw ∈ (L.tables h).applied) :
    ∃ c ∈ L.log, raw = Entry.raw ⟨c, false⟩ := by
  rw [applied_tables] at hr
  obtain ⟨c, hc, rfl⟩ := List.mem_map.mp hr
  exact ⟨c, hc, rfl⟩

theorem oneOfEach (hs : L.Sound h) {c : Commit} (hc : c ∈ L.log) : OneOfEach (L.tables h) (Entry.raw ⟨c, false⟩) where
  application := ⟨application c, rows_of_commit hs application (·.rawCommitId) .raw (fun _ => rfl) hc, rfl, rfl⟩
  revision := ⟨revision c, rows_of_commit hs revision (·.rawCommitId) .raw (fun _ => rfl) hc, rfl, rfl,
    reducer c, rows_of_commit hs reducer (·.derivedRevisionId) .revision (fun _ => rfl) hc, rfl, rfl, rfl⟩
  ack := ⟨ack c, rows_of_commit hs ack (·.rawCommitId) .raw (fun _ => rfl) hc, rfl, rfl, rfl⟩

theorem appliedAt_tables (p : Position) :
    Db.appliedAt (L.tables h) p = (Chain.chainOf L.log p).map fun c => Entry.raw ⟨c, false⟩ := by
  rw [Db.appliedAt, applied_tables]
  exact filter_rows (fun c => Entry.raw ⟨c, false⟩) (·.position) (fun _ => rfl) _ _

theorem chained (hs : L.Sound h) {c : Commit} (hc : c ∈ L.log) :
    c.cursor = cursorChain h c.key
      (((Db.appliedAt (L.tables h) c.key).map (·.rawObservationContentHash)).take c.seq) := by
  have hm : (Db.appliedAt (L.tables h) c.key).map (·.rawObservationContentHash) =
      ((Chain.chainOf L.log c.key).map (·.payload)).map (·.contentHash) := by
    rw [appliedAt_tables, List.map_map, List.map_map]
    rfl
  rw [hm, ← List.map_take, cursorChain, Chain.climb_map]
  exact Chain.cursor_eq_climb hs.linked hc

/-! ## The confirmations -/

theorem history_tables (p : Position) (o : AckOwner) :
    Db.history (L.tables h) p o = if o = .backend then (confirmedAt L.confirmations p).map (·.row) else [] :=
  filter_confirmations L.confirmations p o

/-- Each confirmation names the one before it. -/
theorem Confirmed.naming {log : List Commit} {l : List Confirmation} (hl : Confirmed log l) (p : Position) :
    (confirmedAt l p).map (·.previous) = (none :: (confirmedAt l p).map fun a => some a.cursor).dropLast := by
  induction hl with
  | nil => rfl
  | @snoc l a _ _ hp _ ih =>
    by_cases e : a.position = p
    · subst e
      have hlast : a.previous ∈ (none :: (confirmedAt l a.position).map fun a => some a.cursor).getLast? := by
        rw [hp, lastOf, List.getLast?_cons, List.getLast?_map]
        cases (confirmedAt l a.position).getLast? <;> rfl
      rw [confirmedAt_snoc_same rfl, List.map_append, ih, List.map_append, ← List.cons_append]
      simp only [List.map_cons, List.map_nil, List.dropLast_concat]
      exact List.dropLast_append_getLast? _ hlast
    · rw [confirmedAt_snoc_ne e]
      exact ih

theorem naming (hs : L.Sound h) (p : Position) (o : AckOwner) :
    (Db.history (L.tables h) p o).map (·.previousAckCursorId) =
      (none :: (Db.history (L.tables h) p o).map fun a => some a.ackCursorId).dropLast := by
  rw [history_tables]
  split
  · have hn := congrArg (List.map (Option.map (RowId.mk .confirmation))) (Confirmed.naming hs.confirmed p)
    rw [List.map_dropLast] at hn
    simpa [Confirmation.row, Function.comp_def] using hn
  · rfl

/-- The tables of a sound ledger. -/
theorem Sound.intact (hs : L.Sound h) : Intact h (L.tables h) where
  accepted := hs.tables_valid
  numbered p := by
    rw [appliedAt_tables, List.map_map, List.length_map]
    exact Chain.seqs_eq hs.linked p
  linked raw hr := by
    obtain ⟨c, hc, rfl⟩ := mem_applied hr
    exact oneOfEach hs hc
  chained raw hr := by
    obtain ⟨c, hc, rfl⟩ := mem_applied hr
    exact chained hs hc
  ascending p o := by
    rw [history_tables]
    split
    · exact List.pairwise_map.mpr (Confirmed.pairwise hs.confirmed p)
    · exact List.Pairwise.nil
  naming := naming hs
  durable a ha := by
    obtain ⟨b, hb, rfl⟩ := List.mem_map.mp ha
    obtain ⟨c, hc, hk, hq, hx⟩ := Confirmed.mem hs.confirmed hb
    exact ⟨ack c, List.mem_map_of_mem hc, hk, hq, hx⟩

end Ledger

/-- Whatever is asked of the Ingestor on a store of `create_offline_run`, the journal stays
    valid, and its tables are linked as `Intact` says. -/
theorem journal_intact {h : Hashes} {c : Context} {t : Int} {db : Db Int} (hc : createOfflineRun h c t = .ok db)
    (ops : List Op) : Intact h (runs h db ops) := by
  obtain ⟨L, hs, hL⟩ := runs_ledger hc ops
  rw [hL]
  exact hs.intact

/-! ## A small run -/

/-- Hash functions that tell the observations of the small run apart. -/
def smallHashes : Hashes where
  cursorStep s := s.previousCursorHash * 3 + s.rawObservationHash * 4096 +
    BitVec.ofNat 256 (1 + s.sequence + 64 * s.position.generation)
  rawObservation o := BitVec.ofNat 256 (1000 + 2 * o.sequence.value + 200 * o.generation.value +
    if o.rest = "" then 0 else 1)
  identity _ _ _ := 7

def smallContext : Context :=
  ⟨"run", "browser", "producer", "stream", plain 0, plain 0xc0de#256, plain 0xbead#256⟩

/-- The observation numbered `n + 1` of a generation; `rest` tells two at one number apart. -/
def smallObservation (generation n : Nat) (rest : String) : Observation :=
  let content : ObservationContent := ⟨rest ++ String.ofList (List.replicate (32 * generation + n) 'o'),
    .networkMetadata, plain 0xbead#256, plain 0xc0de#256, "run", "stream", plain generation, plain (n + 1), .document, "browser",
    "producer", rest, Nat.succ_pos n⟩
  ⟨content, plain (smallHashes.rawObservation content)⟩

def smallStore : Db Int := (Ledger.fresh smallContext 10).tables smallHashes

theorem smallStore_created : createOfflineRun smallHashes smallContext 10 = .ok smallStore :=
  Ledger.createOfflineRun_ok.mpr ⟨by decide, rfl⟩

/-- Two observations, the first confirmed, a gap, a redelivery that finds the generation
    closed, the missing observation late, and a first one of generation 1. -/
def smallRun : List Op :=
  [.apply 11 (smallObservation 0 0 ""), .apply 12 (smallObservation 0 1 ""),
    .confirmAck 13 (.row (ack ((Ledger.fresh smallContext 10).nextCommit smallHashes 11 (smallObservation 0 0 "")))),
    .apply 14 (smallObservation 0 3 ""), .apply 15 (smallObservation 0 0 ""),
    .storeLateRepair 16 (smallObservation 0 2 ""), .apply 17 (smallObservation 1 0 "")]

theorem journal_intact_smallRun : (runs smallHashes smallStore smallRun).rawCommits.length = 4 ∧
    (runs smallHashes smallStore smallRun).ackCursors.length = 1 ∧
    Intact smallHashes (runs smallHashes smallStore smallRun) :=
  ⟨by decide +kernel, by decide +kernel, journal_intact smallStore_created smallRun⟩

end BettingHelper.Ingest
