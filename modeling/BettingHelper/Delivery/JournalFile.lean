/-
  BettingHelper.Delivery.JournalFile — the rows of receive.jsonl and the file that holds
  them, as `InputJournal._rows` reads it.

  A file is its complete lines and the bytes after the last newline (a row's canonical
  text holds none). Every complete line is a row: whether the rows are a journal is what
  `_rows` checks. The canonical text of a row and the hashes are parameters (`Wire`).
-/

import BettingHelper.Ingest.Ingestor

namespace BettingHelper.Delivery

open BettingHelper.Store BettingHelper.Ingest BettingHelper.Lib

/-- The value of a text that matches `UUID`: its 122 free bits. -/
abbrev BatchId := BitVec 122

/-- The codes of a REJECTED outcome. -/
inductive RejectCode where
  | gap
  | conflict
  | closedGeneration
  | storageFailed
  deriving DecidableEq, Repr

/-- `{"status": "APPLIED", "ack": …}` or `{"status": "REJECTED", "code": …}`. -/
inductive Outcome where
  | applied (ack : AckOutbox Int)
  | rejected (code : RejectCode)
  deriving DecidableEq, Repr

/-- What a RECEIVED row says of a delivery. -/
structure Received where
  rawHash : Digest
  batchId : BatchId
  generation : DecimalText
  sequence : DecimalText
  deriving DecidableEq, Repr

/-- What a row holds besides its place in the chain. The artifact of a PARTIAL_TAIL is the
    digest its name `partial-tail-<digest>.jsonl` holds. -/
inductive Body where
  | received (reference : Nat) (delivery : Received)
  | outcome (reference : Nat) (outcome : Outcome)
  | ackConfirmation (generation sequence : DecimalText) (cursorHash : Digest)
  | partialTail (artifact artifactSha256 : Digest)
  deriving DecidableEq, Repr

structure Row where
  rowIndex : Nat
  previousRowHash : Digest
  body : Body
  rowHash : Digest
  deriving DecidableEq, Repr

structure JournalFile where
  rows : List Row
  /-- The bytes after the last newline. -/
  tail : List UInt8
  deriving DecidableEq, Repr

structure Wire where
  /-- `sha256(DOMAIN + rfc8785.dumps(row without row_hash))` -/
  rowHash : Nat → Digest → Body → Digest
  /-- `rfc8785.dumps(row)` -/
  text : Row → List UInt8
  /-- `sha256(data)` of a journal file's bytes -/
  fileHash : JournalFile → Digest

/-! ## Reading -/

/-- A RECEIVED row's `reference_receive_index` and what it received. -/
def Body.asDelivery : Body → Option (Nat × Received)
  | .received n x => some (n, x)
  | _ => none

/-- An OUTCOME row's `reference_receive_index` and its outcome. -/
def Body.asSettlement : Body → Option (Nat × Outcome)
  | .outcome n x => some (n, x)
  | _ => none

def deliveries (rows : List Row) : List (Nat × Received) := rows.filterMap (·.body.asDelivery)

def settlements (rows : List Row) : List (Nat × Outcome) := rows.filterMap (·.body.asSettlement)

def receivedReferences (rows : List Row) : List Nat := (deliveries rows).map (·.1)

def outcomeReferences (rows : List Row) : List Nat := (settlements rows).map (·.1)

/-- The RECEIVED rows of a receive index. -/
def receivedAt (rows : List Row) (index : Nat) : List Received := ((deliveries rows).filter (·.1 = index)).map (·.2)

/-- The outcomes recorded of a receive index. -/
def outcomesAt (rows : List Row) (index : Nat) : List Outcome := ((settlements rows).filter (·.1 = index)).map (·.2)

/-- What the loop of `_rows` keeps from row to row. -/
structure Reading where
  previous : Digest
  index : Nat
  receives : Nat
  outcomes : List Nat
  deriving DecidableEq, Repr

/-- The row's reference fits the rows before it. -/
def Reading.refers (s : Reading) : Body → Prop
  | .received n _ => n = s.receives + 1
  | .outcome n _ => (1 ≤ n ∧ n ≤ s.receives) ∧ n ∉ s.outcomes
  | .ackConfirmation _ _ _ => True
  | .partialTail _ _ => True

instance (s : Reading) (b : Body) : Decidable (s.refers b) := by
  cases b <;> unfold Reading.refers <;> infer_instance

def Reading.next (s : Reading) (r : Row) : Reading :=
  ⟨r.rowHash, r.rowIndex, s.receives + r.body.asDelivery.toList.length,
    s.outcomes ++ r.body.asSettlement.toList.map (·.1)⟩

/-- One pass of the loop of `_rows`. -/
def readRow (w : Wire) (s : Reading) (r : Row) : Option Reading :=
  if r.rowIndex = s.index + 1 ∧ r.previousRowHash = s.previous ∧
      r.rowHash = w.rowHash r.rowIndex r.previousRowHash r.body ∧ s.refers r.body then some (s.next r)
  else none

/-- `_rows` accepts these lines. -/
def ValidRows (w : Wire) (rows : List Row) : Prop := (Keyed.run (readRow w) ⟨0, 0, 0, []⟩ rows).isSome
  deriving Decidable

/-- What the loop keeps is told by the rows it has read. -/
def readingOf (rows : List Row) : Reading :=
  ⟨(rows.getLast?.map (·.rowHash)).getD 0, rows.length, (receivedReferences rows).length, outcomeReferences rows⟩

/-- The row `_append` makes of a body. -/
def nextRow (w : Wire) (rows : List Row) (b : Body) : Row :=
  let previous := (rows.getLast?.map (·.rowHash)).getD 0
  ⟨rows.length + 1, previous, b, w.rowHash (rows.length + 1) previous b⟩

variable {w : Wire} {rows : List Row}

theorem deliveries_snoc (rows : List Row) (r : Row) :
    deliveries (rows ++ [r]) = deliveries rows ++ r.body.asDelivery.toList := by
  rw [deliveries, List.filterMap_append]
  cases hr : r.body.asDelivery <;> simp [hr, deliveries]

theorem settlements_snoc (rows : List Row) (r : Row) :
    settlements (rows ++ [r]) = settlements rows ++ r.body.asSettlement.toList := by
  rw [settlements, List.filterMap_append]
  cases hr : r.body.asSettlement <;> simp [hr, settlements]

theorem receivedReferences_snoc (rows : List Row) (r : Row) :
    receivedReferences (rows ++ [r]) = receivedReferences rows ++ r.body.asDelivery.toList.map (·.1) := by
  rw [receivedReferences, deliveries_snoc, List.map_append]
  rfl

theorem outcomeReferences_snoc (rows : List Row) (r : Row) :
    outcomeReferences (rows ++ [r]) = outcomeReferences rows ++ r.body.asSettlement.toList.map (·.1) := by
  rw [outcomeReferences, settlements_snoc, List.map_append]
  rfl

theorem mem_deliveries {n : Nat} {x : Received} : (n, x) ∈ deliveries rows ↔ ∃ r ∈ rows, r.body = .received n x := by
  rw [deliveries, List.mem_filterMap]
  refine exists_congr fun r => and_congr_right fun _ => ?_
  cases hb : r.body <;> simp [Body.asDelivery]

theorem mem_settlements {n : Nat} {x : Outcome} : (n, x) ∈ settlements rows ↔ ∃ r ∈ rows, r.body = .outcome n x := by
  rw [settlements, List.mem_filterMap]
  refine exists_congr fun r => and_congr_right fun _ => ?_
  cases hb : r.body <;> simp [Body.asSettlement]

theorem mem_receivedReferences {rows : List Row} {n : Nat} : n ∈ receivedReferences rows ↔ receivedAt rows n ≠ [] := by
  simp [receivedReferences, receivedAt]

theorem mem_outcomeReferences {rows : List Row} {n : Nat} : n ∈ outcomeReferences rows ↔ outcomesAt rows n ≠ [] := by
  simp [outcomeReferences, outcomesAt]

theorem readingOf_snoc (rows : List Row) (r : Row) (hi : r.rowIndex = rows.length + 1) :
    readingOf (rows ++ [r]) = (readingOf rows).next r := by
  simp only [readingOf, Reading.next, List.getLast?_concat, Option.map_some, Option.getD_some, List.length_append,
    List.length_singleton, receivedReferences_snoc, outcomeReferences_snoc, List.length_map, hi]

theorem run_readRow (hv : ValidRows w rows) : Keyed.run (readRow w) ⟨0, 0, 0, []⟩ rows = some (readingOf rows) := by
  induction rows using List.reverseRecOn with
  | nil => rfl
  | append_singleton rows r ih =>
    unfold ValidRows at hv ih
    rw [Keyed.run_append] at hv ⊢
    cases hr : Keyed.run (readRow w) ⟨0, 0, 0, []⟩ rows with
    | none =>
      rw [hr] at hv
      cases hv
    | some s =>
      have hs := ih (by rw [hr]; rfl)
      cases hs.symm.trans hr
      rw [hr] at hv
      simp only [Option.bind_some, Keyed.run, readRow] at hv ⊢
      split_ifs at hv ⊢ with hok
      · rw [readingOf_snoc rows r hok.1]
      · simp at hv

/-- One more row is accepted when it continues the chain and its reference fits. -/
theorem validRows_snoc (r : Row) : ValidRows w (rows ++ [r]) ↔
    ValidRows w rows ∧ r = nextRow w rows r.body ∧ (readingOf rows).refers r.body := by
  constructor
  · intro hv
    have hr : ValidRows w rows := by
      unfold ValidRows at hv ⊢
      rw [Keyed.run_append] at hv
      cases he : Keyed.run (readRow w) ⟨0, 0, 0, []⟩ rows with
      | none => rw [he] at hv; cases hv
      | some s => rfl
    refine ⟨hr, ?_⟩
    unfold ValidRows at hv
    rw [Keyed.run_append, run_readRow hr] at hv
    simp only [Option.bind_some, Keyed.run, readRow] at hv
    split_ifs at hv with hok
    · obtain ⟨hi, hp, hx, href⟩ := hok
      refine ⟨?_, href⟩
      cases r with
      | mk i p b x =>
        simp only [readingOf] at hi hp hx
        subst hi hp
        rw [nextRow, ← hx]
    · simp at hv
  · rintro ⟨hr, he, href⟩
    unfold ValidRows
    rw [Keyed.run_append, run_readRow hr]
    simp only [Option.bind_some, Keyed.run, readRow]
    rw [if_pos]
    · rfl
    · rw [he]
      exact ⟨rfl, rfl, rfl, href⟩

theorem validRows_next (hv : ValidRows w rows) {b : Body} (hb : (readingOf rows).refers b) :
    ValidRows w (rows ++ [nextRow w rows b]) := (validRows_snoc _).mpr ⟨hv, rfl, hb⟩

/-- The rows before any place of a journal are a journal. -/
theorem validRows_left {more : List Row} (hv : ValidRows w (rows ++ more)) : ValidRows w rows := by
  unfold ValidRows at hv ⊢
  rw [Keyed.run_append] at hv
  cases he : Keyed.run (readRow w) ⟨0, 0, 0, []⟩ rows with
  | none => rw [he] at hv; cases hv
  | some s => rfl

/-! ## The references of a journal -/

/-- The deliveries are numbered 1, 2, …. -/
theorem receivedReferences_eq (hv : ValidRows w rows) :
    receivedReferences rows = List.range' 1 (receivedReferences rows).length := by
  induction rows using List.reverseRecOn with
  | nil => rfl
  | append_singleton rows r ih =>
    obtain ⟨hr, -, href⟩ := (validRows_snoc r).mp hv
    have ih := ih hr
    rw [receivedReferences_snoc]
    cases hb : r.body with
    | received n x =>
      rw [hb] at href
      have hn : n = (receivedReferences rows).length + 1 := href
      simp only [Body.asDelivery, Option.toList_some, List.map_cons, List.map_nil, List.length_append, List.length_singleton,
        List.range'_concat]
      rw [← ih, hn, Nat.one_mul, Nat.add_comm]
    | outcome n o => simpa [Body.asDelivery] using ih
    | ackConfirmation g q x => simpa [Body.asDelivery] using ih
    | partialTail a x => simpa [Body.asDelivery] using ih

/-- Each outcome is of one delivery, and no delivery has two. -/
theorem outcomeReferences_ok (hv : ValidRows w rows) :
    (outcomeReferences rows).Nodup ∧ ∀ n ∈ outcomeReferences rows, n ∈ receivedReferences rows := by
  induction rows using List.reverseRecOn with
  | nil => exact ⟨List.nodup_nil, fun n hn => nomatch hn⟩
  | append_singleton rows r ih =>
    obtain ⟨hr, -, href⟩ := (validRows_snoc r).mp hv
    obtain ⟨hn, hm⟩ := ih hr
    rw [outcomeReferences_snoc, receivedReferences_snoc]
    cases hb : r.body with
    | received n x =>
      simp only [Body.asSettlement, Option.toList_none, List.map_nil, List.append_nil]
      exact ⟨hn, fun k hk => List.mem_append_left _ (hm k hk)⟩
    | outcome n o =>
      rw [hb] at href
      obtain ⟨⟨h1, h2⟩, h3⟩ := href
      have hmem : n ∈ receivedReferences rows := by
        rw [receivedReferences_eq hr, List.mem_range'_1]
        simp only [readingOf] at h2
        omega
      simp only [Body.asSettlement, Body.asDelivery, Option.toList_none, Option.toList_some, List.map_cons, List.map_nil,
        List.append_nil]
      refine ⟨List.nodup_append.mpr ⟨hn, by simp, ?_⟩, ?_⟩
      · intro a ha b hb' e
        rw [List.mem_singleton.mp hb'] at e
        exact h3 (e ▸ ha)
      · intro k hk
        rcases List.mem_append.mp hk with hk | hk
        · exact hm k hk
        · rw [List.mem_singleton.mp hk]
          exact hmem
    | ackConfirmation g q x => simpa [Body.asSettlement, Body.asDelivery] using ⟨hn, hm⟩
    | partialTail a x => simpa [Body.asSettlement, Body.asDelivery] using ⟨hn, hm⟩

/-- In a list keyed without repetition a key that occurs picks out one entry. -/
theorem filter_key_unique {α : Type} {l : List (Nat × α)} (hl : (l.map (·.1)).Nodup) {n : Nat} (hn : n ∈ l.map (·.1)) :
    ∃ x, (l.filter (·.1 = n)).map (·.2) = [x] := by
  obtain ⟨y, hy, rfl⟩ := List.mem_map.mp hn
  obtain ⟨a, b, hab⟩ := List.append_of_mem hy
  rw [hab, List.map_append, List.map_cons, List.nodup_append, List.nodup_cons] at hl
  obtain ⟨-, ⟨hb, -⟩, ha⟩ := hl
  refine ⟨y.2, ?_⟩
  have h1 : a.filter (fun z => z.1 = y.1) = [] := by
    refine List.filter_eq_nil_iff.mpr fun z hz => ?_
    simpa using ha z.1 (List.mem_map_of_mem hz) y.1 List.mem_cons_self
  have h2 : b.filter (fun z => z.1 = y.1) = [] := by
    refine List.filter_eq_nil_iff.mpr fun z hz he => hb ?_
    exact List.mem_map.mpr ⟨z, hz, by simpa using he⟩
  simp [hab, h1, h2]

theorem receivedReferences_nodup (hv : ValidRows w rows) : (receivedReferences rows).Nodup := by
  rw [receivedReferences_eq hv]
  exact List.nodup_range'

/-- A delivery has one RECEIVED row. -/
theorem receivedAt_unique (hv : ValidRows w rows) {n : Nat} (hn : n ∈ receivedReferences rows) :
    ∃ x, receivedAt rows n = [x] := filter_key_unique (receivedReferences_nodup hv) hn

/-- A delivery that has an outcome has one. -/
theorem outcomesAt_unique (hv : ValidRows w rows) {n : Nat} (hn : n ∈ outcomeReferences rows) :
    ∃ outcome, outcomesAt rows n = [outcome] := filter_key_unique (outcomeReferences_ok hv).1 hn

/-- A delivery without an outcome may be given one. -/
theorem outcome_refers (hv : ValidRows w rows) {n : Nat} (hn : n ∈ receivedReferences rows)
    (ho : n ∉ outcomeReferences rows) (outcome : Outcome) : (readingOf rows).refers (.outcome n outcome) := by
  rw [receivedReferences_eq hv, List.mem_range'_1] at hn
  exact ⟨⟨hn.1, by simp only [readingOf]; omega⟩, ho⟩

/-! ## Bytes -/

variable (w)

/-- The bytes of complete lines. -/
def linesSize (rows : List Row) : Nat := (rows.map fun r => (w.text r).length + 1).sum

def JournalFile.size (f : JournalFile) : Nat := linesSize w f.rows + f.tail.length

/-- What `n` bytes of the lines' text make when the rest is lost. -/
def cut : List Row → Nat → JournalFile
  | [], _ => ⟨[], []⟩
  | r :: rows, n =>
    if (w.text r).length + 1 ≤ n then
      ⟨r :: (cut rows (n - ((w.text r).length + 1))).rows, (cut rows (n - ((w.text r).length + 1))).tail⟩
    else ⟨[], (w.text r).take n⟩

variable {w}

/-- A cut keeps some of the rows, all of them only when nothing is cut off. -/
theorem cut_rows (rows : List Row) (n : Nat) : ∃ lost, rows = (cut w rows n).rows ++ lost ∧ (n < linesSize w rows → lost ≠ []) := by
  induction rows generalizing n with
  | nil => exact ⟨[], rfl, fun hn => absurd hn (Nat.not_lt_zero n)⟩
  | cons r rows ih =>
    unfold cut
    split
    · rename_i hle
      obtain ⟨lost, he, hl⟩ := ih (n - ((w.text r).length + 1))
      refine ⟨lost, by rw [List.cons_append, ← he], fun hn => hl ?_⟩
      simp only [linesSize, List.map_cons, List.sum_cons] at hn ⊢
      omega
    · exact ⟨r :: rows, rfl, fun _ => by simp⟩

theorem cut_all (rows : List Row) : cut w rows (linesSize w rows) = ⟨rows, []⟩ := by
  induction rows with
  | nil => rfl
  | cons r rows ih =>
    have hs : linesSize w (r :: rows) = (w.text r).length + 1 + linesSize w rows := rfl
    unfold cut
    rw [hs, if_pos (Nat.le_add_right _ _), Nat.add_sub_cancel_left, ih]

end BettingHelper.Delivery
