/-
  BettingHelper.Ingest.Clock — what the clock has to do with a decision.

  `Ledger.erase` forgets every reading of the clock; the tables without their time columns
  are those of the erased ledger (`tables_project`). An apply takes the decision the erased
  ledger takes at time 0, or, at a reading before the run was created, may instead fail on
  a CHECK and change nothing (`apply_erase`).

  Proved (`decision_of_clock`): all readings not before the run's creation give one
  decision and one set of tables, and an earlier reading gives that or an integrity
  failure. It does fail: a gap found before its generation was opened is not recorded
  (`decision_before_creation`).
-/

import BettingHelper.Ingest.Intact

namespace BettingHelper.Ingest

open BettingHelper.Store BettingHelper.Lib

/-! ## Forgetting the clock -/

def Receipt.erase (r : Receipt) : Receipt := { r with committedAtUs := 0 }

def Commit.erase (c : Commit) : Commit := Chain.Link.mapPayload Receipt.erase c

def Entry.erase (e : Entry) : Entry := ⟨Commit.erase e.commit, e.late⟩

def Rupture.erase (r : Rupture) : Rupture := { r with atUs := 0 }

def Confirmation.erase (a : Confirmation) : Confirmation := { a with recordedAtUs := 0 }

def Ledger.erase (L : Ledger) : Ledger :=
  ⟨L.context, 0, L.entries.map (·.erase), L.rupture.map (·.erase), L.confirmations.map (·.erase)⟩

/-- What a call returned, without its physical time. -/
def timeless (result : Except IngestError (AckOutbox Int)) : Except IngestError (AckOutbox Unit) := result.map (·.project)

namespace Ledger

variable {h : Hashes} {L : Ledger}

theorem erase_log : L.erase.log = L.log.map Commit.erase := by
  simp only [erase, log, List.filter_map, List.map_map]
  rfl

@[simp] theorem erase_stream : L.erase.stream = L.stream := rfl

@[simp] theorem erase_identity : L.erase.identity h = L.identity h := rfl

@[simp] theorem erase_position (g : Nat) : L.erase.position g = L.position g := rfl

@[simp] theorem erase_active : L.erase.active = L.active := by
  unfold active erase
  cases L.rupture <;> rfl

theorem erase_height (p : Position) : Chain.height L.erase.log p = Chain.height L.log p := by
  rw [erase_log]
  exact Chain.height_map Receipt.erase L.log p

theorem erase_head (p : Position) : Chain.head h0 L.erase.log p = Chain.head h0 L.log p := by
  rw [erase_log]
  exact Chain.head_map Receipt.erase L.log p

theorem erase_bound (o : Observation) : L.erase.bound o ↔ L.bound o := Iff.rfl

theorem erase_commitAt (g n : Nat) : L.erase.commitAt g n = (L.commitAt g n).map Commit.erase := by
  unfold commitAt
  rw [erase_log, List.find?_map]
  rfl

theorem erase_nextCommit (now : Int) (o : Observation) :
    Commit.erase (L.nextCommit h now o) = L.erase.nextCommit h 0 o := by
  simp only [nextCommit, erase_active, erase_position, erase_head]
  rfl

theorem erase_append (c : Commit) (late : Bool) : (L.append c late).erase = L.erase.append (Commit.erase c) late := by
  simp [append, erase, Entry.erase]

/-! ## The tables without their times -/

theorem raw_project (e : Entry) : e.raw.project = e.erase.raw.project := rfl

theorem tables_project : (L.tables h).project = (L.erase.tables h).project := by
  have hlog : ∀ {ρ : Type} (row : Commit → ρ), (∀ c, row c = row (Commit.erase c)) →
      L.log.map row = L.erase.log.map row := by
    intro ρ row hrow
    rw [erase_log, List.map_map]
    exact List.map_congr_left fun c _ => hrow c
  have hrup : ∀ {ρ : Type} (row : Rupture → ρ), (∀ r, row r = row r.erase) →
      L.rupture.toList.map row = L.erase.rupture.toList.map row := by
    intro ρ row hrow
    simp only [erase]
    cases L.rupture with
    | none => rfl
    | some r => exact congrArg (· :: []) (hrow r)
  simp only [Db.project, Db.mk.injEq, tables, List.map_map]
  refine ⟨rfl, ?_, ?_, hlog _ fun _ => rfl, hlog _ fun _ => rfl, hlog _ fun _ => rfl, hlog _ fun _ => rfl, ?_, ?_,
    hrup _ ?_, hrup _ fun _ => rfl, hrup _ fun _ => rfl, rfl, ?_, hrup _ fun _ => rfl, hrup _ fun _ => rfl⟩
  · simp only [erase, List.map_map]
    rfl
  · simp only [erase]
    rcases L.rupture with _ | ⟨_ | ⟨x, y⟩, hi, n, d, u⟩ <;> rfl
  · simp only [erase, List.map_map]
    rfl
  · simp only [erase, generationRows]
    rcases L.rupture with _ | ⟨_ | ⟨x, y⟩, hi, n, d, u⟩ <;> rfl
  · intro r
    rcases r with ⟨_ | ⟨x, y⟩, hi, n, d, u⟩ <;> rfl
  · simp only [erase, controllerRow]
    cases L.rupture <;> rfl

/-! ## A decision, with and without the clock -/

/-- Erased, the call is the one at time 0; or its reading was before the run's creation, a
    CHECK failed and nothing changed. -/
def Timeless (L : Ledger) (now : Int) (r s : Ledger × Except IngestError (AckOutbox Int)) : Prop :=
  (r.1.erase = s.1 ∧ timeless r.2 = timeless s.2) ∨ (now < L.createdAtUs ∧ r = (L, .error (.store .integrity)))

theorem erase_committable (hc : 0 ≤ L.createdAtUs) {now : Int} (o : Observation) :
    (L.committable h now o ↔ L.erase.committable h 0 o) ∨ (now < L.createdAtUs ∧ ¬L.committable h now o) := by
  by_cases ht : 0 ≤ now
  · left
    unfold committable
    rw [← erase_nextCommit (L := L) now o, erase_log]
    simp only [erase, List.forall_mem_map]
    exact and_congr_left fun _ => ⟨fun _ => Int.le_refl 0, fun _ => ht⟩
  · exact .inr ⟨by omega, fun hcm => ht hcm.1⟩

theorem commit_erase (hc : 0 ≤ L.createdAtUs) (now : Int) (o : Observation) :
    L.Timeless now (L.commit h now o) (L.erase.commit h 0 o) := by
  unfold commit
  rcases @erase_committable h _ hc now o with hiff | ⟨ht, hno⟩
  · by_cases hcm : L.committable h now o
    · rw [if_pos hcm, if_pos (hiff.mp hcm)]
      refine .inl ⟨?_, ?_⟩
      · rw [erase_append, erase_nextCommit]
      · rw [← erase_nextCommit (L := L) now o]
        rfl
    · rw [if_neg hcm, if_neg (mt hiff.mpr hcm)]
      exact .inl ⟨rfl, rfl⟩
  · rw [if_neg hno]
    exact .inr ⟨ht, rfl⟩

theorem breakOff_erase (now : Int) (cause : Cause) (o : Observation) (code : IngestError) :
    L.Timeless now (L.breakOff h now cause o code) (L.erase.breakOff h 0 cause o code) := by
  unfold breakOff
  cases hr : L.rupture with
  | some r =>
    have hr' : L.erase.rupture = some r.erase := by simp [erase, hr]
    rw [hr']
    exact .inl ⟨rfl, rfl⟩
  | none =>
    have hr' : L.erase.rupture = none := by simp [erase, hr]
    rw [hr']
    simp only
    by_cases ht : L.createdAtUs ≤ now
    · have hiff : (L.erase.createdAtUs ≤ 0 ∧ o.contentHash.value ≠ L.erase.identity h) ↔
          (L.createdAtUs ≤ now ∧ o.contentHash.value ≠ L.identity h) :=
        and_congr_left fun _ => ⟨fun _ => ht, fun _ => Int.le_refl 0⟩
      by_cases hd : L.createdAtUs ≤ now ∧ o.contentHash.value ≠ L.identity h
      · rw [if_pos hd, if_pos (hiff.mpr hd)]
        refine .inl ⟨?_, rfl⟩
        rw [erase_position, erase_height]
        rfl
      · rw [if_neg hd, if_neg (mt hiff.mp hd)]
        exact .inl ⟨rfl, rfl⟩
    · rw [if_neg fun hd => ht hd.1]
      exact .inr ⟨by omega, rfl⟩

theorem erase_conflictRecordable (hc : 0 ≤ L.createdAtUs) {now : Int} (o : Observation) :
    (L.conflictRecordable now o ↔ L.erase.conflictRecordable 0 o) ∨
      (now < L.createdAtUs ∧ ¬L.conflictRecordable now o) := by
  by_cases ht : 0 ≤ now
  · left
    unfold conflictRecordable
    rw [erase_stream]
    simp only [erase]
    rcases L.rupture with _ | ⟨_ | ⟨x, y⟩, hi, n, d, u⟩ <;> simp [Rupture.conflictRows, Rupture.erase, ht]
  · exact .inr ⟨by omega, fun hcm => ht hcm.1⟩

theorem advance_erase (hc : 0 ≤ L.createdAtUs) (now : Int) (o : Observation) :
    L.Timeless now (L.advance h now o) (L.erase.advance h 0 o) := by
  unfold advance
  rw [erase_active, erase_position, erase_height, erase_commitAt]
  cases L.commitAt L.active o.sequence.value with
  | some c =>
    simp only [Option.map_some]
    have hx : (Commit.erase c).payload.contentHash = c.payload.contentHash := rfl
    rw [hx]
    by_cases he : c.payload.contentHash = o.contentHash.value
    · rw [if_pos he, if_pos he]
      exact .inl ⟨rfl, rfl⟩
    · rw [if_neg he, if_neg he]
      rcases @erase_conflictRecordable _ hc now o with hiff | ⟨ht, hno⟩
      · by_cases hrec : L.conflictRecordable now o
        · rw [if_pos hrec, if_pos (hiff.mp hrec)]
          exact breakOff_erase now _ o _
        · rw [if_neg hrec, if_neg (mt hiff.mpr hrec)]
          exact .inl ⟨rfl, rfl⟩
      · rw [if_neg hno]
        exact .inr ⟨ht, rfl⟩
  | none =>
    simp only [Option.map_none]
    by_cases hq : o.sequence.value = Chain.height L.log (L.position L.active) + 1
    · rw [if_pos hq, if_pos hq]
      exact commit_erase hc now o
    · rw [if_neg hq, if_neg hq]
      exact breakOff_erase now _ o _

/-- The clock can only make an apply fail. -/
theorem apply_erase (hc : 0 ≤ L.createdAtUs) (now : Int) (o : Observation) :
    L.Timeless now (L.apply h now o) (L.erase.apply h 0 o) := by
  unfold apply
  rw [erase_active, erase_stream]
  cases admissible h o with
  | error e => exact .inl ⟨rfl, rfl⟩
  | ok _ =>
    simp only [erase_bound]
    split_ifs
    · exact .inl ⟨rfl, rfl⟩
    · exact .inl ⟨rfl, rfl⟩
    · exact advance_erase hc now o
    · exact .inl ⟨rfl, rfl⟩

theorem erase_lastConfirmation (p : Position) : L.erase.lastConfirmation p = (L.lastConfirmation p).map (·.erase) := by
  simp only [lastConfirmation, erase, List.filter_map, List.getLast?_map]
  rfl

/-- The clock of a confirmation need only not be before 1970. -/
theorem confirmAck_erase {c : Commit} (hc : c ∈ L.log) {now : Int} (ht : 0 ≤ now) :
    (L.confirmAck now (.row (ack c))).1.erase = (L.erase.confirmAck 0 (.row (ack (Commit.erase c)))).1 ∧
      (L.confirmAck now (.row (ack c))).2.map (·.project) =
        (L.erase.confirmAck 0 (.row (ack (Commit.erase c)))).2.map (·.project) := by
  have hm : ¬(ack c ∉ L.log.map ack) := not_not.mpr (List.mem_map_of_mem hc)
  have hm' : ¬(ack (Commit.erase c) ∉ L.erase.log.map ack) := by
    rw [erase_log]
    exact not_not.mpr (List.mem_map_of_mem (List.mem_map_of_mem hc))
  have hconfirm : (L.confirm now (ack c)).1.erase = (L.erase.confirm 0 (ack (Commit.erase c))).1 ∧
      (L.confirm now (ack c)).2.map (·.project) = (L.erase.confirm 0 (ack (Commit.erase c))).2.map (·.project) := by
    have hn : Confirmation.erase (L.nextConfirmation now (ack c)) =
        L.erase.nextConfirmation 0 (ack (Commit.erase c)) := by
      unfold nextConfirmation
      rw [show (ack (Commit.erase c)).position = (ack c).position from rfl, erase_lastConfirmation, Option.map_map]
      rfl
    unfold confirm
    rw [if_pos ht, if_pos (Int.le_refl 0)]
    constructor
    · rw [← hn]
      simp [erase]
    · rw [← hn]
      rfl
  unfold confirmAck
  simp only [hm, hm', if_false]
  rw [show (ack (Commit.erase c)).position = (ack c).position from rfl, erase_lastConfirmation]
  cases L.lastConfirmation (ack c).position with
  | none => exact hconfirm
  | some p =>
    have hq : (Confirmation.erase p).sequence = p.sequence := rfl
    have hn : (ack (Commit.erase c)).highestContiguousSequence = (ack c).highestContiguousSequence := rfl
    simp only [Option.map_some, hq, hn]
    split_ifs
    · exact ⟨rfl, rfl⟩
    · exact ⟨rfl, rfl⟩
    · exact hconfirm

theorem createdAtUs_foldl (ops : List Op) : (ops.foldl (Op.onLedger h) L).createdAtUs = L.createdAtUs := by
  induction ops generalizing L with
  | nil => rfl
  | cons op ops ih =>
    rw [List.foldl_cons, ih]
    exact (Op.onLedger_change L op).createdAtUs

end Ledger

/-! ## Two readings -/

/-- The same acknowledgement, rejection or failure, and the same tables, up to the columns
    the replay projection leaves out. -/
def SameDecision (x y : Db Int × Except IngestError (AckOutbox Int)) : Prop :=
  x.1.project = y.1.project ∧ timeless x.2 = timeless y.2

/-- At a reading `b` not before the run's creation apply decides as at any other reading
    `a`, unless `a` is before the creation, when apply may instead fail and change nothing. -/
theorem decision_of_clock {h : Hashes} {c : Context} {t : Int} {db : Db Int} (hc : createOfflineRun h c t = .ok db)
    (ops : List Op) (o : Observation) (a b : Int) (hb : t ≤ b) :
    SameDecision (apply h a o (runs h db ops)) (apply h b o (runs h db ops)) ∨
      (a < t ∧ apply h a o (runs h db ops) = (runs h db ops, .error (.store .integrity))) := by
  obtain ⟨⟨-, ht, hg⟩, rfl⟩ := Ledger.createOfflineRun_ok.mp hc
  obtain ⟨hs, hL⟩ := runs_tables (Ledger.fresh_sound ht hg) ops
  have hcr : (ops.foldl (Op.onLedger h) (Ledger.fresh c t)).createdAtUs = t := Ledger.createdAtUs_foldl ops
  rw [hL, Ledger.apply_tables hs, Ledger.apply_tables hs]
  have ha := Ledger.apply_erase (h := h) hs.created a o
  have hb' := Ledger.apply_erase (h := h) hs.created b o
  rw [Ledger.Timeless, hcr] at ha hb'
  obtain ⟨hb1, hb2⟩ := hb'.resolve_right fun hx => by omega
  rcases ha with ⟨ha1, ha2⟩ | ⟨hlt, he⟩
  · refine .inl ⟨?_, ha2.trans hb2.symm⟩
    simp only
    rw [Ledger.tables_project, ha1, ← hb1, ← Ledger.tables_project]
  · exact .inr ⟨hlt, by rw [he]⟩

/-- The clock stands before the creation of the small store: a gap is not recorded. -/
theorem decision_before_creation :
    ¬SameDecision (apply smallHashes 9 (smallObservation 0 1 "") (runs smallHashes smallStore []))
      (apply smallHashes 11 (smallObservation 0 1 "") (runs smallHashes smallStore [])) := by
  intro hd
  have hn : timeless (apply smallHashes 9 (smallObservation 0 1 "") (runs smallHashes smallStore [])).2 ≠
      timeless (apply smallHashes 11 (smallObservation 0 1 "") (runs smallHashes smallStore [])).2 := by decide +kernel
  exact hn hd.2

theorem decision_of_clock_smallRun :
    SameDecision (apply smallHashes 3 (smallObservation 0 2 "") (runs smallHashes smallStore (smallRun.take 3)))
        (apply smallHashes 20 (smallObservation 0 2 "") (runs smallHashes smallStore (smallRun.take 3))) ∨
      ((3 : Int) < 10 ∧ apply smallHashes 3 (smallObservation 0 2 "") (runs smallHashes smallStore (smallRun.take 3)) =
        (runs smallHashes smallStore (smallRun.take 3), .error (.store .integrity))) :=
  decision_of_clock smallStore_created (smallRun.take 3) (smallObservation 0 2 "") 3 20 (by decide)

end BettingHelper.Ingest
