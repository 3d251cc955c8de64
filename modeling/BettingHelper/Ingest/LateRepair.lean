/-
  BettingHelper.Ingest.LateRepair — what `store_late_repair` can change, and what can
  tell that it did.

  Proved:
  - `lateRepair_adds`: on any tables the call raises and changes nothing, or adds one
    LATE_REPAIR_ONLY row of raw_commits, in an OPEN gap of a generation that is not
    ACTIVE, at a number that held none. Every other table is as it was.
  - `lateRepair_apart`: in a run of any operations the applies and confirmations answer,
    and leave in every table but for the late rows, what they do in the run without its
    late repairs, when no observation applied has the id of one stored late before it.
-/

import BettingHelper.Ingest.Intact

namespace BettingHelper.Ingest

open BettingHelper.Store BettingHelper.Lib

variable {h : Hashes}

/-! ## One late repair -/

/-- The row is of a number missing in an OPEN gap of a generation that is not ACTIVE. -/
structure FillsGap (db : Db Int) (row : RawCommit Int) : Prop where
  disposition : row.disposition = .lateRepairOnly
  generation : ∃ g ∈ db.streamGenerations, g.position = row.position ∧ g.generationState ≠ .active
  gap : ∃ g ∈ db.gapRecords, g.stream = row.position.stream ∧ g.predecessorGeneration = row.position.generation ∧
    g.missingFromSequence ≤ row.sequence ∧ row.sequence ≤ g.missingToSequence ∧ g.repairStatus = .opened
  free : ∀ r ∈ db.rawCommits, ¬(r.position = row.position ∧ r.sequence = row.sequence)

theorem lateRepairBody_row {now : Int} {o : Observation} {db db' : Db Int} {r : Except IngestError (RawCommit Int)}
    (hb : lateRepairBody h now o db = .ok (db', r)) :
    ∃ row, r = .ok row ∧ db' = { db with rawCommits := db.rawCommits ++ [row] } ∧ row.position = lateKey o ∧
      row.sequence = o.sequence.value ∧ FillsGap db row := by
  unfold lateRepairBody at hb
  cases hv : validateJournal h.cursorStep db with
  | error e =>
    rw [hv] at hb
    cases hb
  | ok u =>
    rw [hv] at hb
    simp only at hb
    split_ifs at hb with hrun hgen hgap
    simp only [not_not, not_or, Bool.not_eq_true, Option.isSome_eq_false_iff, Option.isNone_iff_eq_none] at hgen hgap
    obtain ⟨g, hg, hpos, hstate⟩ := hgen
    obtain ⟨hfound, hfree⟩ := hgap
    unfold insertRawCommit guarded at hb
    split_ifs at hb with hok
    · obtain ⟨rfl, rfl⟩ := Prod.mk.inj (Except.ok.inj hb)
      refine ⟨_, rfl, rfl, rfl, rfl, rfl, ⟨g, hg, hpos, ?_⟩, hfound, ?_⟩
      · rcases hstate with he | he <;> rw [he] <;> decide
      · intro r hr
        simpa using List.find?_eq_none.mp hfree r hr
    · cases hb

/-- A late repair raises and changes nothing, or adds one row. -/
theorem lateRepair_adds (now : Int) (o : Observation) (db : Db Int) :
    (∃ e, storeLateRepair h now o db = (db, .error e)) ∨
    ∃ row, storeLateRepair h now o db = ({ db with rawCommits := db.rawCommits ++ [row] }, .ok row) ∧
      row.position = lateKey o ∧ row.sequence = o.sequence.value ∧ FillsGap db row := by
  unfold storeLateRepair
  split_ifs
  · exact .inl ⟨_, rfl⟩
  · exact .inl ⟨_, rfl⟩
  · unfold transact
    cases hb : lateRepairBody h now o db with
    | error e => exact .inl ⟨e, rfl⟩
    | ok p =>
      obtain ⟨db', r⟩ := p
      obtain ⟨row, rfl, rfl, hpos, hseq, hfills⟩ := lateRepairBody_row hb
      simp only
      split_ifs
      · exact .inr ⟨row, rfl, hpos, hseq, hfills⟩
      · exact .inl ⟨_, rfl⟩

/-! ## A run, and the run without its late repairs -/

def Op.isRepair : Op → Bool
  | .storeLateRepair _ _ => true
  | _ => false

/-- What an apply or a confirmation returned or raised. -/
inductive Answer where
  | applied (result : Except IngestError (AckOutbox Int))
  | confirmed (result : Except IngestError (AckCursor Int))
  deriving DecidableEq

def Op.answer (h : Hashes) (db : Db Int) : Op → Option Answer
  | .apply now o => some (.applied (Ingest.apply h now o db).2)
  | .confirmAck now arg => some (.confirmed (Ingest.confirmAck h now arg db).2)
  | .storeLateRepair _ _ => none

/-- The tables without the late rows. -/
def Db.withoutRepairs (db : Db Int) : Db Int := { db with rawCommits := db.applied }

/-- The answers of a run, each with the tables it leaves. -/
def answers (h : Hashes) : Db Int → List Op → List (Answer × Db Int)
  | _, [] => []
  | db, op :: ops =>
    ((op.answer h db).map fun a => (a, Db.withoutRepairs (op.step h db))).toList ++ answers h (op.step h db) ops

/-- An observation stored late and one applied after it are not told apart by their ids. -/
def Op.collides : Op → Op → Prop
  | .storeLateRepair _ o, .apply _ o' => o.rawObservationId = o'.rawObservationId
  | _, _ => False

namespace Ledger

/-- `L` is `K`, with entries beside the log whose ids are among `ids`. -/
structure Beside (ids : String → Prop) (L K : Ledger) : Prop where
  same : L = { K with entries := L.entries }
  log : L.log = K.log
  kept : ∀ e ∈ K.entries, e ∈ L.entries
  added : ∀ e ∈ L.entries, e ∈ K.entries ∨ ids e.commit.payload.rawObservationId

variable {ids : String → Prop} {L K : Ledger}

theorem Beside.refl (L : Ledger) : Beside (fun _ => False) L L := ⟨rfl, rfl, fun _ he => he, fun _ he => .inl he⟩

theorem Beside.withoutRepairs (hb : Beside ids L K) :
    Db.withoutRepairs (L.tables h) = Db.withoutRepairs (K.tables h) := by
  have hl : (L.tables h).applied = (K.tables h).applied := by rw [applied_tables, applied_tables, hb.log]
  have hlog := hb.log
  have hs := hb.same
  unfold Db.withoutRepairs
  rw [hl]
  generalize (K.tables h).applied = rows
  generalize L.entries = es at hs
  subst hs
  simp only [tables]
  rw [hlog]
  rfl

theorem Beside.committable (hb : Beside ids L K) {now : Int} {o : Observation} (ho : ¬ids o.rawObservationId) :
    L.committable h now o ↔ K.committable h now o := by
  have hnext : L.nextCommit h now o = K.nextCommit h now o := by
    rw [nextCommit, nextCommit, hb.log, hb.same]
    rfl
  unfold Ledger.committable
  rw [hb.log, hnext]
  refine and_congr_right fun _ => and_congr_right fun _ => ⟨fun hall e he => hall e (hb.kept e he), fun hall e he => ?_⟩
  rcases hb.added e he with hk | hi
  · exact hall e hk
  · intro heq
    exact ho (heq ▸ hi)

/-- A commit beside. -/
theorem Beside.append (hb : Beside ids L K) (c : Commit) : Beside ids (L.append c false) (K.append c false) where
  same := by
    rw [hb.same]
    rfl
  log := by rw [log_append_applied, log_append_applied, hb.log]
  kept e he := by
    rcases List.mem_append.mp he with he | he
    · exact List.mem_append_left _ (hb.kept e he)
    · exact List.mem_append_right _ he
  added e he := by
    rcases List.mem_append.mp he with he | he
    · exact (hb.added e he).imp_left (List.mem_append_left _)
    · exact .inl (List.mem_append_right _ he)

theorem Beside.ruptured (hb : Beside ids L K) (r : Rupture) :
    Beside ids { L with rupture := some r } { K with rupture := some r } := by
  refine ⟨?_, hb.log, hb.kept, hb.added⟩
  rw [hb.same]

theorem Beside.confirmed (hb : Beside ids L K) (l : List Confirmation) :
    Beside ids { L with confirmations := l } { K with confirmations := l } := by
  refine ⟨?_, hb.log, hb.kept, hb.added⟩
  rw [hb.same]

/-- The same answer, and ledgers beside each other still. -/
def Alike {α : Type} (ids : String → Prop) (x y : Ledger × Except IngestError α) : Prop := x.2 = y.2 ∧ Beside ids x.1 y.1

theorem Beside.fields (hb : Beside ids L K) : L.context = K.context ∧ L.createdAtUs = K.createdAtUs ∧
    L.rupture = K.rupture ∧ L.confirmations = K.confirmations := by
  rw [hb.same]
  exact ⟨rfl, rfl, rfl, rfl⟩

theorem Beside.position (hb : Beside ids L K) (g : Nat) : L.position g = K.position g := by
  rw [Ledger.position, Ledger.position, stream, stream, hb.fields.1]

theorem Beside.active (hb : Beside ids L K) : L.active = K.active := by
  rw [Ledger.active, Ledger.active, hb.fields.2.2.1]

theorem Beside.breakOff (hb : Beside ids L K) (now : Int) (cause : Cause) (o : Observation) (code : IngestError) :
    Alike ids (L.breakOff h now cause o code) (K.breakOff h now cause o code) := by
  obtain ⟨hc, ht, hr, hl⟩ := hb.fields
  unfold Ledger.breakOff
  rw [hr]
  cases hk : K.rupture with
  | some r => exact ⟨rfl, hb⟩
  | none =>
    have hid : L.identity h = K.identity h := by rw [identity, identity, hc]
    have hiff : (L.createdAtUs ≤ now ∧ o.contentHash.value ≠ L.identity h) ↔
        (K.createdAtUs ≤ now ∧ o.contentHash.value ≠ K.identity h) := by rw [ht, hid]
    simp only
    by_cases hd : K.createdAtUs ≤ now ∧ o.contentHash.value ≠ K.identity h
    · rw [if_pos hd, if_pos (hiff.mpr hd), hb.log, hb.position]
      exact ⟨rfl, hb.ruptured _⟩
    · rw [if_neg hd, if_neg (mt hiff.mp hd)]
      exact ⟨rfl, hb⟩

theorem Beside.commit (hb : Beside ids L K) (now : Int) {o : Observation} (ho : ¬ids o.rawObservationId) :
    Alike ids (L.commit h now o) (K.commit h now o) := by
  have hnext : L.nextCommit h now o = K.nextCommit h now o := by
    rw [nextCommit, nextCommit, hb.active, hb.position, hb.log]
  unfold Ledger.commit
  by_cases hc : K.committable h now o
  · rw [if_pos hc, if_pos ((hb.committable ho).mpr hc), hnext]
    exact ⟨rfl, hb.append _⟩
  · rw [if_neg hc, if_neg (mt (hb.committable ho).mp hc)]
    exact ⟨rfl, hb⟩

theorem Beside.advance (hb : Beside ids L K) (now : Int) {o : Observation} (ho : ¬ids o.rawObservationId) :
    Alike ids (L.advance h now o) (K.advance h now o) := by
  have hat : L.commitAt L.active o.sequence.value = K.commitAt K.active o.sequence.value := by
    rw [commitAt, commitAt, hb.active, hb.position, hb.log]
  have hrec : L.conflictRecordable now o ↔ K.conflictRecordable now o := by
    rw [conflictRecordable, conflictRecordable, stream, stream, hb.fields.1, hb.fields.2.2.1]
  unfold Ledger.advance
  rw [hat, hb.active, hb.position, hb.log]
  cases K.commitAt K.active o.sequence.value with
  | some c =>
    simp only [hrec]
    split_ifs
    · exact ⟨rfl, hb⟩
    · exact hb.breakOff now _ o _
    · exact ⟨rfl, hb⟩
  | none =>
    simp only
    split_ifs
    · exact hb.commit now ho
    · exact hb.breakOff now _ o _

theorem Beside.apply (hb : Beside ids L K) (now : Int) {o : Observation} (ho : ¬ids o.rawObservationId) :
    Alike ids (L.apply h now o) (K.apply h now o) := by
  have hbound : L.bound o ↔ K.bound o := by rw [bound, bound, stream, stream, hb.fields.1]
  have hstream : L.stream = K.stream := by rw [stream, stream, hb.fields.1]
  unfold Ledger.apply
  rw [hb.active, hstream]
  cases admissible h o with
  | error e => exact ⟨rfl, hb⟩
  | ok u =>
    simp only [hbound]
    split_ifs
    · exact ⟨rfl, hb⟩
    · exact ⟨rfl, hb⟩
    · exact hb.advance now ho
    · exact ⟨rfl, hb⟩

theorem Beside.confirm (hb : Beside ids L K) (now : Int) (a : AckOutbox Int) :
    Alike ids (L.confirm now a) (K.confirm now a) := by
  have hnext : L.nextConfirmation now a = K.nextConfirmation now a := by
    rw [nextConfirmation, nextConfirmation, lastConfirmation, lastConfirmation, hb.fields.2.2.2]
  unfold Ledger.confirm
  rw [hnext]
  split_ifs
  · rw [hb.fields.2.2.2]
    exact ⟨rfl, hb.confirmed _⟩
  · exact ⟨rfl, hb⟩

theorem Beside.confirmAck (hb : Beside ids L K) (now : Int) (arg : AckArg) :
    Alike ids (L.confirmAck now arg) (K.confirmAck now arg) := by
  unfold Ledger.confirmAck
  cases arg with
  | malformed => exact ⟨rfl, hb⟩
  | row a =>
    have hlast : L.lastConfirmation a.position = K.lastConfirmation a.position := by
      rw [lastConfirmation, lastConfirmation, hb.fields.2.2.2]
    simp only [hb.log, hlast]
    split
    · exact ⟨rfl, hb⟩
    · cases K.lastConfirmation a.position with
      | none => exact hb.confirm now a
      | some p =>
        simp only
        split_ifs
        · exact ⟨rfl, hb⟩
        · exact ⟨rfl, hb⟩
        · exact hb.confirm now a

/-- A late repair beside is one more entry of its id. -/
theorem Beside.storeLateRepair (hb : Beside ids L K) (now : Int) (o : Observation) :
    Beside (fun i => ids i ∨ i = o.rawObservationId) (L.storeLateRepair h now o).1 K := by
  have hw : Beside (fun i => ids i ∨ i = o.rawObservationId) L K :=
    ⟨hb.same, hb.log, hb.kept, fun e he => (hb.added e he).imp_right .inl⟩
  unfold Ledger.storeLateRepair
  split_ifs
  all_goals first | exact hw | skip
  refine ⟨?_, ?_, fun e he => List.mem_append_left _ (hw.kept e he), fun e he => ?_⟩
  · rw [Ledger.append, hb.same]
  · rw [log_append_late, hb.log]
  · rcases List.mem_append.mp he with he | he
    · exact hw.added e he
    · rw [List.mem_singleton.mp he]
      exact .inr (.inr rfl)

end Ledger

/-! ## The runs side by side -/

section Runs

open Ledger

variable {ids : String → Prop} {L K : Ledger}

/-- Runs beside each other answer alike, and leave tables that differ in late rows only. -/
theorem answers_beside (hL : L.Sound h) (hK : K.Sound h) (hb : Beside ids L K) {ops : List Op}
    (hops : ops.Pairwise fun a b => ¬a.collides b) (hids : ∀ now o, .apply now o ∈ ops → ¬ids o.rawObservationId) :
    answers h (L.tables h) ops = answers h (K.tables h) (ops.filter fun op => !op.isRepair) ∧
      Db.withoutRepairs (runs h (L.tables h) ops) =
        Db.withoutRepairs (runs h (K.tables h) (ops.filter fun op => !op.isRepair)) := by
  induction ops generalizing ids L K with
  | nil => exact ⟨rfl, hb.withoutRepairs⟩
  | cons op ops ih =>
    obtain ⟨hop, hrest⟩ := List.pairwise_cons.mp hops
    have hids' : ∀ now o, .apply now o ∈ ops → ¬ids o.rawObservationId := fun now o ho => hids now o (.tail _ ho)
    have hL' := Op.onLedger_sound hL op
    have hK' := Op.onLedger_sound hK op
    cases op with
    | apply now o =>
      obtain ⟨hr, hb'⟩ := hb.apply (h := h) now (hids now o (.head _))
      obtain ⟨ha, hend⟩ := ih hL' hK' hb' hrest hids'
      have hans : (Op.apply now o).answer h (L.tables h) = (Op.apply now o).answer h (K.tables h) := by
        simp only [Op.answer, Ledger.apply_tables hL, Ledger.apply_tables hK, hr]
      rw [List.filter_cons_of_pos (by rfl)]
      simp only [answers, runs, List.foldl_cons, Op.step_tables hL, Op.step_tables hK]
      refine ⟨?_, hend⟩
      rw [hans, ha]
      exact congrArg (fun t => ((Op.answer h (K.tables h) _).map fun a => (a, t)).toList ++ _) hb'.withoutRepairs
    | confirmAck now arg =>
      obtain ⟨hr, hb'⟩ := hb.confirmAck now arg
      obtain ⟨ha, hend⟩ := ih hL' hK' hb' hrest hids'
      have hans : (Op.confirmAck now arg).answer h (L.tables h) = (Op.confirmAck now arg).answer h (K.tables h) := by
        simp only [Op.answer, Ledger.confirmAck_tables hL, Ledger.confirmAck_tables hK, hr]
      rw [List.filter_cons_of_pos (by rfl)]
      simp only [answers, runs, List.foldl_cons, Op.step_tables hL, Op.step_tables hK]
      refine ⟨?_, hend⟩
      rw [hans, ha]
      exact congrArg (fun t => ((Op.answer h (K.tables h) _).map fun a => (a, t)).toList ++ _) hb'.withoutRepairs
    | storeLateRepair now o =>
      -- the other run does not make this call
      have hb' := hb.storeLateRepair (h := h) now o
      rw [List.filter_cons_of_neg (by simp [Op.isRepair])]
      have hnew : ∀ now' o', .apply now' o' ∈ ops → ¬(ids o'.rawObservationId ∨ o'.rawObservationId = o.rawObservationId) := by
        intro now' o' ho'
        rintro (hi | he)
        · exact hids' now' o' ho' hi
        · exact hop _ ho' he.symm
      obtain ⟨ha, hend⟩ := ih hL' hK hb' hrest hnew
      simp only [answers, runs, List.foldl_cons, Op.step_tables hL, Op.answer, Option.map_none, Option.toList_none,
        List.nil_append]
      exact ⟨ha, hend⟩

/-- Late repairs, however many, leave every table but raw_commits. -/
theorem repairs_frame {ops : List Op} (hops : ∀ op ∈ ops, op.isRepair) (db : Db Int) :
    runs h db ops = { db with rawCommits := (runs h db ops).rawCommits } := by
  induction ops generalizing db with
  | nil => rfl
  | cons op ops ih =>
    have hstep : op.step h db = { db with rawCommits := (op.step h db).rawCommits } := by
      cases op with
      | storeLateRepair now o =>
        rcases lateRepair_adds (h := h) now o db with ⟨e, he⟩ | ⟨row, he, -⟩ <;> simp only [Op.step, he]
      | _ => exact absurd (hops _ (.head _)) Bool.false_ne_true
    have hrest := ih (fun op ho => hops op (.tail _ ho)) (op.step h db)
    rw [runs, List.foldl_cons]
    change runs h (op.step h db) ops = { db with rawCommits := (runs h (op.step h db) ops).rawCommits }
    rw [hrest, hstep]

/-- From any store a run reaches: a late repair adds its one row or changes nothing, any
    number of them leave the other tables, and no apply and no confirmation of a later run
    can tell whether its late repairs were made. -/
theorem lateRepair_apart {c : Context} {t : Int} {db : Db Int} (hc : createOfflineRun h c t = .ok db) (before : List Op) :
    (∀ now o, (∃ e, storeLateRepair h now o (runs h db before) = (runs h db before, .error e)) ∨
      ∃ row, storeLateRepair h now o (runs h db before) =
          ({ runs h db before with rawCommits := (runs h db before).rawCommits ++ [row] }, .ok row) ∧
        row.position = lateKey o ∧ row.sequence = o.sequence.value ∧ FillsGap (runs h db before) row) ∧
    (∀ ops : List Op, (∀ op ∈ ops, op.isRepair) → runs h (runs h db before) ops =
      { runs h db before with rawCommits := (runs h (runs h db before) ops).rawCommits }) ∧
    ∀ ops : List Op, ops.Pairwise (fun a b => ¬a.collides b) →
      answers h (runs h db before) ops = answers h (runs h db before) (ops.filter fun op => !op.isRepair) ∧
        Db.withoutRepairs (runs h (runs h db before) ops) =
          Db.withoutRepairs (runs h (runs h db before) (ops.filter fun op => !op.isRepair)) := by
  refine ⟨fun now o => lateRepair_adds now o _, fun ops hops => repairs_frame hops _, fun ops hops => ?_⟩
  obtain ⟨L, hs, hL⟩ := runs_ledger hc before
  rw [hL]
  exact answers_beside hs hs (Beside.refl L) hops fun _ _ _ => id

/-- A gap, the missing observation late, and observations of generation 1 after it. -/
theorem lateRepair_apart_smallRun :
    answers smallHashes (runs smallHashes smallStore [.apply 11 (smallObservation 0 0 ""), .apply 14 (smallObservation 0 3 "")])
        [.storeLateRepair 16 (smallObservation 0 2 ""), .apply 17 (smallObservation 1 0 "")] =
      answers smallHashes
        (runs smallHashes smallStore [.apply 11 (smallObservation 0 0 ""), .apply 14 (smallObservation 0 3 "")])
        [.apply 17 (smallObservation 1 0 "")] ∧
    (runs smallHashes smallStore [.apply 11 (smallObservation 0 0 ""), .apply 14 (smallObservation 0 3 ""),
      .storeLateRepair 16 (smallObservation 0 2 "")]).rawCommits.length = 2 :=
  ⟨((lateRepair_apart smallStore_created [.apply 11 (smallObservation 0 0 ""), .apply 14 (smallObservation 0 3 "")]).2.2
    [.storeLateRepair 16 (smallObservation 0 2 ""), .apply 17 (smallObservation 1 0 "")] (by
      refine List.pairwise_pair.mpr ?_
      simp only [Op.collides]
      decide)).1, by decide +kernel⟩

end Runs

end BettingHelper.Ingest
