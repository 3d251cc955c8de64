/-
  BettingHelper.Delivery.Calls — the calls of the journal, spelled out write by write.

  `recordReceived_eq`, `recordOutcome_eq`, `applyReceived_cases`, `apply_eq` and
  `recordAckConfirmation_cases` give, for a directory whose journal `_rows` accepts, every
  state the call writes and how it ends; `settle_done` and its fellows do so for one pass
  of the loop of `reconcile`.
-/

import BettingHelper.Delivery.InputJournal

namespace BettingHelper.Delivery

open BettingHelper.Store BettingHelper.Ingest BettingHelper.Lib BettingHelper.Lib.Crash

variable {w : Wire} {h : Hashes} {d : Disk} {rs : List Row}

def Disk.journalRows (d : Disk) : List Row := (d.journal.map (·.rows)).getD []

/-! ## Appending -/

theorem rows_none (hj : d.journal = none) : rows w d = .ok [] := by simp [rows, hj]

theorem rows_some {f : JournalFile} (hj : d.journal = some f) (hsize : f.size w ≤ maximum) (htail : f.tail = [])
    (hv : ValidRows w f.rows) : rows w d = .ok f.rows := by
  simp only [rows, hj]
  rw [if_neg (Nat.not_lt.mpr hsize), if_neg (not_not.mpr htail), if_pos hv]

/-- The journal `_rows` has accepted: no file, or complete rows only. -/
theorem rows_ok (hr : rows w d = .ok rs) : ValidRows w rs ∧
    ((d.journal = none ∧ rs = []) ∨ (d.journal = some ⟨rs, []⟩ ∧ linesSize w rs ≤ maximum)) := by
  unfold rows at hr
  cases hj : d.journal with
  | none =>
    rw [hj] at hr
    cases hr
    exact ⟨rfl, .inl ⟨rfl, rfl⟩⟩
  | some f =>
    rw [hj] at hr
    simp only at hr
    split_ifs at hr with hsize htail hv
    cases hr
    rcases f with ⟨rs, tail⟩
    have ht : tail = [] := of_not_not htail
    subst ht
    exact ⟨hv, .inr ⟨rfl, Nat.not_lt.mp hsize⟩⟩

theorem append_eq {b : Body} (hr : rows w d = .ok rs) (hb : b.dumpable) :
    append w b d = ⟨appendWrites w b rs d, .ok ()⟩ := by
  simp [append, Prog.andThen, Prog.read, Prog.write, hr, hb, Exec.final]

theorem append_refused {b : Body} (hno : (∃ e, rows w d = .error e) ∨ ¬b.dumpable) : ∃ e, append w b d = ⟨[], .error e⟩ := by
  cases hr : rows w d with
  | error e => exact ⟨e, by simp [append, Prog.andThen, Prog.read, hr]⟩
  | ok rs =>
    rcases hno with ⟨e, he⟩ | hb
    · rw [hr] at he
      cases he
    · exact ⟨.integerDomain, by simp [append, Prog.andThen, Prog.read, Prog.raise, hr, hb]⟩

theorem appendWrites_final (b : Body) :
    (appendWrites w b rs d).foldl (fun _ x => x.2) d = d.holding ⟨rs ++ [nextRow w rs b], []⟩ := by
  unfold appendWrites
  rw [List.foldl_append]
  rfl

theorem rows_journalRows (hr : rows w d = .ok rs) : d.journalRows = rs := by
  rcases (rows_ok hr).2 with ⟨hj, he⟩ | ⟨hj, -⟩
  · rw [Disk.journalRows, hj, he]
    rfl
  · rw [Disk.journalRows, hj]
    rfl

theorem rows_congr {d' : Disk} (hj : d'.journal = d.journal) : rows w d' = rows w d := by
  unfold rows
  rw [hj]

/-- The journal after one more row is read again, if it is not too large. -/
theorem rows_appended {b : Body} (hr : rows w d = .ok rs) (href : (readingOf rs).refers b)
    (hsize : linesSize w (rs ++ [nextRow w rs b]) ≤ maximum) :
    rows w (d.holding ⟨rs ++ [nextRow w rs b], []⟩) = .ok (rs ++ [nextRow w rs b]) :=
  rows_some (f := ⟨rs ++ [nextRow w rs b], []⟩) rfl hsize rfl (validRows_next (rows_ok hr).1 href)

/-! ## record_received -/

/-- The directory with the observation's raw file in it. -/
def Disk.stored (d : Disk) (o : Observation) : Disk :=
  if d.rawFile o.contentHash.value = none then { d with raw := d.raw ++ [o] } else d

def storeWrites (o : Observation) (d : Disk) : List (Place × Disk) :=
  if d.rawFile o.contentHash.value = none then [(.rawStored, d.stored o)] else []

theorem storeWrites_final (o : Observation) : (storeWrites o d).foldl (fun _ x => x.2) d = d.stored o := by
  unfold storeWrites Disk.stored
  split <;> rfl

theorem stored_journal (o : Observation) : (d.stored o).journal = d.journal := by
  unfold Disk.stored
  split <;> rfl

/-- What a new RECEIVED row says. -/
def receivedBody (rs : List Row) (o : Observation) (b : BatchId) : Body :=
  .received ((receivedReferences rs).length + 1) ⟨o.contentHash.value, b, o.generation, o.sequence⟩

/-- The raw file is not another observation's. -/
def Disk.agrees (d : Disk) (o : Observation) : Prop := ∀ o' ∈ d.rawFile o.contentHash.value, o' = o

theorem storeRaw_eq {o : Observation} (ha : d.agrees o) : storeRaw o d = ⟨storeWrites o d, .ok ()⟩ := by
  unfold storeRaw storeWrites Disk.stored
  cases hf : d.rawFile o.contentHash.value with
  | none => rfl
  | some o' =>
    have he : ¬o' ≠ o := not_not.mpr (ha o' hf)
    simp only [he, if_false, reduceCtorEq]
    rfl

theorem storeRaw_conflict {o : Observation} (ha : ¬d.agrees o) : storeRaw o d = ⟨[], .error .rawConflict⟩ := by
  unfold storeRaw
  cases hf : d.rawFile o.contentHash.value with
  | none => exact absurd (fun o' ho => by rw [hf] at ho; cases ho) ha
  | some o' =>
    have he : o' ≠ o := fun e => ha fun o'' ho => by
      rw [hf] at ho
      cases ho
      exact e
    simp only [he, ne_eq, not_false_eq_true, if_true]
    rfl

/-- A delivery is received: its raw file is there and its RECEIVED row is appended. -/
theorem recordReceived_eq {o : Observation} {b : BatchId} (hr : rows w d = .ok rs)
    (hv : validateSyntheticObservation h d.context o = .ok ()) (ha : d.agrees o) :
    recordReceived w h o b d = ⟨storeWrites o d ++ appendWrites w (receivedBody rs o b) rs (d.stored o),
      .ok ((receivedReferences rs).length + 1)⟩ := by
  have hr' : rows w (d.stored o) = .ok rs := (rows_congr (stored_journal o)).trans hr
  have happ := append_eq (b := receivedBody rs o b) hr' trivial
  simp only [receivedBody] at happ
  simp only [recordReceived, Prog.andThen, Prog.read, Prog.ret, hr, hv, Except.bind, storeRaw_eq ha, Exec.final,
    List.foldl_nil, List.nil_append, storeWrites_final, hr', happ, receivedBody, List.append_nil]

theorem recordReceived_refused {o : Observation} {b : BatchId} (hno : (∃ e, rows w d = .error e) ∨
    validateSyntheticObservation h d.context o ≠ .ok () ∨ ¬d.agrees o) :
    ∃ e, recordReceived w h o b d = ⟨[], .error e⟩ := by
  cases hr : rows w d with
  | error e => exact ⟨e, by simp [recordReceived, Prog.andThen, Prog.read, hr, Except.bind]⟩
  | ok rs =>
    cases hv : validateSyntheticObservation h d.context o with
    | error e => exact ⟨e, by simp [recordReceived, Prog.andThen, Prog.read, hr, hv, Except.bind]⟩
    | ok u =>
      cases u
      rcases hno with ⟨e, he⟩ | hv' | ha
      · rw [hr] at he
        cases he
      · exact absurd hv hv'
      · exact ⟨.rawConflict, by
          simp [recordReceived, Prog.andThen, Prog.read, hr, hv, Except.bind, storeRaw_conflict ha, Exec.final]⟩

/-! ## record_outcome -/

/-- The checks an outcome passes once its delivery is found without one. -/
def Recordable (h : Hashes) (d : Disk) (x : Received) (outcome : Outcome) (o : Option Observation) : Prop :=
  match outcome with
  | .applied ack => ackBound h d x ack o = .ok () ∧ (Body.outcome 0 (.applied ack)).dumpable
  | .rejected _ => True

theorem recordOutcome_eq {index : Nat} {x : Received} {outcome : Outcome} {o : Option Observation}
    (hr : rows w d = .ok rs) (hx : receivedAt rs index = [x]) (hn : outcomesAt rs index = [])
    (hok : Recordable h d x outcome o) :
    recordOutcome w h index outcome o d = ⟨appendWrites w (.outcome index outcome) rs d, .ok ()⟩ := by
  have hb : outcomeBound w h index outcome o d = .ok true := by
    simp only [outcomeBound, hr, hx, hn, Except.bind]
    cases outcome with
    | applied ack =>
      simp only [hok.1]
      rfl
    | rejected code => rfl
  have hd : (Body.outcome index outcome).dumpable := by
    cases outcome with
    | applied ack => exact hok.2
    | rejected code => exact trivial
  simp [recordOutcome, Prog.andThen, Prog.read, hb, Exec.final, append_eq hr hd]

theorem recordOutcome_refused {index : Nat} {x : Received} {outcome : Outcome} {o : Option Observation}
    (hr : rows w d = .ok rs) (hx : receivedAt rs index = [x]) (hn : outcomesAt rs index = [])
    (hno : ¬Recordable h d x outcome o) : ∃ e, recordOutcome w h index outcome o d = ⟨[], .error e⟩ := by
  cases outcome with
  | rejected code => exact absurd trivial hno
  | applied ack =>
    cases hb : ackBound h d x ack o with
    | error e =>
      have hb' : outcomeBound w h index (.applied ack) o d = .error e := by
        simp only [outcomeBound, hr, hx, hn, Except.bind, hb]
        rfl
      exact ⟨e, by simp [recordOutcome, Prog.andThen, Prog.read, hb']⟩
    | ok u =>
      have hb' : outcomeBound w h index (.applied ack) o d = .ok true := by
        simp only [outcomeBound, hr, hx, hn, Except.bind, hb]
        rfl
      have hd : ¬(Body.outcome index (.applied ack)).dumpable := fun hd => hno ⟨hb, hd⟩
      obtain ⟨e, he⟩ := append_refused (w := w) (d := d) (.inr hd)
      exact ⟨e, by simp [recordOutcome, Prog.andThen, Prog.read, hb', Exec.final, he]⟩

/-- Where the journal cannot be read no outcome is recorded. -/
theorem recordOutcome_unread {index : Nat} {outcome : Outcome} {o : Option Observation} {e : JournalError}
    (hr : rows w d = .error e) : recordOutcome w h index outcome o d = ⟨[], .error e⟩ := by
  simp [recordOutcome, Prog.andThen, Prog.read, outcomeBound, hr, Except.bind]

/-! ## apply -/

/-- The directory after `Ingestor.apply`. -/
def Disk.decided (h : Hashes) (now : Int) (o : Observation) (d : Disk) : Disk :=
  { d with db := (Ingest.apply h now o d.db).1 }

/-- The delivery's outcome is recorded after the ingest, or the call raises there. -/
theorem applyReceived_cases {now : Int} {index : Nat} {x : Received} {o : Observation} (hr : rows w d = .ok rs)
    (hx : receivedAt rs index = [x]) (hn : outcomesAt rs index = []) :
    (∃ outcome, outcomeOf (Ingest.apply h now o d.db).2 = .ok outcome ∧
      Recordable h (d.decided h now o) x outcome (some o) ∧ applyReceived w h now index o d =
        ⟨(.ingested, d.decided h now o) :: appendWrites w (.outcome index outcome) rs (d.decided h now o), .ok outcome⟩) ∨
    ((∀ outcome, outcomeOf (Ingest.apply h now o d.db).2 = .ok outcome →
      ¬Recordable h (d.decided h now o) x outcome (some o)) ∧
      ∃ e, applyReceived w h now index o d = ⟨[(.ingested, d.decided h now o)], .error e⟩) := by
  have hr' : rows w (d.decided h now o) = .ok rs := hr
  have hi : ingestApply h now o d = ⟨[(.ingested, d.decided h now o)], .ok (Ingest.apply h now o d.db).2⟩ := rfl
  cases hout : outcomeOf (Ingest.apply h now o d.db).2 with
  | error e =>
    refine .inr ⟨fun _ he => (nomatch he), e, ?_⟩
    simp [applyReceived, Prog.andThen, hi, hout, Prog.raise]
  | ok outcome =>
    by_cases hrec : Recordable h (d.decided h now o) x outcome (some o)
    · refine .inl ⟨outcome, rfl, hrec, ?_⟩
      simp [applyReceived, Prog.andThen, hi, hout, Exec.final, recordOutcome_eq hr' hx hn hrec, Prog.ret]
    · obtain ⟨e, he⟩ := @recordOutcome_refused _ _ _ _ index _ _ _ hr' hx hn hrec
      refine .inr ⟨fun out ho => ?_, e, ?_⟩
      · cases ho
        exact hrec
      · simp [applyReceived, Prog.andThen, hi, hout, Exec.final, he]

theorem applyReceived_unread {now : Int} {index : Nat} {o : Observation} {e : JournalError} (hr : rows w d = .error e) :
    ∃ e, applyReceived w h now index o d = ⟨[(.ingested, d.decided h now o)], .error e⟩ := by
  have hr' : rows w (d.decided h now o) = .error e := hr
  have hi : ingestApply h now o d = ⟨[(.ingested, d.decided h now o)], .ok (Ingest.apply h now o d.db).2⟩ := rfl
  cases hout : outcomeOf (Ingest.apply h now o d.db).2 with
  | error e' => exact ⟨e', by simp [applyReceived, Prog.andThen, hi, hout, Prog.raise]⟩
  | ok outcome =>
    exact ⟨e, by simp [applyReceived, Prog.andThen, hi, hout, Exec.final, recordOutcome_unread hr']⟩

/-- The journal with a RECEIVED row for the observation. -/
def receivedRows (w : Wire) (rs : List Row) (o : Observation) (b : BatchId) : List Row :=
  rs ++ [nextRow w rs (receivedBody rs o b)]

/-- The directory once a delivery is received. -/
def Disk.received (w : Wire) (d : Disk) (rs : List Row) (o : Observation) (b : BatchId) : Disk :=
  (d.stored o).holding ⟨receivedRows w rs o b, []⟩

theorem apply_eq {now : Int} {o : Observation} {b : BatchId} (hr : rows w d = .ok rs)
    (hv : validateSyntheticObservation h d.context o = .ok ()) (ha : d.agrees o) :
    apply w h now o b d =
      ⟨storeWrites o d ++ appendWrites w (receivedBody rs o b) rs (d.stored o) ++
        (applyReceived w h now ((receivedReferences rs).length + 1) o (d.received w rs o b)).writes,
      (applyReceived w h now ((receivedReferences rs).length + 1) o (d.received w rs o b)).result⟩ := by
  have hrec := recordReceived_eq (w := w) (b := b) hr hv ha
  have hfin : (recordReceived w h o b d).final d = d.received w rs o b := by
    rw [hrec, Exec.final, List.foldl_append, storeWrites_final, appendWrites_final]
    rfl
  simp only [apply, Prog.andThen, hfin]
  rw [hrec]

theorem apply_refused {now : Int} {o : Observation} {b : BatchId} (hno : (∃ e, rows w d = .error e) ∨
    validateSyntheticObservation h d.context o ≠ .ok () ∨ ¬d.agrees o) : ∃ e, apply w h now o b d = ⟨[], .error e⟩ := by
  obtain ⟨e, he⟩ := recordReceived_refused (w := w) (b := b) hno
  exact ⟨e, by simp [apply, Prog.andThen, he]⟩

/-- An apply that writes anything has read the journal and accepted the observation. -/
theorem apply_accepted {now : Int} {o : Observation} {b : BatchId} {x : Place × Disk}
    (hx : x ∈ (apply w h now o b d).writes) :
    ∃ rs, rows w d = .ok rs ∧ validateSyntheticObservation h d.context o = .ok () ∧ d.agrees o := by
  by_cases hno : (∃ e, rows w d = .error e) ∨ validateSyntheticObservation h d.context o ≠ .ok () ∨ ¬d.agrees o
  · obtain ⟨e, he⟩ := @apply_refused w _ _ now _ b hno
    rw [he] at hx
    cases hx
  · simp only [not_or, not_exists, not_not] at hno
    obtain ⟨hr, hv, ha⟩ := hno
    cases hr' : rows w d with
    | error e => exact absurd hr' (hr e)
    | ok rs => exact ⟨rs, rfl, hv, ha⟩

/-! ## The row just received -/

theorem received_refers (o : Observation) (b : BatchId) : (readingOf rs).refers (receivedBody rs o b) := rfl

theorem not_mem_receivedReferences (hv : ValidRows w rs) : (receivedReferences rs).length + 1 ∉ receivedReferences rs := by
  rw [receivedReferences_eq hv, List.length_range', List.mem_range'_1]
  omega

theorem receivedAt_received (hv : ValidRows w rs) (o : Observation) (b : BatchId) :
    receivedAt (receivedRows w rs o b) ((receivedReferences rs).length + 1) =
      [⟨o.contentHash.value, b, o.generation, o.sequence⟩] := by
  have hn := not_mem_receivedReferences hv
  rw [mem_receivedReferences, not_not, receivedAt] at hn
  rw [receivedAt, receivedRows, deliveries_snoc, List.filter_append, List.map_append, hn]
  simp [nextRow, receivedBody, Body.asDelivery]

theorem outcomesAt_received (hv : ValidRows w rs) (o : Observation) (b : BatchId) :
    outcomesAt (receivedRows w rs o b) ((receivedReferences rs).length + 1) = [] := by
  have hn : (receivedReferences rs).length + 1 ∉ outcomeReferences rs :=
    fun hm => not_mem_receivedReferences hv ((outcomeReferences_ok hv).2 _ hm)
  rw [mem_outcomeReferences, not_not, outcomesAt] at hn
  rw [outcomesAt, receivedRows, settlements_snoc, List.filter_append, List.map_append, hn]
  simp [nextRow, receivedBody, Body.asSettlement]

/-- The directory once a delivery has its outcome. -/
def Disk.answered (w : Wire) (h : Hashes) (now : Int) (d : Disk) (rs : List Row) (o : Observation) (b : BatchId)
    (outcome : Outcome) : Disk :=
  ((d.received w rs o b).decided h now o).holding
    ⟨receivedRows w rs o b ++ [nextRow w (receivedRows w rs o b) (.outcome ((receivedReferences rs).length + 1) outcome)], []⟩

/-- An apply that returns has read the journal twice and recorded what the ingest decided. -/
theorem apply_returned {now : Int} {o : Observation} {b : BatchId} {outcome : Outcome}
    (hok : (apply w h now o b d).result = .ok outcome) :
    ∃ rs, rows w d = .ok rs ∧ rows w (d.received w rs o b) = .ok (receivedRows w rs o b) ∧
      validateSyntheticObservation h d.context o = .ok () ∧ d.agrees o ∧
      outcomeOf (Ingest.apply h now o d.db).2 = .ok outcome ∧
      (apply w h now o b d).final d = d.answered w h now rs o b outcome := by
  have hacc : ∃ rs, rows w d = .ok rs ∧ validateSyntheticObservation h d.context o = .ok () ∧ d.agrees o := by
    by_contra hno
    have hno' : (∃ e, rows w d = .error e) ∨ validateSyntheticObservation h d.context o ≠ .ok () ∨ ¬d.agrees o := by
      cases hr : rows w d with
      | error e => exact .inl ⟨e, rfl⟩
      | ok rs => exact .inr (Classical.not_and_iff_not_or_not.mp fun hx => hno ⟨rs, hr, hx⟩)
    obtain ⟨e, he⟩ := @apply_refused w _ _ now _ b hno'
    rw [he] at hok
    cases hok
  obtain ⟨rs, hr, hv, ha⟩ := hacc
  have hdb : (d.received w rs o b).db = d.db := by
    unfold Disk.received Disk.holding Disk.stored
    split <;> rfl
  rw [apply_eq hr hv ha] at hok ⊢
  cases hrec : rows w (d.received w rs o b) with
  | error e =>
    obtain ⟨e', he⟩ := @applyReceived_unread _ h _ now ((receivedReferences rs).length + 1) o _ hrec
    rw [he] at hok
    cases hok
  | ok rs' =>
    have hrr : rs' = receivedRows w rs o b := (rows_journalRows hrec).symm
    subst hrr
    rcases @applyReceived_cases _ h _ _ now _ _ o hrec (receivedAt_received (rows_ok hr).1 o b)
      (outcomesAt_received (rows_ok hr).1 o b) with ⟨out, hout, -, he⟩ | ⟨-, e, he⟩
    · rw [he] at hok ⊢
      cases hok
      refine ⟨rs, hr, hrec, hv, ha, by rw [← hdb]; exact hout, ?_⟩
      rw [Exec.final, List.foldl_append, List.foldl_cons, appendWrites_final]
      rfl
    · rw [he] at hok
      cases hok

/-! ## reconcile, one delivery -/

section Settle

variable {clock : Nat → Int} {completed : List Nat} {r : Row} {o : Observation} {index : Nat} {x : Received}

theorem settle_done {found : Option Observation} (hn : ∀ n x, r.body = .received n x → n ∈ completed) :
    settle w h clock completed (r, found) d = ⟨[], .ok false⟩ := by
  cases hb : r.body with
  | received n x =>
    cases found with
    | none => simp only [settle, hb, Prog.ret]
    | some o => simp only [settle, hb, if_pos (hn n x hb), Prog.ret]
  | outcome n x => simp only [settle, hb, Prog.ret]
  | ackConfirmation g q x => simp only [settle, hb, Prog.ret]
  | partialTail a x => simp only [settle, hb, Prog.ret]

theorem settle_gap (hb : r.body = .received index x) (hn : index ∉ completed) {gap : GapRecord Int}
    {ack : Option (AckOutbox Int)} (hf : findings h x d = .ok (some gap, ack)) (hrun : gap.stream.runId = d.context.runId)
    (hstream : gap.stream.streamId = d.context.streamId) (hq : gap.detectedSequence = x.sequence.value) :
    settle w h clock completed (r, some o) d =
      ⟨(recordOutcome w h index (.rejected (gapCode gap.gapReason)) none d).writes,
        (recordOutcome w h index (.rejected (gapCode gap.gapReason)) none d).result.map fun _ => true⟩ := by
  simp only [settle, hb, hn, if_false, Prog.andThen, Prog.read, hf, Exec.final, List.foldl_nil, hrun, hstream, hq,
    ne_eq, not_true_eq_false, or_self, List.nil_append]
  cases (recordOutcome w h index (.rejected (gapCode gap.gapReason)) none d).result with
  | error e => rfl
  | ok u => simp [Prog.ret, Except.map]

theorem settle_ack (hb : r.body = .received index x) (hn : index ∉ completed) {ack : AckOutbox Int}
    (hf : findings h x d = .ok (none, some ack)) :
    settle w h clock completed (r, some o) d =
      ⟨(recordOutcome w h index (.applied ack) none d).writes,
        (recordOutcome w h index (.applied ack) none d).result.map fun _ => true⟩ := by
  simp only [settle, hb, hn, if_false, Prog.andThen, Prog.read, hf, Exec.final, List.foldl_nil, List.nil_append]
  cases (recordOutcome w h index (.applied ack) none d).result with
  | error e => rfl
  | ok u => simp [Prog.ret, Except.map]

theorem settle_again (hb : r.body = .received index x) (hn : index ∉ completed) (hf : findings h x d = .ok (none, none)) :
    settle w h clock completed (r, some o) d =
      ⟨(applyReceived w h (clock index) index o d).writes,
        (applyReceived w h (clock index) index o d).result.map fun _ => true⟩ := by
  simp only [settle, hb, hn, if_false, Prog.andThen, Prog.read, hf, Exec.final, List.foldl_nil, List.nil_append]
  cases (applyReceived w h (clock index) index o d).result with
  | error e => rfl
  | ok u => simp [Prog.ret, Except.map]

end Settle

/-! ## record_ack_confirmation -/

/-- The directory after `Ingestor.confirm_ack`. -/
def Disk.confirmed (h : Hashes) (now : Int) (ack : AckOutbox Int) (d : Disk) : Disk :=
  { d with db := (Ingest.confirmAck h now (.row ack) d.db).1 }

/-- A confirmation is refused, of no acknowledgement there is or by the ingest; or it is
    committed, and its row appended. -/
theorem recordAckConfirmation_cases (now : Int) (g q : DecimalText) (x : Digest) :
    recordAckConfirmation w h now g q x d = ⟨[], .error .ackBinding⟩ ∨
    ∃ ack, ackFor d.db.ackOutbox g q x = some ack ∧
      ((∃ e, (Ingest.confirmAck h now (.row ack) d.db).2 = .error e ∧
        recordAckConfirmation w h now g q x d = ⟨[(.confirmed, d.confirmed h now ack)], .error (.ingest e)⟩) ∨
      ((∃ a, (Ingest.confirmAck h now (.row ack) d.db).2 = .ok a) ∧ recordAckConfirmation w h now g q x d =
        ⟨(.confirmed, d.confirmed h now ack) :: (append w (.ackConfirmation g q x) (d.confirmed h now ack)).writes,
          (append w (.ackConfirmation g q x) (d.confirmed h now ack)).result⟩)) := by
  cases hf : ackFor d.db.ackOutbox g q x with
  | none =>
    left
    simp only [recordAckConfirmation, Prog.andThen, Prog.read, hf]
  | some ack =>
    right
    refine ⟨ack, rfl, ?_⟩
    cases hc : (Ingest.confirmAck h now (.row ack) d.db).2 with
    | error e =>
      refine .inl ⟨e, rfl, ?_⟩
      simp only [recordAckConfirmation, Prog.andThen, Prog.read, hf, ingestConfirm, hc, Exec.final, List.foldl_nil,
        List.nil_append]
      rfl
    | ok a =>
      refine .inr ⟨⟨a, rfl⟩, ?_⟩
      simp only [recordAckConfirmation, Prog.andThen, Prog.read, hf, ingestConfirm, hc, Exec.final, List.foldl_nil,
        List.foldl_cons, List.nil_append, Disk.confirmed, List.singleton_append]

/-- A confirmation that returns has committed it and appended its row. -/
theorem recordAckConfirmation_returned {now : Int} {g q : DecimalText} {x : Digest}
    (hok : (recordAckConfirmation w h now g q x d).result = .ok ()) :
    ∃ ack rs, ackFor d.db.ackOutbox g q x = some ack ∧ (∃ a, (Ingest.confirmAck h now (.row ack) d.db).2 = .ok a) ∧
      rows w d = .ok rs ∧ (recordAckConfirmation w h now g q x d).final d =
        (d.confirmed h now ack).holding ⟨rs ++ [nextRow w rs (.ackConfirmation g q x)], []⟩ := by
  rcases recordAckConfirmation_cases (w := w) (h := h) (d := d) now g q x with he | ⟨ack, hf, ⟨e, -, he⟩ | ⟨hc, he⟩⟩
  · rw [he] at hok
    cases hok
  · rw [he] at hok
    cases hok
  · rw [he] at hok ⊢
    have hcj : rows w (d.confirmed h now ack) = rows w d := rows_congr rfl
    cases hr : rows w (d.confirmed h now ack) with
    | error e =>
      obtain ⟨e', he'⟩ := append_refused (b := .ackConfirmation g q x) (.inl ⟨e, hr⟩)
      rw [he'] at hok
      cases hok
    | ok rs =>
      refine ⟨ack, rs, hf, hc, hcj ▸ hr, ?_⟩
      rw [append_eq (b := .ackConfirmation g q x) hr trivial, Exec.final, List.foldl_cons, appendWrites_final]

end BettingHelper.Delivery
