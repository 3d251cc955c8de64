/-
  BettingHelper.Delivery.Outcomes — what an OUTCOME row of the journal vouches for.

  A journal may have an observer, called after a delivery is received and after the ingest
  has decided on it. With one, `_record_outcome` looks the ACK up in the store again; with
  none it trusts what `Ingestor.apply` has just returned. Here a call may be either, may
  raise, and may be cut short at any write.

  Proved (`outcomes_accounted`), of every journal such calls leave: an APPLIED outcome
  carries a row of ack_outbox whose commit is of the delivery it references, each outcome
  references an earlier RECEIVED row and no two the same, and an outcome recorded again
  changes nothing.
-/

import BettingHelper.Delivery.Interrupted

namespace BettingHelper.Delivery

open BettingHelper.Store BettingHelper.Ingest BettingHelper.Lib BettingHelper.Lib.Crash

/-! ## Calls of a journal with an observer -/

/-- Where the observer is called. -/
inductive Moment where
  /-- `AFTER_RECEIVED` -/
  | afterReceived
  /-- `AFTER_APPLY` -/
  | afterApply
  deriving DecidableEq, Repr

/-- It returns or raises. -/
abbrev Observer := Moment → Nat → Except JournalError Unit

def notify (observer : Option Observer) (m : Moment) (index : Nat) : Call Unit :=
  match observer with
  | none => Prog.ret ()
  | some f => Prog.read fun _ => f m index

variable (w : Wire) (h : Hashes) (observer : Option Observer)

/-- `InputJournal._apply_received`. -/
def applyReceivedWith (now : Int) (index : Nat) (o : Observation) : Call Outcome :=
  Prog.andThen (ingestApply h now o) fun result =>
  match outcomeOf result with
  | .error e => Prog.raise e
  | .ok outcome =>
    Prog.andThen (notify observer .afterApply index) fun _ =>
    Prog.andThen (recordOutcome w h index outcome (if observer.isNone then some o else none)) fun _ => Prog.ret outcome

/-- `InputJournal.apply`. -/
def applyWith (now : Int) (o : Observation) (b : BatchId) : Call Outcome :=
  Prog.andThen (recordReceived w h o b) fun index =>
  Prog.andThen (notify observer .afterReceived index) fun _ => applyReceivedWith w h observer now index o

/-- One pass of the loop of `reconcile`. -/
def settleWith (clock : Nat → Int) (completed : List Nat) (op : Row × Option Observation) : Call Bool :=
  match op.1.body, op.2 with
  | .received index x, some o =>
    if index ∈ completed then Prog.ret false
    else
      Prog.andThen (Prog.read (findings h x)) fun found =>
      Prog.andThen (match found with
        | (some gap, _) => Prog.andThen (Prog.read fun d =>
            if gap.stream.runId ≠ d.context.runId ∨ gap.stream.streamId ≠ d.context.streamId ∨
                gap.detectedSequence ≠ x.sequence.value then .error .outcomeBinding
            else .ok ()) fun _ => recordOutcome w h index (.rejected (gapCode gap.gapReason)) none
        | (none, some acked) => recordOutcome w h index (.applied acked) none
        | (none, none) => Prog.andThen (applyReceivedWith w h observer (clock index) index o) fun _ => Prog.ret ()) fun _ =>
      Prog.ret true
  | _, _ => Prog.ret false

/-- `InputJournal.reconcile`. -/
def reconcileWith (clock : Nat → Int) : Call Nat :=
  Prog.andThen (repairTail w) fun _ =>
  Prog.andThen (Prog.read (iterOperations w h)) fun operations =>
  Prog.each (settleWith w h observer clock (outcomeReferences (operations.map (·.1)))) operations

/-- What `record_outcome` is given: an outcome, or a dictionary of any other shape. -/
inductive OutcomeArg where
  | known (outcome : Outcome)
  | other
  deriving DecidableEq, Repr

/-- `InputJournal.record_outcome`. -/
def recordOutcomeArg (index : Nat) : OutcomeArg → Call Unit
  | .known outcome => recordOutcome w h index outcome none
  | .other => Prog.read fun d => (rows w d).bind fun rs =>
    match receivedAt rs index, outcomesAt rs index with
    | [_], _ :: _ => .error .outcomeConflict
    | _, _ => .error .outcomeBinding

theorem applyReceivedWith_none : applyReceivedWith w h none = applyReceived w h := by
  funext now index o
  rfl

/-- Without an observer these are the calls of `InputJournal`. -/
theorem applyWith_none : applyWith w h none = apply w h := by
  funext now o b
  unfold applyWith apply
  rw [applyReceivedWith_none]
  rfl

theorem reconcileWith_none : reconcileWith w h none = reconcile w h := by
  have hs : settleWith w h none = settle w h := by
    funext clock completed op
    unfold settleWith settle
    rw [applyReceivedWith_none]
    all_goals
      rcases op with ⟨⟨i, p, body, x⟩, _ | o⟩
      · cases body <;> rfl
      · cases body <;> rfl
  funext clock
  unfold reconcileWith reconcile
  rw [hs]

/-- What calls of apply, record_outcome and reconcile leave, each to its end or to a crash. -/
inductive Session (c : Context) : Disk → Prop
  | created {t : Int} {db : Db Int} : createOfflineRun h c t = .ok db → Session c (.fresh c db)
  | applied {d s : Disk} (observer : Option Observer) (now : Int) (o : Observation) (b : BatchId) : Session c d →
      s ∈ crashes (applyWith w h observer now o b) d → Session c s
  | recorded {d s : Disk} (index : Nat) (arg : OutcomeArg) : Session c d →
      s ∈ crashes (recordOutcomeArg w h index arg) d → Session c s
  | reconciled {d s : Disk} (observer : Option Observer) (clock : Nat → Int) : Session c d →
      s ∈ crashes (reconcileWith w h observer clock) d → Session c s

variable {w h} {d s : Disk} {rs : List Row} {L : Ledger}

/-! ## The ACK of a delivery -/

/-- The ACK is a row of ack_outbox, and its commit is of the delivery. -/
def AckOf (db : Db Int) (ack : AckOutbox Int) (x : Received) : Prop :=
  ack ∈ db.ackOutbox ∧ ∃ raw ∈ db.rawCommits, raw.rawCommitId = ack.rawCommitId ∧
    raw.rawObservationContentHash = x.rawHash ∧ plain raw.position.generation = x.generation ∧ plain raw.sequence = x.sequence

/-- Rows are only added. -/
structure Grown (db db' : Db Int) : Prop where
  acks : ∀ a ∈ db.ackOutbox, a ∈ db'.ackOutbox
  raws : ∀ r ∈ db.rawCommits, r ∈ db'.rawCommits

theorem AckOf.grown {db db' : Db Int} {ack : AckOutbox Int} {x : Received} (ha : AckOf db ack x) (hg : Grown db db') :
    AckOf db' ack x := by
  obtain ⟨hm, raw, hr, hrest⟩ := ha
  exact ⟨hg.acks ack hm, raw, hg.raws raw hr, hrest⟩

theorem Change.grown {L' : Ledger} (hc : L.Change L') : Grown (L.tables h) (L'.tables h) := by
  have hraw : ∀ (c : Commit) (late : Bool), ∀ r ∈ (L.tables h).rawCommits, r ∈ ((L.append c late).tables h).rawCommits := by
    intro c late r hr
    simp only [Ledger.tables, Ledger.append, List.map_append]
    exact List.mem_append_left _ hr
  cases hc with
  | same => exact ⟨fun _ ha => ha, fun _ hr => hr⟩
  | applied c hk =>
    refine ⟨fun a ha => ?_, hraw c false⟩
    simp only [Ledger.tables, Ledger.log_append_applied, List.map_append]
    exact List.mem_append_left _ ha
  | late c =>
    refine ⟨fun a ha => ?_, hraw c true⟩
    simp only [Ledger.tables, Ledger.log_append_late]
    exact ha
  | ruptured r hr => exact ⟨fun _ ha => ha, fun _ hr => hr⟩
  | confirmed a => exact ⟨fun _ ha => ha, fun _ hr => hr⟩

/-- The commit an ACK names is at the ACK's place. -/
theorem raw_of_ack (hs : L.Sound h) {a : AckOutbox Int} (ha : a ∈ (L.tables h).ackOutbox) {r : RawCommit Int}
    (hr : r ∈ (L.tables h).rawCommits) (hid : r.rawCommitId = a.rawCommitId) :
    r.position = a.position ∧ r.sequence = a.highestContiguousSequence := by
  obtain ⟨c, hc, rfl⟩ := List.mem_map.mp ha
  obtain ⟨⟨e, late⟩, he, rfl⟩ := List.mem_map.mp hr
  cases late with
  | true => exact absurd hid (by simp [Entry.raw, Ingest.ack])
  | false =>
    have hx : e.cursor = c.cursor := by simpa [Entry.raw, Ingest.ack] using hid
    have hec : e = c := List.inj_on_of_nodup_map hs.cursors (Ledger.mem_log.mpr he) hc hx
    subst hec
    exact ⟨rfl, rfl⟩

theorem breakOff_error (now : Int) (cause : Cause) (o : Observation) (code : IngestError) (a : AckOutbox Int) :
    (L.breakOff h now cause o code).2 ≠ .ok a := by
  unfold Ledger.breakOff
  split
  · simp
  · split <;> simp

/-- What an apply acknowledges is a commit of the observation, at its place. -/
theorem apply_acked {now : Int} {o : Observation} {a : AckOutbox Int} (hok : (L.apply h now o).2 = .ok a) :
    ∃ c ∈ (L.apply h now o).1.log, a = ack c ∧ c.payload.contentHash = o.contentHash.value ∧
      c.key = L.position o.generation.value ∧ c.seq = o.sequence.value := by
  unfold Ledger.apply at hok ⊢
  cases had : admissible h o with
  | error e =>
    rw [had] at hok
    cases hok
  | ok u =>
    rw [had] at hok
    simp only at hok ⊢
    split_ifs at hok ⊢ with hb hid hg
    have hgen : o.generation.value = L.active := by
      simp only [not_or] at hid
      omega
    unfold Ledger.advance at hok ⊢
    cases hat : L.commitAt L.active o.sequence.value with
    | some c =>
      rw [hat] at hok
      simp only at hok ⊢
      split_ifs at hok ⊢ with hx hrec
      · obtain rfl := Except.ok.inj hok
        have hc : c.key = L.position L.active ∧ c.seq = o.sequence.value := by simpa using List.find?_some hat
        exact ⟨c, List.mem_of_find?_eq_some hat, rfl, hx, hgen ▸ hc.1, hc.2⟩
      · exact absurd hok (breakOff_error now _ o _ a)
    | none =>
      rw [hat] at hok
      simp only at hok ⊢
      split_ifs at hok ⊢ with hq
      · unfold Ledger.commit at hok ⊢
        split_ifs at hok ⊢
        obtain rfl := Except.ok.inj hok
        refine ⟨L.nextCommit h now o, ?_, rfl, rfl, hgen ▸ rfl, rfl⟩
        rw [Ledger.log_append_applied]
        exact List.mem_append_right _ (.head _)
      · exact absurd hok (breakOff_error now _ o _ a)

/-! ## What every write keeps -/

/-- The outcome is of a delivery among the rows, and its ACK, if any, is that delivery's. -/
def Vouched (db : Db Int) (rs : List Row) : Body → Prop
  | .outcome n (.applied acked) => ∃ x, (n, x) ∈ deliveries rs ∧ AckOf db acked x
  | _ => True

structure Kept (w : Wire) (h : Hashes) (d : Disk) : Prop where
  store : ∃ L : Ledger, L.Sound h ∧ d.db = L.tables h
  rows : ValidRows w d.journalRows
  vouched : ∀ r ∈ d.journalRows, Vouched d.db d.journalRows r.body

theorem kept_fresh {c : Context} {t : Int} {db : Db Int} (hc : createOfflineRun h c t = .ok db) : Kept w h (.fresh c db) := by
  obtain ⟨⟨-, ht, hg⟩, rfl⟩ := Ledger.createOfflineRun_ok.mp hc
  exact ⟨⟨_, Ledger.fresh_sound ht hg, rfl⟩, rfl, fun r hr => nomatch hr⟩

theorem Vouched.mono {db db' : Db Int} {rs rs' : List Row} {b : Body} (hb : Vouched db rs b) (hg : Grown db db')
    (hr : ∀ x ∈ deliveries rs, x ∈ deliveries rs') : Vouched db' rs' b := by
  match b, hb with
  | .outcome n (.applied _), ⟨x, hx, ha⟩ => exact ⟨x, hr _ hx, ha.grown hg⟩
  | .outcome n (.rejected code), _ => trivial
  | .received n x, _ => trivial
  | .ackConfirmation g q x, _ => trivial
  | .partialTail a x, _ => trivial

/-- A delivery that an outcome of the first rows references is among them. -/
theorem Vouched.prefixed {db : Db Int} {rs lost : List Row} (hv : ValidRows w (rs ++ lost)) {r : Row} (hr : r ∈ rs)
    (hb : Vouched db (rs ++ lost) r.body) : Vouched db rs r.body := by
  cases hbody : r.body with
  | outcome n outcome =>
    cases outcome with
    | rejected code => trivial
    | applied ack =>
      rw [hbody] at hb
      obtain ⟨x, hx, ha⟩ := hb
      have hvr := validRows_left hv
      have hset : (n, Outcome.applied ack) ∈ settlements rs := mem_settlements.mpr ⟨r, hr, hbody⟩
      have hn : n ∈ receivedReferences rs := (outcomeReferences_ok hvr).2 n (List.mem_map_of_mem hset)
      obtain ⟨⟨m, y⟩, hy, rfl⟩ := List.mem_map.mp hn
      have hsub : (m, y) ∈ deliveries (rs ++ lost) := by
        rw [deliveries, List.filterMap_append]
        exact List.mem_append_left _ hy
      have heq := List.inj_on_of_nodup_map (receivedReferences_nodup hv) hx hsub rfl
      exact ⟨y, hy, (Prod.mk.inj heq).2 ▸ ha⟩
  | received n x => trivial
  | ackConfirmation g q x => trivial
  | partialTail a x => trivial

namespace Kept

theorem ledger (hk : Kept w h d) : ∃ L : Ledger, L.Sound h ∧ d.db = L.tables h := hk.store

/-- The same store, and some of the first rows. -/
theorem shorter (hk : Kept w h d) (hdb : s.db = d.db) (hp : s.journalRows <+: d.journalRows) : Kept w h s := by
  obtain ⟨lost, hl⟩ := hp
  have hv := hk.rows
  rw [← hl] at hv
  refine ⟨hdb ▸ hk.store, validRows_left hv, fun r hr => ?_⟩
  have hb := hk.vouched r (hl ▸ List.mem_append_left _ hr)
  rw [← hl] at hb
  rw [hdb]
  exact hb.prefixed hv hr

/-- One more row. -/
theorem snoc (hk : Kept w h d) {b : Body} (hdb : s.db = d.db) (hs : s.journalRows = d.journalRows ++ [nextRow w d.journalRows b])
    (href : (readingOf d.journalRows).refers b) (hb : Vouched d.db d.journalRows b) : Kept w h s := by
  have hsub : ∀ x ∈ deliveries d.journalRows, x ∈ deliveries s.journalRows := by
    intro x hx
    rw [hs, deliveries, List.filterMap_append]
    exact List.mem_append_left _ hx
  have hg : Grown d.db s.db := by
    rw [hdb]
    exact ⟨fun _ ha => ha, fun _ hr => hr⟩
  refine ⟨hdb ▸ hk.store, by rw [hs]; exact validRows_next hk.rows href, fun r hr => ?_⟩
  rw [hs] at hr
  rcases List.mem_append.mp hr with hr | hr
  · exact (hk.vouched r hr).mono hg hsub
  · rw [List.mem_singleton.mp hr]
    exact hb.mono hg hsub

/-- Every state while a row is appended. -/
theorem appending (hk : Kept w h d) {b : Body} (hr : Delivery.rows w d = .ok rs) (href : (readingOf rs).refers b)
    (hb : Vouched d.db rs b) {x : Place × Disk} (hx : x ∈ appendWrites w b rs d) : Kept w h x.2 := by
  have hrows := rows_journalRows hr
  subst hrows
  rcases appendWrites_rows hr hx with ⟨f, he, hf⟩ | he
  · refine hk.shorter (by rw [he]; rfl) ?_
    rw [he]
    exact hf ▸ List.prefix_refl _
  · refine hk.snoc (b := b) (by rw [he]; rfl) ?_ href hb
    rw [he]
    rfl

theorem append (hk : Kept w h d) {b : Body} (href : ∀ rs, Delivery.rows w d = .ok rs → (readingOf rs).refers b)
    (hb : ∀ rs, Delivery.rows w d = .ok rs → Vouched d.db rs b) :
    Meets (Delivery.append w b) d (fun _ => Kept w h) (fun _ => Kept w h) (fun _ => Kept w h) := by
  refine Meets.of_writes (fun x hx => ?_) hk
  by_cases hok : (∃ e, Delivery.rows w d = .error e) ∨ ¬b.dumpable
  · obtain ⟨e, he⟩ := append_refused hok
    rw [he] at hx
    cases hx
  · simp only [not_or, not_exists, not_not] at hok
    cases hr : Delivery.rows w d with
    | error e => exact absurd hr (hok.1 e)
    | ok rs =>
      rw [append_eq hr hok.2] at hx
      exact hk.appending hr (href rs hr) (hb rs hr) hx

/-! ## Each call -/

/-- The ACK is a row of the store, of a commit of the observation. -/
def Acked (db : Db Int) (ack : AckOutbox Int) (o : Observation) : Prop :=
  ack ∈ db.ackOutbox ∧ ∃ raw ∈ db.rawCommits, raw.rawCommitId = ack.rawCommitId ∧
    raw.rawObservationContentHash = o.contentHash.value

/-- Either path binds the ACK to the delivery. -/
theorem ackBound_ok (hk : Kept w h d) {x : Received} {ack : AckOutbox Int} {appliedRaw : Option Observation}
    (hp : ∀ o ∈ appliedRaw, Acked d.db ack o) (hok : ackBound h d x ack appliedRaw = .ok ()) : AckOf d.db ack x := by
  obtain ⟨L, hs, hL⟩ := hk.store
  have hplace : ∀ raw ∈ d.db.rawCommits, ack ∈ d.db.ackOutbox → raw.rawCommitId = ack.rawCommitId →
      raw.position = ack.position ∧ raw.sequence = ack.highestContiguousSequence := by
    rw [hL]
    exact fun raw hr ha => raw_of_ack hs ha hr
  cases appliedRaw with
  | some o =>
    obtain ⟨ha, raw, hr, hid, hx⟩ := hp o rfl
    unfold ackBound at hok
    simp only at hok
    split_ifs at hok with hc
    simp only [not_or, not_not] at hc
    obtain ⟨hhash, -, -, hgen, hseq⟩ := hc
    obtain ⟨hpos, hq⟩ := hplace raw hr ha hid
    refine ⟨ha, raw, hr, hid, ?_, ?_, ?_⟩
    · rw [hx, hhash]
      rfl
    · rw [hpos, hgen]
    · rw [hq, hseq]
  | none =>
    unfold ackBound at hok
    simp only at hok
    cases hv : ofStore (validateJournal h.cursorStep d.db) with
    | error e =>
      rw [hv] at hok
      cases hok
    | ok u =>
      rw [hv] at hok
      simp only [Except.bind] at hok
      split_ifs at hok with hc
      simp only [not_or, not_not] at hc
      obtain ⟨hfound, hraw, hgen, hseq⟩ := hc
      have ha := List.mem_of_find?_eq_some hfound
      obtain ⟨raw, hr, hx⟩ := Option.map_eq_some_iff.mp hraw
      have hid : raw.rawCommitId = ack.rawCommitId := by simpa using List.find?_some hr
      obtain ⟨hpos, hq⟩ := hplace raw (List.mem_of_find?_eq_some hr) ha hid
      exact ⟨ha, raw, List.mem_of_find?_eq_some hr, hid, hx, by rw [hpos, hgen], by rw [hq, hseq]⟩

/-- An outcome to be appended references a delivery that has none, and is bound to it. -/
theorem outcomeBound_true {index : Nat} {outcome : Outcome} {appliedRaw : Option Observation}
    (hok : outcomeBound w h index outcome appliedRaw d = .ok true) :
    ∃ rs x, Delivery.rows w d = .ok rs ∧ receivedAt rs index = [x] ∧ outcomesAt rs index = [] ∧
      ∀ ack, outcome = .applied ack → ackBound h d x ack appliedRaw = .ok () := by
  unfold outcomeBound at hok
  cases hr : Delivery.rows w d with
  | error e =>
    rw [hr] at hok
    cases hok
  | ok rs =>
    rw [hr] at hok
    simp only [Except.bind] at hok
    split at hok
    · rename_i x hx hn
      refine ⟨rs, x, rfl, hx, hn, fun ack he => ?_⟩
      subst he
      simp only at hok
      cases hb : ackBound h d x ack appliedRaw with
      | error e =>
        rw [hb] at hok
        cases hok
      | ok u => rfl
    · split_ifs at hok
      cases hok
    · cases hok

theorem recordOutcome (hk : Kept w h d) {index : Nat} {outcome : Outcome} {appliedRaw : Option Observation}
    (hp : ∀ o ∈ appliedRaw, ∀ ack, outcome = .applied ack → Acked d.db ack o) :
    Meets (Delivery.recordOutcome w h index outcome appliedRaw) d (fun _ => Kept w h) (fun _ => Kept w h)
      (fun _ => Kept w h) := by
  refine (Meets.read (Q := fun new t => t = d ∧ outcomeBound w h index outcome appliedRaw d = .ok new)
    (fun new hn => ⟨rfl, hn⟩) fun _ _ => hk).andThen fun new t ht => ?_
  obtain ⟨rfl, hnew⟩ := ht
  cases new with
  | false => exact .ret hk
  | true =>
    obtain ⟨rs, x, hr, hx, hn, hb⟩ := outcomeBound_true hnew
    have hsame : ∀ rs', Delivery.rows w t = .ok rs' → rs' = rs := by
      intro rs' hr'
      rw [hr] at hr'
      exact (Except.ok.inj hr').symm
    have hmem : index ∈ receivedReferences rs := mem_receivedReferences.mpr (by rw [hx]; simp)
    have hno : index ∉ outcomeReferences rs := fun hm => mem_outcomeReferences.mp hm hn
    refine hk.append (fun rs' hr' => ?_) fun rs' hr' => ?_
    · rw [hsame rs' hr']
      exact outcome_refers (rows_ok hr).1 hmem hno outcome
    · rw [hsame rs' hr']
      cases outcome with
      | rejected code => trivial
      | applied ack =>
        have hdel : (index, x) ∈ deliveries rs := by
          have hxm : x ∈ receivedAt rs index := by rw [hx]; exact .head _
          obtain ⟨⟨n, y⟩, hy, rfl⟩ := List.mem_map.mp hxm
          obtain ⟨hyd, hyn⟩ := List.mem_filter.mp hy
          have hn : n = index := by simpa using hyn
          exact hn ▸ hyd
        exact ⟨x, hdel, hk.ackBound_ok (fun o ho => hp o ho ack rfl) (hb ack rfl)⟩

/-- The directory after `Ingestor.apply`. -/
theorem decided (hk : Kept w h d) (now : Int) (o : Observation) :
    Kept w h (d.decided h now o) ∧ ∀ ack, (Ingest.apply h now o d.db).2 = .ok ack → Acked (d.decided h now o).db ack o := by
  obtain ⟨L, hs, hL⟩ := hk.store
  have htab := Ledger.apply_tables hs now o
  have hdb : (d.decided h now o).db = (L.apply h now o).1.tables h := by
    rw [Disk.decided, hL, htab]
  have hg : Grown d.db (d.decided h now o).db := by
    rw [hdb, hL]
    exact Change.grown (Ledger.apply_change now o)
  refine ⟨⟨⟨_, Ledger.apply_sound hs now o, hdb⟩, hk.rows, fun r hr => (hk.vouched r hr).mono hg fun _ hx => hx⟩, ?_⟩
  intro ack hack
  rw [hL, htab] at hack
  obtain ⟨c, hc, rfl, hx, -⟩ := apply_acked hack
  rw [hdb]
  exact ⟨List.mem_map_of_mem hc, Entry.raw ⟨c, false⟩, List.mem_map_of_mem (Ledger.mem_log.mp hc), rfl, hx⟩

theorem notify {observer : Option Observer} {m : Moment} {index : Nat} {I : Disk → Prop} (hd : I d) :
    Meets (Delivery.notify observer m index) d (fun _ => I) (fun _ => I) (fun _ => I) := by
  cases observer with
  | none => exact .ret hd
  | some f => exact .read (fun _ _ => hd) fun _ _ => hd

theorem outcomeOf_applied {result : Except IngestError (AckOutbox Int)} {ack : AckOutbox Int}
    (ho : outcomeOf result = .ok (.applied ack)) : result = .ok ack := by
  unfold outcomeOf at ho
  split at ho <;> simp_all

theorem applyReceivedWith (hk : Kept w h d) {observer : Option Observer} {now : Int} {index : Nat} {o : Observation} :
    Meets (Delivery.applyReceivedWith w h observer now index o) d (fun _ => Kept w h) (fun _ => Kept w h)
      (fun _ => Kept w h) := by
  obtain ⟨hk', hacked⟩ := hk.decided now o
  have hi : Meets (ingestApply h now o) d (fun _ => Kept w h)
      (fun result t => t = d.decided h now o ∧ result = (Ingest.apply h now o d.db).2) (fun _ => Kept w h) := by
    refine ⟨fun x hx => ?_, fun result hr => ⟨rfl, (Except.ok.inj hr).symm⟩, fun _ _ => hk'⟩
    rw [List.mem_singleton.mp hx]
    exact hk'
  refine hi.andThen fun result t ht => ?_
  obtain ⟨rfl, rfl⟩ := ht
  cases hout : outcomeOf (Ingest.apply h now o d.db).2 with
  | error e => exact .raise hk'
  | ok outcome =>
    refine (notify (I := fun t => t = d.decided h now o) rfl).mono (fun _ t ht => ht ▸ hk') (fun _ _ ht => ht)
      (fun _ t ht => ht ▸ hk') |>.andThen fun _ t ht => ?_
    subst ht
    refine (hk'.recordOutcome fun o' ho' ack he => ?_).andThen fun _ u hu => .ret hu
    have ho : o' = o := by
      cases observer with
      | none => exact (Option.some.inj ho').symm
      | some f => cases ho'
    rw [ho]
    exact hacked ack (outcomeOf_applied (he ▸ hout))

theorem recordReceived (hk : Kept w h d) {o : Observation} {b : BatchId} :
    Meets (Delivery.recordReceived w h o b) d (fun _ => Kept w h) (fun _ => Kept w h) (fun _ => Kept w h) := by
  refine .of_writes (fun x hx => ?_) hk
  have hstored : Kept w h (d.stored o) := by
    have hj : (d.stored o).journalRows = d.journalRows := by rw [Disk.journalRows, stored_journal]; rfl
    refine hk.shorter ?_ (hj ▸ List.prefix_refl _)
    unfold Disk.stored
    split <;> rfl
  by_cases hno : (∃ e, Delivery.rows w d = .error e) ∨ validateSyntheticObservation h d.context o ≠ .ok () ∨ ¬d.agrees o
  · obtain ⟨e, he⟩ := recordReceived_refused (w := w) (b := b) hno
    rw [he] at hx
    cases hx
  · simp only [not_or, not_exists, not_not] at hno
    cases hr : Delivery.rows w d with
    | error e => exact absurd hr (hno.1 e)
    | ok rs =>
      rw [recordReceived_eq hr hno.2.1 hno.2.2] at hx
      rcases List.mem_append.mp hx with hx | hx
      · unfold storeWrites at hx
        split at hx
        · rw [List.mem_singleton.mp hx]
          exact hstored
        · cases hx
      · exact hstored.appending ((rows_congr (stored_journal o)).trans hr) (received_refers o b) trivial hx

theorem applyWith (hk : Kept w h d) {observer : Option Observer} {now : Int} {o : Observation} {b : BatchId} :
    Meets (Delivery.applyWith w h observer now o b) d (fun _ => Kept w h) (fun _ => Kept w h) (fun _ => Kept w h) :=
  hk.recordReceived.andThen fun _ _ ht => (notify ht).andThen fun _ _ hu => hu.applyReceivedWith

theorem repairTail (hk : Kept w h d) :
    Meets (Delivery.repairTail w) d (fun _ => Kept w h) (fun _ => Kept w h) (fun _ => Kept w h) := by
  refine .of_writes (fun x hx => ?_) hk
  cases hj : d.journal with
  | none =>
    rw [repairTail_whole (.inl hj)] at hx
    cases hx
  | some f =>
    have hrows : d.journalRows = f.rows := by rw [Disk.journalRows, hj]; rfl
    by_cases htail : f.tail = []
    · unfold Delivery.repairTail at hx
      rw [hj] at hx
      simp only [htail, if_true] at hx
      split at hx <;> cases hx
    · by_cases hrep : Repairable w d f
      · have hv := hk.rows
        rw [hrows] at hv
        rcases @survivors_cases _ _ _ hj hrep.1 htail hrep.2 hv (some x.1) x.2
            (List.mem_cons_of_mem _ (List.mem_map.mpr ⟨x, hx, rfl⟩)) with ⟨he, -⟩ | ⟨-, he⟩ | ⟨-, he⟩ | ⟨n, -, -, he⟩ |
            ⟨b, n, -, he, -⟩ | ⟨b, -, he⟩
        · cases he
        · rw [he]
          exact hk.shorter rfl List.nil_prefix
        · rw [he]
          exact hk.shorter rfl List.nil_prefix
        · rw [he]
          obtain ⟨lost, hl, -⟩ := cut_rows (w := w) f.rows n
          exact hk.shorter rfl ⟨lost, (hrows.trans hl).symm⟩
        · rw [he]
          exact hk.shorter rfl (hrows ▸ List.prefix_refl _)
        · rw [he]
          exact hk.snoc (b := .partialTail (w.fileHash f) (w.fileHash f)) rfl (by rw [hrows]; rfl) trivial trivial
      · have hno : ∃ e, Delivery.repairTail w d = ⟨[], .error e⟩ := by
          refine repairTail_refused hj htail ?_
          by_contra hc
          simp only [not_or, Nat.not_lt, not_not] at hc
          exact hrep hc
        obtain ⟨e, he⟩ := hno
        rw [he] at hx
        cases hx

theorem settleWith (hk : Kept w h d) {observer : Option Observer} {clock : Nat → Int} {completed : List Nat}
    {op : Row × Option Observation} :
    Meets (Delivery.settleWith w h observer clock completed op) d (fun _ => Kept w h) (fun _ => Kept w h)
      (fun _ => Kept w h) := by
  unfold Delivery.settleWith
  split
  · split
    · exact .ret hk
    · refine (Meets.read (fun _ _ => hk) fun _ _ => hk).andThen fun found t ht => ?_
      refine Meets.andThen (Q := fun _ => Kept w h) ?_ fun _ u hu => .ret hu
      have hnone : ∀ {outcome : Outcome} {t : Disk}, ∀ o ∈ (none : Option Observation), ∀ ack, outcome = .applied ack →
          Acked t.db ack o := fun _ ho => nomatch ho
      rcases found with ⟨_ | gap, _ | ack⟩
      · exact ht.applyReceivedWith.andThen fun _ u hu => .ret hu
      · exact ht.recordOutcome hnone
      · exact (Meets.read (fun _ _ => ht) fun _ _ => ht).andThen fun _ u hu => hu.recordOutcome hnone
      · exact (Meets.read (fun _ _ => ht) fun _ _ => ht).andThen fun _ u hu => hu.recordOutcome hnone
  · exact .ret hk

theorem reconcileWith (hk : Kept w h d) {observer : Option Observer} {clock : Nat → Int} :
    Meets (Delivery.reconcileWith w h observer clock) d (fun _ => Kept w h) (fun _ => Kept w h) (fun _ => Kept w h) :=
  hk.repairTail.andThen fun _ _ ht => (Meets.read (fun _ _ => ht) fun _ _ => ht).andThen fun _ _ hu =>
    .each (fun _ _ _ hv => hv.settleWith) hu

theorem recordOutcomeArg (hk : Kept w h d) {index : Nat} {arg : OutcomeArg} :
    Meets (Delivery.recordOutcomeArg w h index arg) d (fun _ => Kept w h) (fun _ => Kept w h) (fun _ => Kept w h) := by
  cases arg with
  | known outcome => exact hk.recordOutcome fun _ ho => nomatch ho
  | other => exact .read (fun _ _ => hk) fun _ _ => hk

end Kept

theorem Session.kept {c : Context} (hd : Session w h c d) : Kept w h d := by
  induction hd with
  | created hc => exact kept_fresh hc
  | applied observer now o b _ hs ih => exact ih.applyWith.crash ih hs
  | recorded index arg _ hs ih => exact ih.recordOutcomeArg.crash ih hs
  | reconciled observer clock _ hs ih => exact ih.reconcileWith.crash ih hs

/-! ## Recording an outcome again -/

theorem outcomesAt_of_mem (hv : ValidRows w rs) {index : Nat} {outcome : Outcome} (hm : (index, outcome) ∈ settlements rs) :
    outcomesAt rs index = [outcome] := by
  obtain ⟨out, ho⟩ := outcomesAt_unique hv (List.mem_map_of_mem hm)
  have hmem : outcome ∈ outcomesAt rs index :=
    List.mem_map.mpr ⟨(index, outcome), List.mem_filter.mpr ⟨hm, by simp⟩, rfl⟩
  rw [ho] at hmem ⊢
  rw [List.mem_singleton.mp hmem]

/-- Recorded again the outcome changes nothing, and any other raises and changes nothing. -/
structure Repeated (w : Wire) (h : Hashes) (d : Disk) (index : Nat) (outcome : Outcome) : Prop where
  unchanged : ∀ arg, (recordOutcomeArg w h index arg d).writes = []
  same : ∀ rs, rows w d = .ok rs → (recordOutcomeArg w h index (.known outcome) d).result = .ok ()
  other : ∀ arg, arg ≠ .known outcome → ∃ e, (recordOutcomeArg w h index arg d).result = .error e

theorem repeated_of_mem {index : Nat} {outcome : Outcome} (hm : (index, outcome) ∈ settlements d.journalRows) :
    Repeated w h d index outcome := by
  cases hr : rows w d with
  | error e =>
    have he : ∀ arg, recordOutcomeArg w h index arg d = ⟨[], .error e⟩ := by
      intro arg
      cases arg with
      | known out => exact recordOutcome_unread hr
      | other => simp [recordOutcomeArg, Prog.read, hr, Except.bind]
    exact ⟨fun arg => by rw [he], fun rs hrs => (by cases hr.symm.trans hrs), fun arg _ => ⟨e, by rw [he]⟩⟩
  | ok rs =>
    rw [rows_journalRows hr] at hm
    have hv := (rows_ok hr).1
    have ho := outcomesAt_of_mem hv hm
    obtain ⟨x, hx⟩ := receivedAt_unique hv ((outcomeReferences_ok hv).2 index (List.mem_map_of_mem hm))
    have hknown : ∀ out, recordOutcomeArg w h index (.known out) d =
        ⟨[], if outcome ≠ out then .error .outcomeConflict else .ok ()⟩ := by
      intro out
      have hb : outcomeBound w h index out none d = if outcome ≠ out then .error .outcomeConflict else .ok false := by
        simp only [outcomeBound, hr, hx, ho, Except.bind]
      simp only [recordOutcomeArg, recordOutcome, Prog.andThen, Prog.read, hb]
      split_ifs <;> rfl
    have hother : recordOutcomeArg w h index .other d = ⟨[], .error .outcomeConflict⟩ := by
      simp only [recordOutcomeArg, Prog.read, hr, hx, ho, Except.bind]
    refine ⟨fun arg => ?_, fun _ _ => ?_, fun arg hne => ?_⟩
    · cases arg with
      | known out => rw [hknown]
      | other => rw [hother]
    · rw [hknown]
      simp
    · cases arg with
      | known out =>
        have hout : outcome ≠ out := fun he => hne (he ▸ rfl)
        exact ⟨_, by rw [hknown, if_pos hout]⟩
      | other => exact ⟨_, by rw [hother]⟩

/-- A record_outcome that returns leaves the outcome in the journal. -/
theorem recordOutcomeArg_returned {index : Nat} {outcome : Outcome}
    (hok : (recordOutcomeArg w h index (.known outcome) d).result = .ok ()) :
    (index, outcome) ∈ settlements ((recordOutcomeArg w h index (.known outcome) d).final d).journalRows := by
  simp only [recordOutcomeArg, recordOutcome, Prog.andThen, Prog.read] at hok ⊢
  cases hb : outcomeBound w h index outcome none d with
  | error e =>
    rw [hb] at hok
    cases hok
  | ok new =>
    rw [hb] at hok
    simp only [Exec.final, List.foldl_nil, List.nil_append] at hok ⊢
    cases new with
    | true =>
      obtain ⟨rs, x, hr, -⟩ := Kept.outcomeBound_true hb
      simp only [if_true] at hok ⊢
      by_cases hd : (Body.outcome index outcome).dumpable
      · rw [append_eq hr hd, appendWrites_final]
        refine mem_settlements.mpr ⟨nextRow w rs (.outcome index outcome), ?_, rfl⟩
        exact List.mem_append_right _ (.head _)
      · obtain ⟨e, he⟩ := append_refused (w := w) (d := d) (.inr hd)
        rw [he] at hok
        cases hok
    | false =>
      -- it was there before
      simp only [Bool.false_eq_true, if_false, Prog.ret, List.foldl_nil]
      unfold outcomeBound at hb
      cases hr : rows w d with
      | error e =>
        rw [hr] at hb
        cases hb
      | ok rs =>
        rw [hr] at hb
        simp only [Except.bind] at hb
        split at hb
        · split at hb
          · rename_i ack
            cases hab : ackBound h d _ ack none <;> rw [hab] at hb <;> cases hb
          · cases hb
        · rename_i existing _ _ hn
          split_ifs at hb with he
          simp only [not_not] at he
          have hmem : existing ∈ outcomesAt rs index := by rw [hn]; exact .head _
          obtain ⟨⟨n, y⟩, hy, rfl⟩ := List.mem_map.mp hmem
          obtain ⟨hys, hyn⟩ := List.mem_filter.mp hy
          have hyi : n = index := by simpa using hyn
          rw [rows_journalRows hr]
          exact he ▸ hyi ▸ hys
        · cases hb

/-! ## The journal -/

/-- What the OUTCOME rows of a journal say is so. -/
structure Accounted (d : Disk) : Prop where
  applied : ∀ pre r post n ack, d.journalRows = pre ++ r :: post → r.body = .outcome n (.applied ack) →
    ∃ x, (n, x) ∈ deliveries pre ∧ AckOf d.db ack x
  earlier : ∀ pre r post n outcome, d.journalRows = pre ++ r :: post → r.body = .outcome n outcome →
    ∃ x, receivedAt pre n = [x]
  once : (outcomeReferences d.journalRows).Nodup

theorem Kept.accounted (hk : Kept w h d) : Accounted d where
  applied pre r post n ack hd hb := by
    have hv := hk.rows
    have hvouched := hk.vouched r (by rw [hd]; simp)
    have hd' : d.journalRows = (pre ++ [r]) ++ post := by rw [hd]; simp
    rw [hd'] at hv hvouched
    have hone := hvouched.prefixed hv (by simp)
    rw [hb] at hone
    obtain ⟨x, hx, ha⟩ := hone
    rw [deliveries_snoc, hb] at hx
    simp only [Body.asDelivery, Option.toList_none, List.append_nil] at hx
    exact ⟨x, hx, ha⟩
  earlier pre r post n outcome hd hb := by
    have hv := hk.rows
    rw [show d.journalRows = (pre ++ [r]) ++ post by rw [hd]; simp] at hv
    obtain ⟨hpre, -, href⟩ := (validRows_snoc r).mp (validRows_left hv)
    rw [hb] at href
    refine receivedAt_unique hpre ?_
    obtain ⟨⟨h1, h2⟩, -⟩ := href
    rw [receivedReferences_eq hpre, List.mem_range'_1]
    simp only [readingOf] at h2
    omega
  once := (outcomeReferences_ok hk.rows).1

/-- Whatever calls are made, each to its end or to a crash, with an observer or without. -/
theorem outcomes_accounted {c : Context} (hd : Session w h c d) : Accounted d ∧ ∀ index outcome,
    ((recordOutcomeArg w h index (.known outcome) d).result = .ok () →
      (index, outcome) ∈ settlements ((recordOutcomeArg w h index (.known outcome) d).final d).journalRows) ∧
    ((index, outcome) ∈ settlements d.journalRows → Repeated w h d index outcome) :=
  ⟨hd.kept.accounted, fun _ _ => ⟨recordOutcomeArg_returned, repeated_of_mem⟩⟩

/-- The directory after one delivery. -/
def smallDelivered : Disk :=
  (applyWith smallWire smallHashes none 11 (smallTerminal 0 "") 0 smallFresh).final smallFresh

theorem outcomes_accounted_small : outcomeReferences smallDelivered.journalRows = [1] ∧ Accounted smallDelivered :=
  ⟨by decide +kernel, (outcomes_accounted (.applied none 11 (smallTerminal 0 "") 0 (.created smallStore_created)
    (final_mem_crashes _ smallFresh))).1⟩

end BettingHelper.Delivery
