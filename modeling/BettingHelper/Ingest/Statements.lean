/-
  BettingHelper.Ingest.Statements — single statements on the tables of a sound ledger:
  what the queries find there, which inserts pass, and what tables they leave.

  - `bindGeneration_tables`, `head_tables`, `height_tables`, `rawAt_tables`: what apply reads.
  - `commitChain_tables`: the five inserts of a commit, decided by `Ledger.committable`.
  - `recordGap_tables`, `recordGap_shut`: the statements of a gap, decided by the CHECK on
    `closed_at_us` and the successor's id, or refused because the controller is shut.
-/

import BettingHelper.Ingest.Sound

namespace BettingHelper.Ingest

open BettingHelper.Store BettingHelper.Lib

@[simp] theorem ok_bind {ε α β : Type} (a : α) (f : α → Except ε β) : ((Except.ok a : Except ε α) >>= f) = f a := rfl

@[simp] theorem error_bind {ε α β : Type} (e : ε) (f : α → Except ε β) :
    ((Except.error e : Except ε α) >>= f) = .error e := rfl

@[simp] theorem map_ok {ε α β : Type} (a : α) (f : α → β) : (Except.ok a : Except ε α).map f = .ok (f a) := rfl

@[simp] theorem map_error {ε α β : Type} (e : ε) (f : α → β) : (Except.error e : Except ε α).map f = .error e := rfl

theorem guarded_pos {p : Prop} [Decidable p] (hp : p) (db : Db Int) : guarded p db = .ok db := if_pos hp

theorem guarded_neg {p : Prop} [Decidable p] (hp : ¬p) (db : Db Int) : guarded p db = .error .integrity := if_neg hp

namespace Ledger

variable {h : Hashes} {L : Ledger}

/-! ## Deferred foreign keys -/

theorem deferredOk_tables : DeferredOk (L.tables h) := by
  rcases L with ⟨c, t, es, _ | r, cs⟩
  · simp [DeferredOk, tables, generationRows, controllerRow]
  · rcases r with ⟨_ | _, hi, n, d, at'⟩ <;>
      simp [DeferredOk, tables, generationRows, controllerRow, hasGeneration, Rupture.gapRow, Rupture.bindingRow,
        Rupture.generationTransitionRow, Rupture.shockRow, Rupture.transitionRow, position]

theorem transact_tables {ε α : Type} {ofStore : StoreError → ε} {body : Db Int → Except ε (Db Int × Except ε α)}
    {db : Db Int} {L' : Ledger} {r : Except ε α} (hb : body db = .ok (L'.tables h, r)) :
    transact ofStore body db = (L'.tables h, r) := by
  rw [transact, hb]
  exact if_pos deferredOk_tables

theorem transact_error {ε α : Type} {ofStore : StoreError → ε} {body : Db Int → Except ε (Db Int × Except ε α)}
    {db : Db Int} {e : ε} (hb : body db = .error e) : transact ofStore body db = (db, .error e) := by
  rw [transact, hb]

/-! ## Reading -/

/-- The row of the active generation. -/
def activeRow (h : Hashes) (L : Ledger) : StreamGeneration Int :=
  match L.rupture with
  | none => ⟨⟨.generation, L.identity h⟩, L.position 0, none, .active, L.createdAtUs, none, none⟩
  | some r => ⟨⟨.generation, r.digest⟩, L.position 1, some 0, .active, r.atUs, none, none⟩

theorem activeRow_position : (L.activeRow h).position = L.position L.active := by
  unfold activeRow active
  split <;> rename_i e <;> simp [e]

theorem runBound_tables (o : Observation) : runBound (L.tables h) o ↔ L.bound o := by
  simp [runBound, tables, bound]

/-- The observation names the ledger's stream. -/
def streamed (L : Ledger) (o : Observation) : Prop :=
  L.stream.runId = o.discoveryRunId ∧ L.stream.browserRunId = o.browserRunId ∧ L.stream.streamId = o.streamId

theorem lookup_active {o : Observation} (hid : L.streamed o) (hg : o.generation.value = L.active) :
    lookupGeneration o (L.tables h) = [L.activeRow h] := by
  obtain ⟨h1, h2, h3⟩ := hid
  rcases L with ⟨c, t, es, _ | r, cs⟩
  · simp_all [lookupGeneration, tables, generationRows, position, active, activeRow]
  · simp_all [lookupGeneration, tables, generationRows, position, active, activeRow]

theorem lookup_closed {o : Observation} (hid : L.streamed o) (hg : o.generation.value < L.active) :
    ∃ g, lookupGeneration o (L.tables h) = [g] ∧ g.generationState ≠ .active := by
  obtain ⟨h1, h2, h3⟩ := hid
  rcases L with ⟨c, t, es, _ | r, cs⟩
  · simp [active] at hg
  · simp only [active, Option.isSome_some, if_true, Nat.lt_one_iff] at hg
    refine ⟨⟨⟨.generation, identity h ⟨c, t, es, some r, cs⟩⟩, ⟨c.stream, 0⟩, none, r.closedState, t, some r.atUs,
      some r.cause.reason⟩, ?_, ?_⟩
    · simp_all [lookupGeneration, tables, generationRows, position, stream]
    · unfold Rupture.closedState
      split <;> simp

theorem lookup_none {o : Observation} (hid : ¬L.streamed o ∨ L.active < o.generation.value) :
    lookupGeneration o (L.tables h) = [] := by
  refine List.filter_eq_nil_iff.mpr fun g hg => ?_
  have hpos : g.position.stream = L.stream ∧ g.position.generation ≤ L.active := by
    rcases L with ⟨c, t, es, _ | r, cs⟩ <;> simp only [tables, generationRows, List.mem_cons, List.not_mem_nil, or_false]
      at hg
    · subst hg; exact ⟨rfl, Nat.le_refl _⟩
    · rcases hg with rfl | rfl
      · exact ⟨rfl, Nat.zero_le _⟩
      · exact ⟨rfl, Nat.le_refl _⟩
  simp only [decide_eq_true_eq]
  rintro ⟨h1, h2, h3, h4⟩
  rw [hpos.1] at h1 h2 h3
  rcases hid with hid | hid
  · exact hid ⟨h1, h2, h3⟩
  · omega

theorem no_conflict_active (p : StreamGeneration Int) (hp : p.position = L.position L.active) :
    ¬∃ r ∈ (L.tables h).rawConflicts, r.position = p.position := by
  rintro ⟨r, hr, e⟩
  rw [hp] at e
  rcases L with ⟨c, t, es, _ | ⟨_ | _, hi, n, d, u⟩, cs⟩ <;>
    simp_all [tables, Rupture.conflictRows, position, active]

theorem bindGeneration_tables (hs : L.Sound h) {o : Observation} (hb : L.bound o) :
    bindGeneration h o (L.tables h) =
      if L.stream.browserRunId ≠ o.browserRunId ∨ L.stream.streamId ≠ o.streamId ∨ L.active < o.generation.value then
        .error .generationBinding
      else if o.generation.value < L.active then .error .generationClosed
      else .ok (L.activeRow h) := by
  unfold bindGeneration
  rw [hs.tables_valid]
  simp only [runBound_tables, hb, not_true_eq_false, if_false]
  split_ifs with hbad hcl
  · rw [lookup_none]
    simp only [streamed]
    tauto
  · have hid : L.streamed o := ⟨hb.1, by tauto⟩
    obtain ⟨g, hg, hstate⟩ := lookup_closed (h := h) hid hcl
    rw [hg]
    simp only [ne_eq, hstate, not_false_eq_true, if_true]
  · have hid : L.streamed o := ⟨hb.1, by tauto⟩
    have hg : o.generation.value = L.active := by
      simp only [not_or, not_lt] at hbad
      omega
    rw [lookup_active hid hg]
    have hstate : (L.activeRow h).generationState = .active := by unfold activeRow; split <;> rfl
    simp only [hstate, ne_eq, not_true_eq_false, if_false, no_conflict_active _ activeRow_position]

theorem lastCursor_tables (hs : L.Sound h) (p : Position) :
    Db.lastCursor (L.tables h) p = (Chain.chainOf L.log p).getLast?.map reducer := by
  unfold Db.lastCursor
  change ((L.log.map reducer).filter _).argmax _ = _
  rw [filter_rows reducer (·.position) (fun _ => rfl), Chain.argmax_ascending, List.getLast?_map]
  exact List.pairwise_map.mpr (Chain.seq_pairwise hs.linked p)

theorem head_tables (hs : L.Sound h) (p : Position) :
    ((Db.lastCursor (L.tables h) p).map (·.cursorHash)).getD h0 = Chain.head h0 L.log p := by
  rw [lastCursor_tables hs, Chain.head]
  cases (Chain.chainOf L.log p).getLast? <;> rfl

theorem height_tables (hs : L.Sound h) (p : Position) :
    ((Db.lastCursor (L.tables h) p).map (·.highestContiguousSequence)).getD 0 = Chain.height L.log p := by
  rw [lastCursor_tables hs]
  cases e : (Chain.chainOf L.log p).getLast? with
  | none => simp [Chain.height, List.getLast?_eq_none_iff.mp e]
  | some c => exact (Chain.last_link hs.linked e).1

/-- In the active generation there are no late repairs. -/
theorem not_late_active (hs : L.Sound h) {e : Entry} (he : e ∈ L.entries) (hk : e.commit.key = L.position L.active) :
    e.late = false := by
  cases hl : e.late with
  | false => rfl
  | true =>
    obtain ⟨hk0, r, hr, -⟩ := hs.repairs e he hl
    have ha : L.active = 1 := by simp [active, Option.mem_def.mp hr]
    rw [hk, ha] at hk0
    simp [position] at hk0

theorem rawAt_tables (hs : L.Sound h) (n : Nat) :
    Db.rawAt (L.tables h) (L.position L.active) n = (L.commitAt L.active n).map fun c => Entry.raw ⟨c, false⟩ := by
  have hlog {e : Entry} (he : e ∈ L.entries) (hk : e.commit.key = L.position L.active) : e.commit ∈ L.log := by
    have hl := not_late_active hs he hk
    rcases e with ⟨c, late⟩
    cases hl
    exact mem_log.mpr he
  cases hf : L.commitAt L.active n with
  | none =>
    refine List.find?_eq_none.mpr fun r hr => ?_
    obtain ⟨e, he, rfl⟩ := List.mem_map.mp hr
    simp only [decide_eq_true_eq, not_and]
    intro hk hn
    exact absurd (List.find?_eq_none.mp hf e.commit (hlog he hk)) (by simp [show e.commit.key = _ from hk, show e.commit.seq = n from hn])
  | some c =>
    have hc := List.mem_of_find?_eq_some hf
    have hp := List.find?_some hf
    simp only [decide_eq_true_eq] at hp
    refine Chain.find_unique (List.mem_map_of_mem (mem_log.mp hc)) (by simpa [Entry.raw] using hp) fun r hr hq => ?_
    obtain ⟨e, he, rfl⟩ := List.mem_map.mp hr
    simp only [decide_eq_true_eq] at hq
    have hk : e.commit.key = L.position L.active := hq.1
    have hec := Chain.link_unique hs.linked (hlog he hk) hc (hk.trans hp.1.symm) (hq.2.trans hp.2.symm)
    rcases e with ⟨d, late⟩
    cases not_late_active hs he hk
    rw [show d = c from hec]

/-! ## The five inserts of a commit -/

/-- No row of the log has `c`'s cursor or `c`'s place. -/
def Unused (l : List Commit) (c : Commit) : Prop := ∀ d ∈ l, d.cursor ≠ c.cursor ∧ ¬(d.key = c.key ∧ d.seq = c.seq)

variable {db : Db Int} {l : List Commit} {c : Commit}

theorem applicationOk_commit (hl : db.applicationRecords = l.map application) (hu : Unused l c) (hq : 1 ≤ c.seq)
    (ht : 0 ≤ c.payload.committedAtUs) (hw : Entry.raw ⟨c, false⟩ ∈ db.rawCommits) :
    ApplicationOk db (application c) := by
  refine ⟨hq, ht, ?_, _, hw, rfl, rfl, rfl, rfl, rfl, rfl⟩
  rw [hl]
  rintro _ hs
  obtain ⟨d, hd, rfl⟩ := List.mem_map.mp hs
  obtain ⟨h1, h2⟩ := hu d hd
  exact ⟨by simpa [application] using h1, by simpa [application] using h1, h2⟩

theorem revisionOk_commit (hl : db.derivedRevisions = l.map revision) (hu : Unused l c) (hq : 1 ≤ c.seq)
    (ht : 0 ≤ c.payload.committedAtUs) (hw : Entry.raw ⟨c, false⟩ ∈ db.rawCommits)
    (ha : application c ∈ db.applicationRecords) : RevisionOk db (revision c) := by
  refine ⟨hq, hq, ht, ?_, ⟨_, hw, rfl⟩, _, ha, rfl, rfl, rfl, rfl⟩
  rw [hl]
  rintro _ hs
  obtain ⟨d, hd, rfl⟩ := List.mem_map.mp hs
  obtain ⟨h1, h2⟩ := hu d hd
  exact ⟨by simpa [revision] using h1, by simpa [revision] using h1, by simpa [revision] using h1, h2, h2⟩

theorem reducerCursorOk_commit (hl : db.reducerCursors = l.map reducer) (hu : Unused l c) (hq : 1 ≤ c.seq)
    (ht : 0 ≤ c.payload.committedAtUs) (hw : Entry.raw ⟨c, false⟩ ∈ db.rawCommits)
    (hr : revision c ∈ db.derivedRevisions) : ReducerCursorOk db (reducer c) := by
  refine ⟨hq, ht, ?_, _, hr, _, hw, rfl, rfl, rfl, rfl, rfl, rfl, rfl⟩
  rw [hl]
  rintro _ hs
  obtain ⟨d, hd, rfl⟩ := List.mem_map.mp hs
  obtain ⟨h1, h2⟩ := hu d hd
  exact ⟨by simpa [reducer] using h1, by simpa [reducer] using h1, h2⟩

theorem ackOutboxOk_commit (hl : db.ackOutbox = l.map ack) (hu : Unused l c) (hq : 1 ≤ c.seq)
    (ht : 0 ≤ c.payload.committedAtUs) (hw : Entry.raw ⟨c, false⟩ ∈ db.rawCommits)
    (ha : application c ∈ db.applicationRecords) (hr : revision c ∈ db.derivedRevisions)
    (hc : reducer c ∈ db.reducerCursors) : AckOutboxOk db (ack c) := by
  refine ⟨hq, ht, ?_, ⟨_, hc, rfl, rfl, rfl⟩, _, hw, _, ha, _, hr, _, hc, rfl, rfl, rfl, rfl, rfl, rfl, rfl, rfl, rfl,
    rfl, rfl, rfl, rfl⟩
  rw [hl]
  rintro _ hs
  obtain ⟨d, hd, rfl⟩ := List.mem_map.mp hs
  obtain ⟨h1, h2⟩ := hu d hd
  refine ⟨?_, ?_, ?_, ?_, ?_, h2⟩ <;> simpa [ack] using h1

theorem maxApplied_tables (hs : L.Sound h) (p : Position) : maxApplied (L.tables h) p = Chain.height L.log p := by
  have hf : (L.tables h).rawCommits.filter (fun r => decide (r.position = p ∧ r.disposition = .applied)) =
      ((L.tables h).applied).filter (fun r => decide (r.position = p)) := by
    rw [Db.applied, List.filter_filter]
    refine List.filter_congr fun r _ => ?_
    simp
  rw [maxApplied, hf, applied_tables, filter_rows (fun c => Entry.raw ⟨c, false⟩) (·.position) fun _ => rfl,
    List.map_map]
  exact Chain.seqs_max hs.linked p

theorem activeRow_mem : L.activeRow h ∈ (L.tables h).streamGenerations := by
  rcases L with ⟨c, t, es, _ | r, cs⟩ <;> simp [tables, generationRows, activeRow, position, stream, identity]

theorem activeRow_active : (L.activeRow h).generationState = .active := by
  unfold activeRow
  split <;> rfl

/-- What `raw_commits` and its trigger ask of the next commit. -/
theorem rawCommitOk_next (hs : L.Sound h) (hk : c.key = L.position L.active)
    (hq : c.seq = Chain.height L.log c.key + 1) (hp : c.prior = Chain.head h0 L.log c.key) :
    RawCommitOk (L.tables h) (Entry.raw ⟨c, false⟩) ↔ 0 ≤ c.payload.committedAtUs ∧
      (∀ d ∈ L.log, d.cursor ≠ c.cursor) ∧
      ∀ e ∈ L.entries, e.commit.payload.rawObservationId ≠ c.payload.rawObservationId := by
  constructor
  · rintro ⟨-, ht, hu, -⟩
    refine ⟨ht, fun d hd => ?_, fun e he => ?_⟩
    · have := (hu _ (List.mem_map_of_mem (mem_log.mp hd))).1
      simpa [Entry.raw] using this
    · exact (hu _ (List.mem_map_of_mem he)).2.1
  · rintro ⟨ht, hx, ho⟩
    have hpos : L.activeRow h ∈ (L.tables h).streamGenerations ∧ (L.activeRow h).position = c.key :=
      ⟨activeRow_mem, activeRow_position.trans hk.symm⟩
    refine ⟨by simp [Entry.raw, hq], ht, ?_, ⟨_, hpos⟩, fun _ => ⟨⟨_, hpos.1, hpos.2, activeRow_active⟩, ?_, ?_, ?_⟩,
      fun hlate => by simp [Entry.raw] at hlate⟩
    · intro s hs'
      obtain ⟨e, he, rfl⟩ := List.mem_map.mp hs'
      refine ⟨?_, ho e he, ?_⟩
      · rcases e with ⟨d, _ | _⟩
        · simpa [Entry.raw] using hx d (mem_log.mpr he)
        · simp [Entry.raw]
      · rintro ⟨hk', hq'⟩
        have hkey : e.commit.key = L.position L.active := Eq.trans hk' hk
        have hlate := not_late_active hs he hkey
        rcases e with ⟨d, late⟩
        cases hlate
        have hb := (Chain.seq_bounds hs.linked (mem_log.mpr he)).2
        have hk'' : d.key = c.key := hk'
        have hq'' : d.seq = c.seq := hq'
        rw [hk''] at hb
        omega
    · change c.seq = maxApplied (L.tables h) c.key + 1
      rw [maxApplied_tables hs, hq]
    · intro h1
      have h0' : Chain.height L.log c.key = 0 := by
        have : c.seq = 1 := h1
        omega
      exact hp.trans (Chain.head_of_height_zero h0')
    · intro h1
      -- the commit before it is the last link of its key
      have h1 : 1 < c.seq := h1
      obtain ⟨d, hd⟩ : ∃ d, (Chain.chainOf L.log c.key).getLast? = some d := by
        have hne : Chain.chainOf L.log c.key ≠ [] := by
          intro he
          have : Chain.height L.log c.key = 0 := by simp [Chain.height, he]
          omega
        exact ⟨_, List.getLast?_eq_some_getLast hne⟩
      obtain ⟨hdq, hdx⟩ := Chain.last_link hs.linked hd
      have hm := List.mem_filter.mp (List.mem_of_getLast? hd)
      refine ⟨reducer d, List.mem_map_of_mem hm.1, by simpa [reducer, Entry.raw] using hm.2, ?_, ?_⟩
      · change d.seq = c.seq - 1
        omega
      · exact hdx.trans hp.symm

theorem log_append_applied (c : Commit) : (L.append c false).log = L.log ++ [c] := by simp [append, log]

theorem log_append_late (c : Commit) : (L.append c true).log = L.log := by simp [append, log]

theorem tables_append_applied (c : Commit) :
    (L.append c false).tables h = { L.tables h with
      rawCommits := (L.tables h).rawCommits ++ [Entry.raw ⟨c, false⟩]
      applicationRecords := (L.tables h).applicationRecords ++ [application c]
      derivedRevisions := (L.tables h).derivedRevisions ++ [revision c]
      reducerCursors := (L.tables h).reducerCursors ++ [reducer c]
      ackOutbox := (L.tables h).ackOutbox ++ [ack c] } := by
  simp only [tables, log_append_applied, List.map_append, List.map_cons, List.map_nil]
  simp only [append, List.map_append, List.map_cons, List.map_nil]
  rfl

/-- The five rows, in the code's order, after the first of them went in. -/
theorem commitChain_rest (hu : Unused L.log c) (hq : 1 ≤ c.seq) (ht : 0 ≤ c.payload.committedAtUs) :
    insertApplication (application c)
        { L.tables h with rawCommits := (L.tables h).rawCommits ++ [Entry.raw ⟨c, false⟩] }
      >>= insertRevision (revision c) >>= insertReducerCursor (reducer c) >>= insertAckOutbox (ack c) =
    .ok ((L.append c false).tables h) := by
  have hw : ∀ r : List (RawCommit Int), Entry.raw ⟨c, false⟩ ∈ r ++ [Entry.raw ⟨c, false⟩] := fun _ => by simp
  rw [insertApplication, guarded_pos (applicationOk_commit rfl hu hq ht (hw _)), ok_bind, insertRevision,
    guarded_pos (revisionOk_commit rfl hu hq ht (hw _) (by simp)), ok_bind, insertReducerCursor,
    guarded_pos (reducerCursorOk_commit rfl hu hq ht (hw _) (by simp)), ok_bind, insertAckOutbox,
    guarded_pos (ackOutboxOk_commit rfl hu hq ht (hw _) (by simp) (by simp) (by simp)), tables_append_applied]

/-- `None if previous is None else prior_hash`: the first revision of a chain names none. -/
theorem previous_revision (hs : L.Sound h) {p : Position} {n : Nat} (hq : n = Chain.height L.log p + 1) :
    (Db.lastCursor (L.tables h) p).map (fun _ => Chain.head h0 L.log p) =
      if n = 1 then none else some (Chain.head h0 L.log p) := by
  rw [lastCursor_tables hs, hq]
  cases e : (Chain.chainOf L.log p).getLast? with
  | none => simp [Chain.height, List.getLast?_eq_none_iff.mp e]
  | some d =>
    have hpos : 0 < Chain.height L.log p := List.length_pos_of_mem (List.mem_of_getLast? e)
    rw [if_neg (by omega)]
    rfl

theorem nextCommit_unused (hs : L.Sound h) {now : Int} {o : Observation}
    (hq : o.sequence.value = Chain.height L.log (L.position L.active) + 1)
    (hx : ∀ d ∈ L.log, d.cursor ≠ (L.nextCommit h now o).cursor) : Unused L.log (L.nextCommit h now o) := by
  refine fun d hd => ⟨hx d hd, ?_⟩
  rintro ⟨hk, hn⟩
  have hb := (Chain.seq_bounds hs.linked hd).2
  have hk : d.key = L.position L.active := hk
  have hn : d.seq = o.sequence.value := hn
  rw [hk] at hb
  omega

theorem commitChain_tables (hs : L.Sound h) {now : Int} {o : Observation}
    (hq : o.sequence.value = Chain.height L.log (L.position L.active) + 1) :
    commitChain h (L.position L.active) o (Db.lastCursor (L.tables h) (L.position L.active)) now (L.tables h) =
      if L.committable h now o then .ok ((L.append (L.nextCommit h now o) false).tables h) else .error .integrity := by
  have hraw := rawCommitOk_next (c := L.nextCommit h now o) hs rfl hq rfl
  have hrows : commitChain h (L.position L.active) o (Db.lastCursor (L.tables h) (L.position L.active)) now (L.tables h) =
      insertRawCommit (Entry.raw ⟨L.nextCommit h now o, false⟩) (L.tables h)
        >>= insertApplication (application (L.nextCommit h now o)) >>= insertRevision (revision (L.nextCommit h now o))
        >>= insertReducerCursor (reducer (L.nextCommit h now o)) >>= insertAckOutbox (ack (L.nextCommit h now o)) := by
    simp only [commitChain, head_tables hs, previous_revision hs hq]
    rfl
  rw [hrows]
  split_ifs with hc
  · rw [insertRawCommit, guarded_pos (hraw.mpr hc), ok_bind]
    exact commitChain_rest (nextCommit_unused hs hq hc.2.1) o.sequencePos hc.1
  · rw [insertRawCommit, guarded_neg (mt hraw.mp hc)]
    rfl

/-! ## The statements of a gap

They take the tables of the unbroken ledger to those of the ruptured one in three
stages: up to the binding, the close, the successor. -/

variable {r : Rupture}

/-- The numbers `_gap` is called with. -/
def ordered (r : Rupture) : Prop :=
  match r.cause with
  | .missing => r.highest + 1 < r.sequence
  | .conflict _ _ => 1 ≤ r.sequence

/-- The ruptured tables, before generation 0 is closed. -/
def shocked (h : Hashes) (L : Ledger) (r : Rupture) : Db Int :=
  { tables h { L with rupture := some r } with streamGenerations := L.generationRows h, generationTransitions := [] }

def closedRow (h : Hashes) (L : Ledger) (r : Rupture) : StreamGeneration Int :=
  ⟨⟨.generation, L.identity h⟩, L.position 0, none, r.closedState, L.createdAtUs, some r.atUs, some r.cause.reason⟩

/-- The ruptured tables, before generation 1 is opened. -/
def closedOff (h : Hashes) (L : Ledger) (r : Rupture) : Db Int :=
  { tables h { L with rupture := some r } with streamGenerations := [L.closedRow h r], generationTransitions := [] }

theorem shock_statements (hr : L.rupture = none) (hp : ordered r) :
    (insertGapRecord (r.gapRow L.stream) { L.tables h with rawConflicts := r.conflictRows L.stream }
      >>= insertShock (r.shockRow L.stream) >>= insertTransition (r.transitionRow (L.identity h))
      >>= shockController ⟨.shock, r.digest⟩ r.atUs ⟨.controller, L.identity h⟩
      >>= insertBinding (r.bindingRow (L.identity h))) =
    if 0 ≤ r.atUs then .ok (shocked h L r) else .error .integrity := by
  rcases L with ⟨ctx, t, es, _ | _, cs⟩
  · by_cases hu : 0 ≤ r.atUs
    · rcases r with ⟨_ | ⟨x, y⟩, hi, n, d, u⟩
      · have e1 : n - 1 < n := by have : hi + 1 < n := hp; omega
        have e2 : hi + 1 ≤ n - 1 := by have : hi + 1 < n := hp; omega
        simp_all [insertGapRecord, GapRecordOk, insertShock, ShockOk, insertTransition, TransitionOk, shockController,
          ControllerShockOk, insertBinding, BindingOk, guarded, shocked, tables, Rupture.gapRow, Rupture.shockRow,
          Rupture.transitionRow, Rupture.bindingRow, controllerRow, generationRows, identity, stream, log]
      · have e1 : n - 1 < n := by have : 1 ≤ n := hp; omega
        have e2 : 1 ≤ n := hp
        simp_all [insertGapRecord, GapRecordOk, insertShock, ShockOk, insertTransition, TransitionOk, shockController,
          ControllerShockOk, insertBinding, BindingOk, guarded, shocked, tables, Rupture.gapRow, Rupture.shockRow,
          Rupture.transitionRow, Rupture.bindingRow, controllerRow, generationRows, identity, stream, log]
    · rw [if_neg hu, insertGapRecord, guarded_neg]
      · rfl
      · rintro ⟨-, -, -, -, -, ht, -⟩
        rcases r with ⟨_ | ⟨x, y⟩, hi, n, d, u⟩ <;> exact hu ht
  · cases hr

/-- The CHECK that a generation is not closed before it was opened decides. -/
theorem close_statement (hr : L.rupture = none) (hc : 0 ≤ L.createdAtUs) :
    closeGeneration r.closedState r.atUs r.cause.reason ⟨.generation, L.identity h⟩ (shocked h L r) =
      if L.createdAtUs ≤ r.atUs then .ok (closedOff h L r) else .error .integrity := by
  rcases L with ⟨ctx, t, es, _ | _, cs⟩
  · rcases r with ⟨_ | ⟨x, y⟩, hi, n, d, u⟩ <;>
      simp_all [closeGeneration, GenerationUpdateOk, GenerationRowOk, GapCloseGuard, guarded, shocked, closedOff,
        closedRow, tables, generationRows, Rupture.closedState, Cause.reason, Rupture.gapRow, Rupture.bindingRow,
        Rupture.transitionRow, controllerRow, position, identity, stream]
  · cases hr

/-- The successor's id must be new. -/
theorem successor_statements (hr : L.rupture = none) (hu : 0 ≤ r.atUs) :
    (insertGenerationTransition (r.generationTransitionRow L.stream) (closedOff h L r)
      >>= insertGeneration ⟨⟨.generation, r.digest⟩, L.position 1, some 0, .active, r.atUs, none, none⟩) =
    if r.digest ≠ L.identity h then .ok (tables h { L with rupture := some r }) else .error .integrity := by
  rcases L with ⟨ctx, t, es, _ | _, cs⟩
  · by_cases hd : r.digest = ctx.identity h
    · rcases r with ⟨_ | ⟨x, y⟩, hi, n, d, u⟩ <;>
        simp_all [insertGenerationTransition, GenerationTransitionOk, insertGeneration, GenerationOk, guarded, closedOff,
          closedRow, tables, Rupture.generationTransitionRow, Rupture.gapRow, identity]
    · rcases r with ⟨_ | ⟨x, y⟩, hi, n, d, u⟩ <;>
        simp_all [insertGenerationTransition, GenerationTransitionOk, insertGeneration, GenerationOk, GenerationRowOk,
          SuccessorGuard, guarded, closedOff, closedRow, tables, generationRows, Rupture.generationTransitionRow,
          Rupture.gapRow, Rupture.bindingRow, Rupture.transitionRow, Rupture.closedState, controllerRow, position,
          identity, stream, Ne.symm hd]
  · cases hr

theorem gapRows_tables (hr : L.rupture = none) (hc : 0 ≤ L.createdAtUs) (hp : ordered r) :
    gapRows (L.activeRow h) (L.controllerRow h) r.highest r.sequence r.digest r.atUs r.cause.reason
        { L.tables h with rawConflicts := r.conflictRows L.stream } =
      if L.createdAtUs ≤ r.atUs ∧ r.digest ≠ L.identity h then .ok (tables h { L with rupture := some r })
      else .error .integrity := by
  have hrows : gapRows (L.activeRow h) (L.controllerRow h) r.highest r.sequence r.digest r.atUs r.cause.reason
        { L.tables h with rawConflicts := r.conflictRows L.stream } =
      ((insertGapRecord (r.gapRow L.stream) { L.tables h with rawConflicts := r.conflictRows L.stream }
        >>= insertShock (r.shockRow L.stream) >>= insertTransition (r.transitionRow (L.identity h))
        >>= shockController ⟨.shock, r.digest⟩ r.atUs ⟨.controller, L.identity h⟩
        >>= insertBinding (r.bindingRow (L.identity h)))
        >>= closeGeneration r.closedState r.atUs r.cause.reason ⟨.generation, L.identity h⟩)
        >>= insertGenerationTransition (r.generationTransitionRow L.stream)
        >>= insertGeneration ⟨⟨.generation, r.digest⟩, L.position 1, some 0, .active, r.atUs, none, none⟩ := by
    rcases L with ⟨ctx, t, es, _ | _, cs⟩
    · rcases r with ⟨_ | ⟨x, y⟩, hi, n, d, u⟩ <;> rfl
    · cases hr
  rw [hrows, shock_statements hr hp]
  by_cases hu : 0 ≤ r.atUs
  · rw [if_pos hu, ok_bind, close_statement hr hc]
    by_cases ht : L.createdAtUs ≤ r.atUs
    · rw [if_pos ht, ok_bind, successor_statements hr hu]
      simp only [ht, true_and]
    · rw [if_neg ht, if_neg fun hn => ht hn.1]
      rfl
  · rw [if_neg hu, if_neg fun hn => hu (le_trans hc hn.1)]
    rfl

theorem recordGap_tables (hr : L.rupture = none) (hc : 0 ≤ L.createdAtUs) (hp : ordered r) :
    recordGap (L.activeRow h) r.highest r.sequence r.digest r.atUs r.cause.reason
        { L.tables h with rawConflicts := r.conflictRows L.stream } =
      if L.createdAtUs ≤ r.atUs ∧ r.digest ≠ L.identity h then .ok (tables h { L with rupture := some r })
      else .error (.store .integrity) := by
  have hctl : (L.controllerRow h).controllerState = .opened := by simp [controllerRow, hr]
  have hone : (L.tables h).coherenceControllers.filter (·.runId = (L.activeRow h).position.stream.runId) =
      [L.controllerRow h] := by simp [tables, controllerRow, activeRow, hr, position]
  unfold recordGap
  rw [hone]
  simp only [hctl, true_or, if_true]
  rw [gapRows_tables hr hc hp]
  split_ifs <;> rfl

/-- Once ruptured, the coherence controller stays shut. -/
theorem recordGap_shut {db : Db Int} {n m : Nat} {d : Digest} {u : Int} {g : GapReason} (hr : L.rupture = some r)
    (hdb : db.coherenceControllers = (L.tables h).coherenceControllers) :
    recordGap (L.activeRow h) n m d u g db = .error .gapCoherenceBinding := by
  have hctl : (L.controllerRow h).controllerState = .shockedClosed := by simp [controllerRow, hr]
  have hone : db.coherenceControllers.filter (·.runId = (L.activeRow h).position.stream.runId) =
      [L.controllerRow h] := by rw [hdb]; simp [tables, controllerRow, activeRow, hr, position]
  unfold recordGap
  rw [hone]
  simp [hctl]

end Ledger

end BettingHelper.Ingest
