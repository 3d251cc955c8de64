/-
  BettingHelper.Ingest.Refinement — the store's operations are the ledger's.

  `apply_tables`, `confirmAck_tables`, `storeLateRepair_tables`: on the tables of a sound
  ledger, an operation of the Ingestor gives the tables of the ledger the same operation
  gives, and the same result. `createOfflineRun_ok`: a store just created is the fresh
  ledger's.
-/

import BettingHelper.Ingest.Statements

namespace BettingHelper.Ingest

open BettingHelper.Store BettingHelper.Lib

namespace Ledger

variable {h : Hashes} {L : Ledger}

/-! ## apply -/

/-- The outcome of a transaction's body, on a ledger's tables, is the ledger's. -/
def Emulates {α : Type} (h : Hashes) (L : Ledger) (result : Except IngestError (Db Int × Except IngestError α))
    (after : Ledger × Except IngestError α) : Prop :=
  result = .ok (after.1.tables h, after.2) ∨ ∃ e, result = .error e ∧ after = (L, .error e)

theorem Emulates.transact {α : Type} {body : Db Int → Except IngestError (Db Int × Except IngestError α)}
    {after : Ledger × Except IngestError α} (he : Emulates h L (body (L.tables h)) after) :
    transact .store body (L.tables h) = (after.1.tables h, after.2) := by
  rcases he with hr | ⟨e, hr, rfl⟩
  · exact transact_tables hr
  · exact transact_error hr

theorem commitAt_some {n : Nat} {c : Commit} {g : Nat} (hf : L.commitAt g n = some c) :
    c ∈ L.log ∧ c.key = L.position g ∧ c.seq = n := by
  have hp := List.find?_some hf
  simp only [decide_eq_true_eq] at hp
  exact ⟨List.mem_of_find?_eq_some hf, hp⟩

/-- No commit at a number in reach means the number is past the height. -/
theorem commitAt_none (hs : L.Sound h) {n g : Nat} (hn : 1 ≤ n) (hf : L.commitAt g n = none) :
    Chain.height L.log (L.position g) < n := by
  by_contra hle
  obtain ⟨c, hc, hk, hq⟩ := Chain.link_exists hs.linked hn (Nat.not_lt.mp hle)
  exact absurd (List.find?_eq_none.mp hf c hc) (by simp [hk, hq])

theorem ackAt_commit (hs : L.Sound h) {c : Commit} (hc : c ∈ L.log) :
    (L.tables h).ackAt c.key c.seq = some (ack c) := by
  rw [ackAt_tables, Chain.find_link hs.linked hc]
  rfl

/-- The acknowledgement just inserted is the one found by its id. -/
theorem find_ack_new {l : List Commit} {c : Commit} (hx : ∀ d ∈ l, d.cursor ≠ c.cursor) :
    ((l ++ [c]).map ack).find? (fun r => r.ackOutboxId = ⟨.ack, c.cursor⟩) = some (ack c) := by
  refine Chain.find_unique (List.mem_map_of_mem (by simp)) (by simp [ack]) fun r hr hp => ?_
  obtain ⟨d, hd, rfl⟩ := List.mem_map.mp hr
  simp only [ack, RowId.mk.injEq, true_and, decide_eq_true_eq] at hp
  rcases List.mem_append.mp hd with hd | hd
  · exact absurd hp (hx d hd)
  · rw [List.mem_singleton.mp hd]

/-- A gap, or the late half of a conflict. -/
theorem emulates_breakOff (hs : L.Sound h) {now : Int} (cause : Cause) {o : Observation} {code : IngestError}
    {db : Db Int} (hctl : db.coherenceControllers = (L.tables h).coherenceControllers)
    {r : Rupture} (hr : r = ⟨cause, Chain.height L.log (L.position 0), o.sequence.value, o.contentHash.value, now⟩)
    (hdb : L.rupture = none → db = { L.tables h with rawConflicts := r.conflictRows L.stream })
    (hp : L.rupture = none → ordered r) :
    Emulates h L ((recordGap (L.activeRow h) (Chain.height L.log (L.position L.active)) o.sequence.value
      o.contentHash.value now cause.reason db).map (·, .error code)) (L.breakOff h now cause o code) := by
  subst hr
  cases hr : L.rupture with
  | some r =>
    rw [recordGap_shut hr hctl]
    exact .inr ⟨_, rfl, by simp [breakOff, hr]⟩
  | none =>
    have ha : L.active = 0 := by simp [active, hr]
    have hgap := recordGap_tables (h := h) hr hs.created (hp hr)
    simp only at hgap
    rw [hdb hr, ha, hgap]
    unfold breakOff
    rw [hr]
    simp only
    split_ifs with hc
    · exact .inl rfl
    · exact .inr ⟨_, rfl, rfl⟩

theorem emulates_commit (hs : L.Sound h) {now : Int} {o : Observation} {previous : Option (ReducerCursor Int)}
    (hprev : previous = Db.lastCursor (L.tables h) (L.position L.active))
    (hq : o.sequence.value = Chain.height L.log (L.position L.active) + 1) :
    Emulates h L
      (match commitChain h (L.position L.active) o previous now (L.tables h) with
        | .error e => .error (.store e)
        | .ok db' =>
          match db'.ackOutbox.find? fun r => r.ackOutboxId = ⟨.ack, h.cursorStep ⟨L.position L.active,
              o.sequence.value, o.contentHash.value, (previous.map (·.cursorHash)).getD h0⟩⟩ with
          | none => .error .incompleteDurableChain
          | some row => .ok (db', .ok row)) (L.commit h now o) := by
  subst hprev
  have hx : h.cursorStep ⟨L.position L.active, o.sequence.value, o.contentHash.value,
      Chain.head h0 L.log (L.position L.active)⟩ = (L.nextCommit h now o).cursor := rfl
  rw [commitChain_tables hs hq, head_tables hs, hx]
  by_cases hc : L.committable h now o
  · have hfind : ((L.append (L.nextCommit h now o) false).tables h).ackOutbox.find? (fun r => r.ackOutboxId =
        ⟨.ack, (L.nextCommit h now o).cursor⟩) = some (ack (L.nextCommit h now o)) := by
      rw [tables_append_applied]
      simpa [tables] using find_ack_new hc.2.1
    rw [commit, if_pos hc, if_pos hc]
    refine .inl ?_
    simp only [hfind]
  · rw [commit, if_neg hc, if_neg hc]
    exact .inr ⟨_, rfl, rfl⟩

/-- A conflicting observation: its row in raw_conflicts, then the gap. -/
theorem emulates_conflict (hs : L.Sound h) {now : Int} {o : Observation} {c : Commit} (hc : c ∈ L.log)
    (hk : c.key = L.position L.active) (hq : c.seq = o.sequence.value) :
    Emulates h L
      (match insertRawConflict ⟨⟨.conflict, o.contentHash.value⟩, ⟨.raw, c.cursor⟩, L.position L.active,
          o.sequence.value, o.rawObservationId, o.contentHash.value, now⟩ (L.tables h) with
        | .error e => .error (.store e)
        | .ok db' => (recordGap (L.activeRow h) (Chain.height L.log (L.position L.active)) o.sequence.value
            o.contentHash.value now .conflictingDuplicate db').map (·, .error .conflict))
      (if L.conflictRecordable now o then L.breakOff h now (.conflict c.cursor o.rawObservationId) o .conflict
        else (L, .error (.store .integrity))) := by
  have hok : RawConflictOk (L.tables h) ⟨⟨.conflict, o.contentHash.value⟩, ⟨.raw, c.cursor⟩, L.position L.active,
      o.sequence.value, o.rawObservationId, o.contentHash.value, now⟩ ↔ L.conflictRecordable now o := by
    constructor
    · rintro ⟨-, ht, hu, -⟩
      refine ⟨ht, fun r hr row hrow => ?_⟩
      have := hu row (List.mem_flatMap.mpr ⟨r, by simpa using hr, hrow⟩)
      exact ⟨this.1, this.2.1⟩
    · rintro ⟨ht, hu⟩
      refine ⟨o.sequencePos, ht, fun row hrow => ?_, _, List.mem_map_of_mem (mem_log.mp hc), rfl, hk, hq⟩
      obtain ⟨r, hr, hrow'⟩ := List.mem_flatMap.mp hrow
      obtain ⟨h1, h2⟩ := hu r (by simpa using hr) row hrow'
      refine ⟨h1, h2, fun hp => h1 ?_⟩
      -- the earlier conflict has the digest for id
      rcases r with ⟨_ | ⟨x, y⟩, hi, n, d, u⟩
      · simp [Rupture.conflictRows] at hrow'
      · simp only [Rupture.conflictRows, List.mem_singleton] at hrow'
        subst hrow'
        exact congrArg (RowId.mk .conflict) hp.2.2
  by_cases hrec : L.conflictRecordable now o
  · rw [if_pos hrec, insertRawConflict, guarded_pos (hok.mpr hrec)]
    refine emulates_breakOff hs (.conflict c.cursor o.rawObservationId) rfl rfl ?_ fun _ => o.sequencePos
    intro hr
    have ha : L.active = 0 := by simp [active, hr]
    rw [ha]
    simp [tables, hr, Rupture.conflictRows, position]
  · rw [if_neg hrec, insertRawConflict, guarded_neg (mt hok.mp hrec)]
    exact .inr ⟨_, rfl, rfl⟩

theorem emulates_advance (hs : L.Sound h) {now : Int} {o : Observation}
    (hb : bindGeneration h o (L.tables h) = .ok (L.activeRow h)) :
    Emulates h L (applyBody h now o (L.tables h)) (L.advance h now o) := by
  unfold applyBody advance
  rw [hb]
  simp only [activeRow_position, height_tables hs, rawAt_tables hs]
  cases hf : L.commitAt L.active o.sequence.value with
  | some c =>
    obtain ⟨hc, hk, hq⟩ := commitAt_some hf
    have hack := ackAt_commit hs hc
    rw [hk, hq] at hack
    simp only [Option.map_some, hack]
    by_cases he : c.payload.contentHash = o.contentHash.value
    · have he' : (Entry.raw ⟨c, false⟩).rawObservationContentHash = o.contentHash.value := he
      simp only [he, he', if_true]
      exact .inl rfl
    · have he' : ¬(Entry.raw ⟨c, false⟩).rawObservationContentHash = o.contentHash.value := he
      simp only [he, he', if_false]
      exact emulates_conflict hs hc hk hq
  | none =>
    have hlt := commitAt_none hs o.sequencePos hf
    simp only [Option.map_none]
    by_cases hq : o.sequence.value = Chain.height L.log (L.position L.active) + 1
    · rw [if_pos hq, if_pos hq]
      exact emulates_commit hs rfl hq
    · simp only [hq, if_false, Nat.not_le.mpr hlt]
      refine emulates_breakOff hs .missing rfl rfl ?_ fun hr => ?_
      · intro hr
        simp [tables, hr, Rupture.conflictRows]
      · have ha : L.active = 0 := by simp [active, hr]
        rw [ha] at hlt hq
        change Chain.height L.log (L.position 0) + 1 < o.sequence.value
        omega

theorem bindGeneration_unbound (hs : L.Sound h) {o : Observation} (hb : ¬L.bound o) :
    bindGeneration h o (L.tables h) = .error .runBinding := by
  unfold bindGeneration
  rw [hs.tables_valid]
  simp only [runBound_tables, hb, not_false_eq_true, if_true]

/-- `Ingestor.apply` on a sound ledger's tables is the ledger's apply. -/
theorem apply_tables (hs : L.Sound h) (now : Int) (o : Observation) :
    Ingest.apply h now o (L.tables h) = ((L.apply h now o).1.tables h, (L.apply h now o).2) := by
  unfold Ingest.apply apply
  cases admissible h o with
  | error e => rfl
  | ok _ =>
    refine Emulates.transact ?_
    simp only
    by_cases hb : L.bound o
    · have hbind := bindGeneration_tables hs hb
      rw [if_neg (not_not.mpr hb)]
      split_ifs at hbind ⊢ with hbad hcl
      · exact .inr ⟨_, by rw [applyBody, hbind], rfl⟩
      · exact .inr ⟨_, by rw [applyBody, hbind], rfl⟩
      · exact emulates_advance hs hbind
    · rw [if_pos hb]
      exact .inr ⟨_, by rw [applyBody, bindGeneration_unbound hs hb], rfl⟩

/-! ## confirm_ack -/

theorem lastConfirmed_tables (hs : L.Sound h) (p : Position) :
    lastConfirmed (L.tables h) p = (L.lastConfirmation p).map (·.row) := by
  unfold lastConfirmed
  have hf : (L.tables h).ackCursors.filter (fun r => decide (r.position = p ∧ r.owner = .backend)) =
      (confirmedAt L.confirmations p).map (·.row) := by
    have := filter_confirmations L.confirmations p .backend
    rw [if_pos rfl] at this
    rw [← this]
    refine List.filter_congr fun r _ => ?_
    simp
  rw [hf, Chain.argmax_ascending, List.getLast?_map]
  · rfl
  · exact List.pairwise_map.mpr (Confirmed.pairwise hs.confirmed p)

/-- A dictionary is the durable acknowledgement of its id exactly when it is one of the log's. -/
theorem find_ack (hs : L.Sound h) (a : AckOutbox Int) :
    (L.tables h).ackOutbox.find? (fun r => r.ackOutboxId = a.ackOutboxId) = some a ↔ a ∈ L.log.map ack := by
  constructor
  · intro hf
    exact List.mem_of_find?_eq_some hf
  · intro ha
    obtain ⟨c, hc, rfl⟩ := List.mem_map.mp ha
    refine Chain.find_unique (List.mem_map_of_mem hc) (by simp) fun r hr hp => ?_
    obtain ⟨d, hd, rfl⟩ := List.mem_map.mp hr
    simp only [ack, RowId.mk.injEq, true_and, decide_eq_true_eq] at hp
    rw [List.inj_on_of_nodup_map hs.cursors hd hc hp]

theorem Confirmed.mem {log : List Commit} {l : List Confirmation} (hl : Confirmed log l) {a : Confirmation} (ha : a ∈ l) :
    ∃ c ∈ log, c.key = a.position ∧ c.seq = a.sequence ∧ c.cursor = a.cursor := by
  induction hl with
  | nil => cases ha
  | snoc _ hc _ _ ih =>
    rcases List.mem_append.mp ha with ha | ha
    · exact ih ha
    · rw [List.mem_singleton.mp ha]
      exact hc

/-- The position's confirmations are at most its last one. -/
theorem le_lastOf {log : List Commit} {l : List Confirmation} (hl : Confirmed log l) {a z : Confirmation} (ha : a ∈ l)
    (hz : lastOf l a.position = some z) : a.sequence ≤ z.sequence := by
  have hp := Confirmed.pairwise hl a.position
  obtain ⟨m, hm⟩ := List.getLast?_eq_some_iff.mp hz
  have ha' : a ∈ confirmedAt l a.position := by simpa [confirmedAt] using ha
  rw [hm, List.pairwise_append] at hp
  rw [hm, List.mem_append, List.mem_singleton] at ha'
  rcases ha' with ha' | rfl
  · exact Nat.le_of_lt (hp.2.2 a ha' z (by simp))
  · exact Nat.le_refl _

/-- What `ack_cursors` and its trigger ask of a confirmation past the last one. -/
theorem ackCursorOk_next (hs : L.Sound h) {c : Commit} (hc : c ∈ L.log) {now : Int}
    (hlt : ∀ p ∈ L.lastConfirmation c.key, p.sequence < c.seq) :
    AckCursorOk (L.tables h) (L.nextConfirmation now (ack c)).row ↔ 0 ≤ now := by
  change AckCursorOk (L.tables h) (Confirmation.row ⟨c.key, c.seq, c.cursor,
    (L.lastConfirmation c.key).map (·.cursor), now⟩) ↔ 0 ≤ now
  have hpast : ∀ a ∈ L.confirmations, a.position = c.key → a.sequence < c.seq := by
    intro a ha e
    obtain ⟨z, hz⟩ : ∃ z, lastOf L.confirmations a.position = some z := by
      have : confirmedAt L.confirmations a.position ≠ [] :=
        List.ne_nil_of_mem (List.mem_filter.mpr ⟨ha, by simp⟩)
      exact ⟨_, List.getLast?_eq_some_getLast this⟩
    have h1 := le_lastOf hs.confirmed ha hz
    rw [e] at hz
    have h2 := hlt z hz
    omega
  have hnew : ∀ a ∈ L.confirmations, a.cursor ≠ c.cursor := by
    intro a ha e
    obtain ⟨d, hd, hdk, hdq, hdx⟩ := Confirmed.mem hs.confirmed ha
    have hdc := List.inj_on_of_nodup_map hs.cursors hd hc (hdx.trans e)
    subst hdc
    have := hpast a ha hdk.symm
    omega
  have hq := (Chain.seq_bounds hs.linked hc).1
  constructor
  · intro hok
    exact hok.1
  · intro ht
    refine ⟨ht, ?_, ?_, ?_, ?_, ?_, ?_, ?_, ?_⟩
    · intro s hs'
      obtain ⟨a, ha, rfl⟩ := List.mem_map.mp hs'
      refine ⟨by simpa [Confirmation.row] using hnew a ha, fun hp => ?_⟩
      have h1 := hpast a ha hp.1
      have h2 : a.sequence = c.seq := hp.2.2
      omega
    · intro i hi
      simp only [Confirmation.row, Option.map_map, Option.mem_def, Option.map_eq_some_iff] at hi
      obtain ⟨z, hz, rfl⟩ := hi
      have hm := (List.mem_filter.mp (List.mem_of_getLast? hz)).1
      exact ⟨_, List.mem_map_of_mem hm, rfl⟩
    · rcases hs.keys c hc with hk | ⟨hr, hk⟩
      · rcases L with ⟨ctx, t, es, _ | r, cs⟩ <;>
          simp [tables, generationRows, Confirmation.row, hk, position]
      · rcases L with ⟨ctx, t, es, _ | r, cs⟩
        · simp at hr
        · simp [tables, generationRows, Confirmation.row, hk, position]
    · simp [Confirmation.row]
    · intro h0'
      have : c.seq = 0 := h0'
      omega
    · intro _
      exact ⟨_, List.mem_map_of_mem hc, _, List.mem_map_of_mem hc, _, List.mem_map_of_mem (mem_log.mp hc), rfl, rfl, rfl,
        rfl, rfl, rfl, rfl, rfl, rfl⟩
    · intro p hp hpos _
      obtain ⟨a, ha, rfl⟩ := List.mem_map.mp hp
      exact hpast a ha hpos
    · intro i hi
      have hl := lastConfirmed_tables hs c.key
      unfold lastConfirmed at hl
      change some i = Option.map _ (((L.tables h).ackCursors.filter fun p => p.position = c.key ∧ p.owner = .backend).argmax
        (·.highestContiguousSequence))
      rw [hl]
      simp only [Confirmation.row, Option.map_map] at hi ⊢
      rw [← hi]
      rfl

theorem emulates_confirm (hs : L.Sound h) {c : Commit} (hc : c ∈ L.log) {now : Int}
    (hlt : ∀ p ∈ L.lastConfirmation c.key, p.sequence < c.seq) :
    Emulates h L ((ofStore (insertAckCursor (L.nextConfirmation now (ack c)).row (L.tables h))).map
      (·, .ok (L.nextConfirmation now (ack c)).row)) (L.confirm now (ack c)) := by
  have hok : _ ↔ 0 ≤ now := ackCursorOk_next hs hc hlt
  by_cases ht : 0 ≤ now
  · rw [insertAckCursor, guarded_pos (hok.mpr ht), confirm, if_pos ht]
    refine .inl ?_
    simp [ofStore, tables, log, generationRows, controllerRow, identity, stream, position]
  · rw [insertAckCursor, guarded_neg (mt hok.mp ht), confirm, if_neg ht]
    exact .inr ⟨_, rfl, rfl⟩

/-- The last confirmation of a position at a commit's number is of that commit. -/
theorem lastConfirmation_cursor (hs : L.Sound h) {c : Commit} (hc : c ∈ L.log) {p : Confirmation}
    (hl : L.lastConfirmation c.key = some p) (hq : p.sequence = c.seq) : p.cursor = c.cursor := by
  have hm := List.mem_filter.mp (List.mem_of_getLast? hl)
  obtain ⟨d, hd, hdk, hdq, hdx⟩ := Confirmed.mem hs.confirmed hm.1
  have hpos : p.position = c.key := by simpa using hm.2
  rw [← hdx, Chain.link_unique hs.linked hd hc (hdk.trans hpos) (hdq.trans hq)]

theorem confirmAck_tables (hs : L.Sound h) (now : Int) (arg : AckArg) :
    Ingest.confirmAck h now arg (L.tables h) = ((L.confirmAck now arg).1.tables h, (L.confirmAck now arg).2) := by
  refine Emulates.transact ?_
  unfold confirmBody confirmAck
  rw [hs.tables_valid]
  cases arg with
  | malformed => exact .inr ⟨_, rfl, rfl⟩
  | row a =>
    simp only
    by_cases ha : a ∈ L.log.map ack
    · rw [if_neg (not_not.mpr ((find_ack hs a).mpr ha)), if_neg (not_not.mpr ha), lastConfirmed_tables hs]
      obtain ⟨c, hc, rfl⟩ := List.mem_map.mp ha
      have hrow : (⟨⟨.confirmation, (ack c).cursorHash⟩, (ack c).position, .backend, (ack c).highestContiguousSequence,
          (ack c).cursorHash, .backendDurableChain, ((L.lastConfirmation (ack c).position).map (·.row)).map (·.ackCursorId),
          now⟩ : AckCursor Int) = (L.nextConfirmation now (ack c)).row := by
        simp only [nextConfirmation, Confirmation.row, Option.map_map]
        rfl
      rw [hrow]
      cases hl : L.lastConfirmation (ack c).position with
      | none =>
        refine emulates_confirm hs hc fun p hp => ?_
        rw [show L.lastConfirmation c.key = none from hl] at hp
        cases hp
      | some p =>
        simp only [Option.map_some]
        have hseq : p.row.highestContiguousSequence = p.sequence := rfl
        by_cases hreg : (ack c).highestContiguousSequence < p.sequence
        · rw [if_pos hreg, hseq, if_pos hreg]
          exact .inr ⟨_, rfl, rfl⟩
        · rw [if_neg hreg, hseq, if_neg hreg]
          by_cases heq : p.sequence = (ack c).highestContiguousSequence
          · have hx : p.row.cursorHash = (ack c).cursorHash := lastConfirmation_cursor hs hc hl heq
            rw [if_pos heq, if_pos heq, if_neg (not_not.mpr hx)]
            exact .inl rfl
          · rw [if_neg heq, if_neg heq]
            refine emulates_confirm hs hc fun q hq => ?_
            rw [show L.lastConfirmation c.key = some p from hl, Option.mem_some_iff] at hq
            subst hq
            have hle : (ack c).highestContiguousSequence = c.seq := rfl
            omega
    · rw [if_pos (fun he => ha ((find_ack hs a).mp he)), if_pos ha]
      exact .inr ⟨_, rfl, rfl⟩

/-! ## store_late_repair -/

theorem mem_generationRows {g : StreamGeneration Int} (hg : g ∈ (L.tables h).streamGenerations) :
    (g.position = L.position 0 ∧ (g.generationState ≠ .active ↔ L.rupture.isSome)) ∨
      (g.position = L.position 1 ∧ g.generationState = .active ∧ L.rupture.isSome) := by
  rcases L with ⟨ctx, t, es, _ | ⟨_ | ⟨x, y⟩, hi, n, d, u⟩, cs⟩ <;>
    simp only [tables, generationRows, List.mem_cons, List.not_mem_nil, or_false] at hg
  · subst hg; simp [position]
  all_goals rcases hg with rfl | rfl <;> simp [position, Rupture.closedState]

/-- The closed generation a late repair needs is the ledger's generation 0, ruptured. -/
theorem closed_generation (k : Position) :
    (∃ g ∈ (L.tables h).streamGenerations, g.position = k ∧
      (g.generationState = .closed ∨ g.generationState = .quarantinedGap)) ↔ k = L.position 0 ∧ L.rupture.isSome := by
  constructor
  · intro ⟨g, hg, hk, hst⟩
    have hna : g.generationState ≠ .active := by
      intro e
      rw [e] at hst
      simp at hst
    rcases mem_generationRows hg with ⟨hp, hiff⟩ | ⟨-, ha, -⟩
    · exact ⟨hk.symm.trans hp, hiff.mp hna⟩
    · exact absurd ha hna
  · intro ⟨hk, hr⟩
    rcases L with ⟨ctx, t, es, _ | ⟨_ | ⟨x, y⟩, hi, n, d, u⟩, cs⟩
    · simp at hr
    all_goals simp [tables, generationRows, hk, Rupture.closedState]

theorem rawAt_isSome (k : Position) (n : Nat) :
    (Db.rawAt (L.tables h) k n).isSome ↔ ∃ e ∈ L.entries, e.commit.key = k ∧ e.commit.seq = n := by
  rw [Db.rawAt, List.find?_isSome]
  simp [tables, Entry.raw]

/-- The conditions of the code on generation, gap and raw row are `Ledger.repairable`. -/
theorem repairable_tables (hs : L.Sound h) (o : Observation) :
    ((∃ g ∈ (L.tables h).streamGenerations, g.position = lateKey o ∧
        (g.generationState = .closed ∨ g.generationState = .quarantinedGap)) ∧
      (∃ g ∈ (L.tables h).gapRecords, g.stream = (lateKey o).stream ∧
        g.predecessorGeneration = (lateKey o).generation ∧ g.missingFromSequence ≤ o.sequence.value ∧
        o.sequence.value ≤ g.missingToSequence ∧ g.repairStatus = .opened) ∧
      ¬(Db.rawAt (L.tables h) (lateKey o) o.sequence.value).isSome) ↔ L.repairable o := by
  rw [closed_generation, rawAt_isSome]
  constructor
  · intro hcode
    obtain ⟨⟨hk, hr⟩, ⟨g, hg, -, -, hfrom, hto, -⟩, hraw⟩ := hcode
    obtain ⟨r, hr⟩ := Option.isSome_iff_exists.mp hr
    have hstream : (lateKey o).stream = L.stream := by rw [hk]; rfl
    have hgen : (lateKey o).generation = 0 := by rw [hk]; rfl
    have hnone : ∀ e ∈ L.entries, ¬(e.commit.key = L.position 0 ∧ e.commit.seq = o.sequence.value) := by
      intro e he hp
      exact hraw ⟨e, he, hp.1.trans hk.symm, hp.2⟩
    have hgr : g = r.gapRow L.stream := by simpa [tables, hr] using hg
    have hcause := hs.caused r hr
    refine ⟨hstream, hgen, r, hr, ?_⟩
    cases hc : r.cause with
    | missing =>
      simp only [hgr, Rupture.gapRow, hc] at hfrom hto hcause
      exact ⟨rfl, by omega, by omega, hnone⟩
    | conflict existing x =>
      -- the contradicted commit is still at that number
      simp only [hgr, Rupture.gapRow, hc] at hfrom hto hcause
      obtain ⟨c, hcl, hck, hcq, -⟩ := hcause
      exact absurd ⟨hck, hcq.trans (by omega)⟩ (hnone _ (mem_log.mp hcl))
  · rintro ⟨hstream, hgen, r, hr, hmiss, hlo, hhi, hnone⟩
    have hk : lateKey o = L.position 0 := by
      simp only [lateKey, position, Position.mk.injEq]
      exact ⟨hstream, hgen⟩
    refine ⟨⟨hk, by rw [hr]; rfl⟩, ⟨r.gapRow L.stream, by simp [tables, Option.mem_def.mp hr], ?_⟩, ?_⟩
    · rw [hk]
      simp only [Rupture.gapRow, hmiss, position, true_and]
      exact ⟨by omega, by omega, trivial⟩
    · rintro ⟨e, he, hp, hq⟩
      exact hnone e he ⟨hp.trans hk, hq⟩

/-- Every commit of generation 0 lies before the gap, so the cursor below the repaired
    number is the one the log stands at. -/
theorem late_previous (hs : L.Sound h) {o : Observation} (hr : L.repairable o) :
    ((((L.tables h).reducerCursors.filter fun r => r.position = lateKey o ∧
      r.highestContiguousSequence < o.sequence.value).argmax (·.highestContiguousSequence)).map (·.cursorHash)).getD h0 =
      Chain.head h0 L.log (L.position 0) := by
  obtain ⟨hstream, hgen, r, hrup, -, hlo, -, -⟩ := hr
  have hk : lateKey o = L.position 0 := by
    simp only [lateKey, position, Position.mk.injEq]
    exact ⟨hstream, hgen⟩
  have hf : ((L.tables h).reducerCursors.filter fun r => r.position = lateKey o ∧
      r.highestContiguousSequence < o.sequence.value) =
      (L.tables h).reducerCursors.filter (fun r => r.position = L.position 0) := by
    refine List.filter_congr fun w hw => ?_
    obtain ⟨c, hc, rfl⟩ := List.mem_map.mp hw
    rw [hk]
    simp only [decide_eq_decide, and_iff_left_iff_imp]
    intro hck
    have hb := (Chain.seq_bounds hs.linked hc).2
    rw [show c.key = L.position 0 from hck, ← (hs.ruptured r hrup).2.2] at hb
    exact Nat.lt_of_le_of_lt hb hlo
  rw [hf]
  exact head_tables hs (L.position 0)

theorem rawCommitOk_late {now : Int} {o : Observation} (hr : L.repairable o) :
    RawCommitOk (L.tables h) (Entry.raw ⟨L.lateCommit h now o, true⟩) ↔ L.storable h now o := by
  obtain ⟨-, -, r, hrup, -, -, -, hnone⟩ := hr
  constructor
  · intro hok
    obtain ⟨-, ht, hu, -⟩ := hok
    refine ⟨ht, fun e he hl => ?_, fun e he => (hu _ (List.mem_map_of_mem he)).2.1⟩
    have := (hu _ (List.mem_map_of_mem he)).1
    simpa [Entry.raw, hl] using this
  · rintro ⟨ht, hx, hi⟩
    obtain ⟨g, hg, hpos, hst⟩ := (closed_generation (h := h) (L.position 0)).mpr ⟨rfl, by rw [hrup]; rfl⟩
    refine ⟨o.sequencePos, ht, ?_, ⟨g, hg, hpos⟩, fun happ => by simp [Entry.raw] at happ, fun _ => ⟨g, hg, hpos, ?_⟩⟩
    · intro w hw
      obtain ⟨e, he, rfl⟩ := List.mem_map.mp hw
      refine ⟨?_, hi e he, hnone e he⟩
      cases hl : e.late with
      | false => simp [Entry.raw, hl]
      | true => simpa [Entry.raw, hl] using hx e he hl
    · intro e
      rw [e] at hst
      simp at hst

theorem emulates_lateRepair {now : Int} {o : Observation} (hr : L.repairable o) :
    Emulates h L ((ofStore (insertRawCommit (Entry.raw ⟨L.lateCommit h now o, true⟩) (L.tables h))).map
        (·, .ok (Entry.raw ⟨L.lateCommit h now o, true⟩)))
      (if L.storable h now o then (L.append (L.lateCommit h now o) true, .ok (Entry.raw ⟨L.lateCommit h now o, true⟩))
        else (L, .error (.store .integrity))) := by
  have hok : _ ↔ L.storable h now o := rawCommitOk_late hr
  by_cases hst : L.storable h now o
  · rw [insertRawCommit, guarded_pos (hok.mpr hst), if_pos hst]
    refine .inl ?_
    simp [ofStore, tables, append, log, generationRows, controllerRow, identity, stream, position]
  · rw [insertRawCommit, guarded_neg (mt hok.mp hst), if_neg hst]
    exact .inr ⟨_, rfl, rfl⟩

theorem emulates_lateRepairBody (hs : L.Sound h) {now : Int} {o : Observation} (hb : L.bound o) :
    Emulates h L (lateRepairBody h now o (L.tables h))
      (if ¬L.repairable o then (L, .error .lateRepairBinding)
      else if L.storable h now o then
        (L.append (L.lateCommit h now o) true, .ok (Entry.raw ⟨L.lateCommit h now o, true⟩))
      else (L, .error (.store .integrity))) := by
  have hiff := repairable_tables hs o
  unfold lateRepairBody
  rw [hs.tables_valid]
  simp only [runBound_tables, hb, not_true_eq_false, if_false]
  by_cases hr : L.repairable o
  · obtain ⟨hgen, hgap, hraw⟩ := hiff.mpr hr
    have hk : lateKey o = L.position 0 := ((closed_generation _).mp hgen).1
    have hprev := late_previous hs hr
    rw [if_neg (not_not.mpr hgen), if_neg (not_or.mpr ⟨not_not.mpr hgap, hraw⟩), if_neg (not_not.mpr hr), hprev, hk]
    exact emulates_lateRepair hr
  · rw [if_pos hr]
    by_cases hgen : ∃ g ∈ (L.tables h).streamGenerations, g.position = lateKey o ∧
        (g.generationState = .closed ∨ g.generationState = .quarantinedGap)
    · rw [if_neg (not_not.mpr hgen), if_pos]
      · exact .inr ⟨_, rfl, rfl⟩
      · by_contra hgap
        simp only [not_or, not_not] at hgap
        exact hr (hiff.mp ⟨hgen, hgap⟩)
    · rw [if_pos hgen]
      exact .inr ⟨_, rfl, rfl⟩

/-- `Ingestor.store_late_repair` on a sound ledger's tables is the ledger's. -/
theorem storeLateRepair_tables (hs : L.Sound h) (now : Int) (o : Observation) :
    Ingest.storeLateRepair h now o (L.tables h) =
      ((L.storeLateRepair h now o).1.tables h, (L.storeLateRepair h now o).2) := by
  unfold Ingest.storeLateRepair storeLateRepair
  by_cases hhash : o.contentHash ≠ plain (h.rawObservation o.toObservationContent)
  · rw [if_pos hhash, if_pos hhash]
  · rw [if_neg hhash, if_neg hhash]
    by_cases hrange : maxInteger < o.generation.value ∨ maxInteger < o.sequence.value
    · rw [if_pos hrange, if_pos hrange]
    · rw [if_neg hrange, if_neg hrange]
      refine Emulates.transact ?_
      by_cases hb : L.bound o
      · rw [if_neg (not_not.mpr hb)]
        exact emulates_lateRepairBody hs hb
      · rw [if_pos hb]
        refine .inr ⟨_, ?_, rfl⟩
        simp [lateRepairBody, hs.tables_valid, runBound_tables, hb]

/-! ## create_offline_run -/

theorem seed_tables (c : Context) (now : Int) :
    seed h c now (Db.empty Int) =
      if 0 ≤ now ∧ c.generation.value = 0 then .ok ((fresh c now).tables h) else .error .integrity := by
  by_cases ht : 0 ≤ now
  · by_cases hg : c.generation.value = 0
    · simp [seed, insertRunMeta, RunMetaOk, insertGeneration, GenerationOk, GenerationRowOk, SuccessorGuard, insertEpoch,
        EpochOk, insertController, ControllerOk, guarded, Db.empty, ht, hg, tables, fresh, log, generationRows,
        controllerRow, position, stream, identity, Context.stream]
    · -- a successor generation wants a transition, and there is none yet
      have hp : 0 < c.generation.value := Nat.pos_of_ne_zero hg
      simp [seed, insertRunMeta, RunMetaOk, insertGeneration, GenerationOk, SuccessorGuard, guarded, Db.empty, ht, hg, hp]
  · simp [seed, insertRunMeta, RunMetaOk, guarded, ht]

/-- A run is created when its hashes are plain, its generation is 0 and the clock is not
    before 1970; its store is then the fresh ledger's. -/
theorem createOfflineRun_ok {c : Context} {now : Int} {db : Db Int} :
    createOfflineRun h c now = .ok db ↔ (¬(c.vendorSha256.newline ∨ c.codeSha256.newline) ∧ 0 ≤ now ∧
      c.generation.value = 0) ∧ db = (fresh c now).tables h := by
  unfold createOfflineRun
  by_cases hn : c.vendorSha256.newline ∨ c.codeSha256.newline
  · rw [if_pos hn]
    simp [hn]
  · rw [if_neg hn]
    by_cases hc : 0 ≤ now ∧ c.generation.value = 0
    · have hbody : (seed h c now (Db.empty Int)).map (·, (.ok () : Except StoreError Unit)) =
          .ok ((fresh c now).tables h, .ok ()) := by rw [seed_tables, if_pos hc]; rfl
      rw [transact_tables hbody]
      exact ⟨fun e => ⟨⟨hn, hc⟩, (Except.ok.inj e).symm⟩, fun e => by rw [e.2]⟩
    · have hbody : (seed h c now (Db.empty Int)).map (·, (.ok () : Except StoreError Unit)) = .error .integrity := by
        rw [seed_tables, if_neg hc]; rfl
      rw [transact_error hbody]
      exact ⟨fun e => (nomatch e), fun e => absurd e.1.2 hc⟩

theorem fresh_sound {c : Context} {now : Int} (ht : 0 ≤ now) (hg : c.generation.value = 0) : (fresh c now).Sound h where
  created := ht
  firstGeneration := hg
  linked := .nil
  cursors := List.nodup_nil
  keys := by simp [fresh, log]
  repairs := by simp [fresh]
  ruptured := by simp [fresh]
  caused := by simp [fresh]
  confirmed := .nil

end Ledger

end BettingHelper.Ingest
