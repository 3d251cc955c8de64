/-
  BettingHelper.Ingest.Decision — what Ingestor.apply does in every case, in the store's
  own terms.

  An observation is addressed to the one ACTIVE generation it names (`Addressed`). With the
  next number it is committed (`Db.committed`); with a stored number and the stored hash
  its ACK is read back; with another hash, or a number too high, the generation is broken
  off (`Db.breached`), if the coherence controller is open. Everything else raises and
  leaves the store (`apply_decided`).

  `time_ns()` may have gone back behind the generation's opening, and a digest may be one
  that is stored: the constraints then refuse the rows, and nothing is changed.
-/

import BettingHelper.Ingest.Generations

namespace BettingHelper.Ingest

open BettingHelper.Store BettingHelper.Lib

/-- The observation passes the checks before the store is opened, and names the open run
    and one generation of it, which is ACTIVE. -/
structure Addressed (h : Hashes) (db : Db Int) (o : Observation) (current : StreamGeneration Int) : Prop where
  admitted : admissible h o = .ok ()
  bound : runBound db o
  named : lookupGeneration o db = [current]
  active : current.generationState = .active

/-- The highest reducer cursor of a position, 0 without one. -/
def Db.highest (db : Db Int) (p : Position) : Nat := ((Db.lastCursor db p).map (·.highestContiguousSequence)).getD 0

/-- The commit an observation would make at a position. -/
def Db.nextCommit (h : Hashes) (db : Db Int) (p : Position) (now : Int) (o : Observation) : Commit :=
  let prior := ((Db.lastCursor db p).map (·.cursorHash)).getD h0
  ⟨p, o.sequence.value, ⟨o.rawObservationId, o.contentHash.value, now⟩, prior,
    h.cursorStep ⟨p, o.sequence.value, o.contentHash.value, prior⟩⟩

/-- A row more in each of five tables. -/
def Db.committed (db : Db Int) (c : Commit) : Db Int :=
  { db with
    rawCommits := db.rawCommits ++ [Entry.raw ⟨c, false⟩]
    applicationRecords := db.applicationRecords ++ [application c]
    derivedRevisions := db.derivedRevisions ++ [revision c]
    reducerCursors := db.reducerCursors ++ [reducer c]
    ackOutbox := db.ackOutbox ++ [ack c] }

/-- The records of a conflict with a stored commit, or of a gap: the generation is closed and
    the next one opened, the coherence controller is shut. -/
def Db.breached (db : Db Int) (current : StreamGeneration Int) (controller : CoherenceController Int)
    (against : Option (RawCommit Int)) (o : Observation) (now : Int) : Db Int :=
  let digest := o.contentHash.value
  let sequence := o.sequence.value
  let highest := Db.highest db current.position
  let stream := current.position.stream
  let generation := current.position.generation
  let reason : GapReason := if against.isSome then .conflictingDuplicate else .missingSequence
  { db with
    rawConflicts := db.rawConflicts ++ against.toList.map fun raw =>
      ⟨⟨.conflict, digest⟩, raw.rawCommitId, current.position, sequence, o.rawObservationId, digest, now⟩
    gapRecords := db.gapRecords ++ [⟨⟨.gap, digest⟩, stream, generation, generation + 1,
      if against.isSome then sequence else highest + 1, if against.isSome then sequence else sequence - 1, sequence,
      reason, .opened, if against.isSome then sequence - 1 else highest, now⟩]
    shockObservations := db.shockObservations ++ [⟨⟨.shock, digest⟩, stream.runId, controller.fixtureId,
      if against.isSome then .schemaConflict else .sequenceGap, now, now, digest, now⟩]
    coherenceTransitions := db.coherenceTransitions ++ [⟨⟨.transition, digest⟩, controller.coherenceControllerId,
      controller.fixtureId, controller.controllerState, controller.currentEpochId, ⟨.shock, digest⟩, now⟩]
    coherenceControllers := db.coherenceControllers.map fun k =>
      if k.coherenceControllerId = controller.coherenceControllerId then
        { k with controllerState := .shockedClosed, activeShockObservationId := some ⟨.shock, digest⟩,
                 controllerRevision := k.controllerRevision + 1, updatedAtUs := now }
      else k
    gapEpochBindings := db.gapEpochBindings ++ [⟨⟨.binding, digest⟩, ⟨.gap, digest⟩, controller.currentEpochId,
      controller.coherenceControllerId, ⟨.shock, digest⟩, ⟨.transition, digest⟩, now⟩]
    streamGenerations := (db.streamGenerations.map fun g =>
      if g.generationId = current.generationId then
        { g with generationState := if against.isSome then .closed else .quarantinedGap, closedAtUs := some now,
                 closeReason := some reason }
      else g) ++ [⟨⟨.generation, digest⟩, ⟨stream, generation + 1⟩, some generation, .active, now, none, none⟩]
    generationTransitions := db.generationTransitions ++ [⟨⟨.generationTransition, digest⟩, ⟨.gap, digest⟩, stream,
      generation, generation + 1, if against.isSome then .conflict else .gap, now⟩] }

/-- The observation is the next in line, and its rows collide with none. -/
structure Committable (h : Hashes) (db : Db Int) (now : Int) (o : Observation) (current : StreamGeneration Int) : Prop where
  next : o.sequence.value = Db.highest db current.position + 1
  clock : 0 ≤ now
  freshId : ∀ r ∈ db.rawCommits, r.rawObservationId ≠ o.rawObservationId
  freshCursor : ∀ r ∈ db.reducerCursors, r.cursorHash ≠ (Db.nextCommit h db current.position now o).cursor

/-- The run's one coherence controller is open. -/
def controllerOpen (db : Db Int) (current : StreamGeneration Int) (k : CoherenceController Int) : Prop :=
  db.coherenceControllers.filter (·.runId = current.position.stream.runId) = [k] ∧
    (k.controllerState = .opened ∨ k.controllerState = .newEpochOpen)

/-- The generation can be broken off. -/
structure Breakable (db : Db Int) (now : Int) (o : Observation) (current : StreamGeneration Int)
    (k : CoherenceController Int) : Prop where
  controller : controllerOpen db current k
  clock : current.openedAtUs ≤ now
  freshGeneration : ∀ g ∈ db.streamGenerations, g.generationId ≠ ⟨.generation, o.contentHash.value⟩

/-- The cases in which apply does not just raise. -/
def Settles (h : Hashes) (db : Db Int) (now : Int) (o : Observation) (current : StreamGeneration Int) : Prop :=
  Committable h db now o current ∨
  (∃ raw, Db.rawAt db current.position o.sequence.value = some raw ∧
    raw.rawObservationContentHash = o.contentHash.value) ∨
  ∃ k, Breakable db now o current k ∧ ((∃ raw, Db.rawAt db current.position o.sequence.value = some raw ∧
    raw.rawObservationContentHash ≠ o.contentHash.value) ∨ Db.highest db current.position + 1 < o.sequence.value)

/-- What apply makes of an observation. -/
structure Decided (h : Hashes) (db : Db Int) (now : Int) (o : Observation) : Prop where
  stored : ∀ current, Addressed h db o current →
    ((Db.rawAt db current.position o.sequence.value).isSome ↔ o.sequence.value ≤ Db.highest db current.position)
  commits : ∀ current, Addressed h db o current → Committable h db now o current →
    apply h now o db = (Db.committed db (Db.nextCommit h db current.position now o),
      .ok (ack (Db.nextCommit h db current.position now o)))
  repeats : ∀ current raw, Addressed h db o current → Db.rawAt db current.position o.sequence.value = some raw →
    raw.rawObservationContentHash = o.contentHash.value →
    ∃ a, db.ackAt current.position o.sequence.value = some a ∧ apply h now o db = (db, .ok a)
  conflicts : ∀ current k raw, Addressed h db o current → Breakable db now o current k →
    Db.rawAt db current.position o.sequence.value = some raw →
    raw.rawObservationContentHash ≠ o.contentHash.value →
    apply h now o db = (Db.breached db current k (some raw) o now, .error .conflict)
  gaps : ∀ current k, Addressed h db o current → Breakable db now o current k →
    Db.highest db current.position + 1 < o.sequence.value →
    apply h now o db = (Db.breached db current k none o now, .error .gap)
  refuses : (¬∃ current, Addressed h db o current ∧ Settles h db now o current) →
    ∃ e, apply h now o db = (db, .error e)
  /-- No conflict is on an ACTIVE generation. -/
  unconflicted : bindGeneration h o db ≠ .error .conflict
  /-- Each stored row of it has its ACK. -/
  acknowledged : ∀ current raw, bindGeneration h o db = .ok current →
    Db.rawAt db current.position o.sequence.value = some raw → (db.ackAt current.position o.sequence.value).isSome
  complete : (apply h now o db).2 ≠ .error .incompleteDurableChain

namespace Ledger

variable {h : Hashes} {L : Ledger} {o : Observation} {now : Int}

/-! ## The store's terms on a ledger's tables -/

theorem addressed_tables {current : StreamGeneration Int} (ha : Addressed h (L.tables h) o current) :
    L.bound o ∧ L.streamed o ∧ o.generation.value = L.active ∧ current = L.activeRow h := by
  have hb := (runBound_tables o).mp ha.bound
  have hn := ha.named
  by_cases hid : L.streamed o
  · rcases Nat.lt_trichotomy o.generation.value L.active with hlt | heq | hgt
    · obtain ⟨g, hg, hst⟩ := lookup_closed (h := h) hid hlt
      rw [hg] at hn
      cases hn
      exact absurd ha.active hst
    · rw [lookup_active hid heq] at hn
      cases hn
      exact ⟨hb, hid, heq, rfl⟩
    · rw [lookup_none (.inr hgt)] at hn
      cases hn
  · rw [lookup_none (.inl hid)] at hn
    cases hn

theorem addressed_active (hadm : admissible h o = .ok ()) (hb : L.bound o) (hid : L.streamed o)
    (hg : o.generation.value = L.active) : Addressed h (L.tables h) o (L.activeRow h) :=
  ⟨hadm, (runBound_tables o).mpr hb, lookup_active hid hg, activeRow_active⟩

/-- An observation addressed to the active generation is advanced. -/
theorem apply_addressed {current : StreamGeneration Int} (ha : Addressed h (L.tables h) o current) :
    L.apply h now o = L.advance h now o := by
  obtain ⟨hb, ⟨-, h2, h3⟩, hg, -⟩ := addressed_tables ha
  unfold Ledger.apply
  rw [ha.admitted]
  simp only
  rw [if_neg (not_not.mpr hb), if_neg (by simp [h2, h3, hg]), if_neg (by omega)]

theorem highest_tables (hs : L.Sound h) (p : Position) : Db.highest (L.tables h) p = Chain.height L.log p :=
  height_tables hs p

theorem nextCommit_tables (hs : L.Sound h) :
    Db.nextCommit h (L.tables h) (L.position L.active) now o = L.nextCommit h now o := by
  unfold Db.nextCommit
  rw [head_tables hs]
  rfl

theorem committable_tables (hs : L.Sound h) :
    Committable h (L.tables h) now o (L.activeRow h) ↔
      o.sequence.value = Chain.height L.log (L.position L.active) + 1 ∧ L.committable h now o := by
  constructor
  · intro hc
    have hnext := hc.next
    have hcursor := hc.freshCursor
    rw [activeRow_position, highest_tables hs] at hnext
    rw [activeRow_position, nextCommit_tables hs] at hcursor
    refine ⟨hnext, hc.clock, fun d hd => hcursor _ (List.mem_map_of_mem hd), fun e he => ?_⟩
    exact hc.freshId _ (List.mem_map_of_mem he)
  · rintro ⟨hnext, hclock, hcursor, hid⟩
    refine ⟨?_, hclock, ?_, ?_⟩
    · rw [activeRow_position, highest_tables hs]
      exact hnext
    · intro r hr
      obtain ⟨e, he, rfl⟩ := List.mem_map.mp hr
      exact hid e he
    · intro r hr
      obtain ⟨d, hd, rfl⟩ := List.mem_map.mp hr
      rw [activeRow_position, nextCommit_tables hs]
      exact hcursor d hd

theorem controllerOpen_tables {k : CoherenceController Int} :
    controllerOpen (L.tables h) (L.activeRow h) k ↔ L.rupture = none ∧ k = L.controllerRow h := by
  have hrun : (L.controllerRow h).runId = (L.activeRow h).position.stream.runId := by
    rw [activeRow_position]
    unfold controllerRow
    split <;> rfl
  have hone : (L.tables h).coherenceControllers.filter (·.runId = (L.activeRow h).position.stream.runId) =
      [L.controllerRow h] := by
    simp [tables, hrun]
  unfold controllerOpen
  rw [hone]
  constructor
  · rintro ⟨hk, hst⟩
    cases hk
    refine ⟨?_, rfl⟩
    cases hr : L.rupture with
    | none => rfl
    | some r => simp [controllerRow, hr] at hst
  · rintro ⟨hr, rfl⟩
    exact ⟨rfl, .inl (by simp [controllerRow, hr])⟩

theorem breakable_tables {k : CoherenceController Int} :
    Breakable (L.tables h) now o (L.activeRow h) k ↔
      L.rupture = none ∧ k = L.controllerRow h ∧ L.createdAtUs ≤ now ∧ o.contentHash.value ≠ L.identity h := by
  constructor
  · intro hb
    obtain ⟨hr, hk⟩ := controllerOpen_tables.mp hb.controller
    have hclock := hb.clock
    have hfresh := hb.freshGeneration (L.activeRow h) activeRow_mem
    simp only [activeRow, hr] at hclock hfresh
    exact ⟨hr, hk, hclock, fun e => hfresh (by rw [e])⟩
  · rintro ⟨hr, hk, hclock, hdigest⟩
    refine ⟨controllerOpen_tables.mpr ⟨hr, hk⟩, by simpa [activeRow, hr] using hclock, ?_⟩
    intro g hg e
    simp only [tables, generationRows, hr, List.mem_singleton] at hg
    subst hg
    exact hdigest (congrArg RowId.digest e).symm

/-- The ruptured ledger's tables are the ledger's, broken off. -/
theorem breached_tables (hs : L.Sound h) (hr : L.rupture = none) {against : Option Commit} :
    Db.breached (L.tables h) (L.activeRow h) (L.controllerRow h) (against.map fun c => Entry.raw ⟨c, false⟩) o now =
      tables h { L with rupture := some ⟨match against with
        | none => .missing
        | some c => .conflict c.cursor o.rawObservationId,
        Chain.height L.log (L.position 0), o.sequence.value, o.contentHash.value, now⟩ } := by
  have ha : L.active = 0 := by simp [active, hr]
  have hheight : Db.highest (L.tables h) (L.activeRow h).position = Chain.height L.log (L.position 0) := by
    rw [highest_tables hs, activeRow_position, ha]
  unfold Db.breached
  rw [hheight]
  rcases L with ⟨ctx, t, es, _ | _, cs⟩
  · cases against with
    | none => simp [tables, activeRow, controllerRow, generationRows, position, Rupture.conflictRows, Rupture.gapRow,
        Rupture.shockRow, Rupture.transitionRow, Rupture.bindingRow, Rupture.generationTransitionRow,
        Rupture.closedState, Cause.reason, log, stream, identity]
    | some c => simp [tables, activeRow, controllerRow, generationRows, position, Rupture.conflictRows, Rupture.gapRow,
        Rupture.shockRow, Rupture.transitionRow, Rupture.bindingRow, Rupture.generationTransitionRow,
        Rupture.closedState, Cause.reason, log, stream, identity, Entry.raw]
  · cases hr

/-! ## The decision -/

theorem commitAt_le (hs : L.Sound h) {g n : Nat} {c : Commit} (hf : L.commitAt g n = some c) :
    n ≤ Chain.height L.log (L.position g) := by
  obtain ⟨hc, hk, hq⟩ := commitAt_some hf
  rw [← hq, ← hk]
  exact (Chain.seq_bounds hs.linked hc).2

/-- What is read at the observation's number, on the active generation. -/
theorem rawAt_active (hs : L.Sound h) :
    Db.rawAt (L.tables h) (L.activeRow h).position o.sequence.value =
      (L.commitAt L.active o.sequence.value).map fun c => Entry.raw ⟨c, false⟩ := by
  rw [activeRow_position]
  exact rawAt_tables hs _

theorem raw_active (hs : L.Sound h) {raw : RawCommit Int}
    (hraw : Db.rawAt (L.tables h) (L.activeRow h).position o.sequence.value = some raw) :
    ∃ c, L.commitAt L.active o.sequence.value = some c ∧ raw = Entry.raw ⟨c, false⟩ := by
  rw [rawAt_active hs] at hraw
  obtain ⟨c, hf, hc⟩ := Option.map_eq_some_iff.mp hraw
  exact ⟨c, hf, hc.symm⟩

theorem advance_commits (hs : L.Sound h) (hq : o.sequence.value = Chain.height L.log (L.position L.active) + 1)
    (hc : L.committable h now o) :
    L.advance h now o = (L.append (L.nextCommit h now o) false, .ok (ack (L.nextCommit h now o))) := by
  unfold advance
  cases hf : L.commitAt L.active o.sequence.value with
  | some c =>
    have hle := commitAt_le hs hf
    omega
  | none =>
    simp only
    rw [if_pos hq, commit, if_pos hc]

theorem breakOff_open (hr : L.rupture = none) (ht : L.createdAtUs ≤ now) (hd : o.contentHash.value ≠ L.identity h)
    (cause : Cause) (code : IngestError) :
    L.breakOff h now cause o code = ({ L with rupture := some ⟨cause, Chain.height L.log (L.position 0),
      o.sequence.value, o.contentHash.value, now⟩ }, .error code) := by
  unfold breakOff
  rw [hr]
  exact if_pos ⟨ht, hd⟩

theorem advance_conflicts (hs : L.Sound h) {c : Commit} (hf : L.commitAt L.active o.sequence.value = some c)
    (hne : c.payload.contentHash ≠ o.contentHash.value) (hr : L.rupture = none) (ht : L.createdAtUs ≤ now)
    (hd : o.contentHash.value ≠ L.identity h) :
    L.advance h now o = ({ L with rupture := some ⟨.conflict c.cursor o.rawObservationId,
      Chain.height L.log (L.position 0), o.sequence.value, o.contentHash.value, now⟩ }, .error .conflict) := by
  have hrec : L.conflictRecordable now o := by
    refine ⟨Int.le_trans hs.created ht, fun r hr' => ?_⟩
    rw [hr] at hr'
    cases hr'
  unfold advance
  rw [hf]
  simp only
  rw [if_neg hne, if_pos hrec]
  exact breakOff_open hr ht hd _ _

theorem advance_gaps (hs : L.Sound h) (hgap : Chain.height L.log (L.position L.active) + 1 < o.sequence.value)
    (hr : L.rupture = none) (ht : L.createdAtUs ≤ now) (hd : o.contentHash.value ≠ L.identity h) :
    L.advance h now o = ({ L with rupture := some ⟨.missing, Chain.height L.log (L.position 0), o.sequence.value,
      o.contentHash.value, now⟩ }, .error .gap) := by
  unfold advance
  cases hf : L.commitAt L.active o.sequence.value with
  | some c =>
    have hle := commitAt_le hs hf
    omega
  | none =>
    simp only
    rw [if_neg (by omega)]
    exact breakOff_open hr ht hd _ _

/-- An advance that is none of the cases raises and leaves the ledger. -/
theorem advance_refuses (hs : L.Sound h) (hno : ¬Settles h (L.tables h) now o (L.activeRow h)) :
    ∃ e, L.advance h now o = (L, .error e) := by
  simp only [Settles, not_or] at hno
  obtain ⟨hcommit, hrepeat, hbreak⟩ := hno
  have breakOff_refuses (cause : Cause) (code : IngestError)
      (hcase : (∃ raw, Db.rawAt (L.tables h) (L.activeRow h).position o.sequence.value = some raw ∧
          raw.rawObservationContentHash ≠ o.contentHash.value) ∨
        Db.highest (L.tables h) (L.activeRow h).position + 1 < o.sequence.value) :
      ∃ e, L.breakOff h now cause o code = (L, .error e) := by
    unfold breakOff
    cases hr : L.rupture with
    | some r => exact ⟨_, rfl⟩
    | none =>
      simp only
      split_ifs with hok
      · exact absurd ⟨_, breakable_tables.mpr ⟨hr, rfl, hok⟩, hcase⟩ hbreak
      · exact ⟨_, rfl⟩
  unfold advance
  cases hf : L.commitAt L.active o.sequence.value with
  | some c =>
    have hraw : Db.rawAt (L.tables h) (L.activeRow h).position o.sequence.value = some (Entry.raw ⟨c, false⟩) := by
      rw [rawAt_active hs, hf]
      rfl
    simp only
    split_ifs with hsame hrec
    · exact absurd ⟨_, hraw, hsame⟩ hrepeat
    · exact breakOff_refuses _ _ (.inl ⟨_, hraw, hsame⟩)
    · exact ⟨_, rfl⟩
  | none =>
    have hlt := commitAt_none hs o.sequencePos hf
    simp only
    split_ifs with hq
    · have hnot : ¬L.committable h now o := fun hc => hcommit ((committable_tables hs).mpr ⟨hq, hc⟩)
      rw [commit, if_neg hnot]
      exact ⟨_, rfl⟩
    · refine breakOff_refuses _ _ (.inr ?_)
      rw [activeRow_position, highest_tables hs]
      omega

theorem apply_refuses (hs : L.Sound h) (hno : ¬∃ current, Addressed h (L.tables h) o current ∧
    Settles h (L.tables h) now o current) : ∃ e, L.apply h now o = (L, .error e) := by
  by_cases ha : ∃ current, Addressed h (L.tables h) o current
  · obtain ⟨current, ha⟩ := ha
    have hcur := (addressed_tables ha).2.2.2
    subst hcur
    rw [apply_addressed ha]
    exact advance_refuses hs fun hset => hno ⟨_, ha, hset⟩
  · unfold Ledger.apply
    cases hadm : admissible h o with
    | error e => exact ⟨e, rfl⟩
    | ok u =>
      simp only
      split_ifs with hb hid hlt
      · exact ⟨_, rfl⟩
      · exact ⟨_, rfl⟩
      · simp only [not_or, ne_eq, not_not] at hid
        obtain ⟨hbrowser, hstream, hle⟩ := hid
        exact absurd ⟨_, addressed_active hadm hb ⟨hb.1, hbrowser, hstream⟩ (by omega)⟩ ha
      · exact ⟨_, rfl⟩

theorem advance_complete (now : Int) (o : Observation) : (L.advance h now o).2 ≠ .error .incompleteDurableChain := by
  have breakOff_complete (cause : Cause) {code : IngestError} (hcode : code ≠ .incompleteDurableChain) :
      (L.breakOff h now cause o code).2 ≠ .error .incompleteDurableChain := by
    unfold breakOff
    cases L.rupture with
    | some r => simp
    | none =>
      simp only
      split_ifs
      · simpa using hcode
      · simp
  unfold advance
  cases L.commitAt L.active o.sequence.value with
  | some c =>
    simp only
    split_ifs
    · simp
    · exact breakOff_complete _ (by simp)
    · simp
  | none =>
    simp only [commit]
    split_ifs
    · simp
    · simp
    · exact breakOff_complete _ (by simp)

theorem apply_complete (now : Int) (o : Observation) : (L.apply h now o).2 ≠ .error .incompleteDurableChain := by
  unfold Ledger.apply
  cases hadm : admissible h o with
  | error e =>
    intro he
    cases he
    unfold admissible at hadm
    split_ifs at hadm <;> cases hadm
  | ok u =>
    simp only
    split_ifs
    · simp
    · simp
    · exact advance_complete now o
    · simp

theorem bindGeneration_cases (hs : L.Sound h) :
    (∃ e, bindGeneration h o (L.tables h) = .error e ∧ e ≠ .conflict) ∨
      bindGeneration h o (L.tables h) = .ok (L.activeRow h) := by
  by_cases hb : L.bound o
  · rw [bindGeneration_tables hs hb]
    split_ifs
    · exact .inl ⟨_, rfl, by simp⟩
    · exact .inl ⟨_, rfl, by simp⟩
    · exact .inr rfl
  · exact .inl ⟨_, bindGeneration_unbound hs hb, by simp⟩

theorem Sound.decided (hs : L.Sound h) (now : Int) (o : Observation) : Decided h (L.tables h) now o where
  stored current ha := by
    have hcur := (addressed_tables ha).2.2.2
    subst hcur
    rw [rawAt_active hs, activeRow_position, highest_tables hs, Option.isSome_map]
    cases hf : L.commitAt L.active o.sequence.value with
    | some c => simpa using commitAt_le hs hf
    | none =>
      have hlt := commitAt_none hs o.sequencePos hf
      simpa using hlt
  commits current ha hc := by
    have hcur := (addressed_tables ha).2.2.2
    subst hcur
    obtain ⟨hq, hcom⟩ := (committable_tables hs).mp hc
    rw [apply_tables hs, apply_addressed ha, advance_commits hs hq hcom, activeRow_position, nextCommit_tables hs,
      tables_append_applied]
    rfl
  repeats current raw ha hraw hsame := by
    have hcur := (addressed_tables ha).2.2.2
    subst hcur
    obtain ⟨c, hf, rfl⟩ := raw_active hs hraw
    obtain ⟨hc, hk, hq⟩ := commitAt_some hf
    have hack := ackAt_commit hs hc
    rw [hk, hq] at hack
    refine ⟨ack c, by rw [activeRow_position]; exact hack, ?_⟩
    have hsame : c.payload.contentHash = o.contentHash.value := hsame
    have hadv : L.advance h now o = (L, .ok (ack c)) := by
      unfold advance
      rw [hf]
      exact if_pos hsame
    rw [apply_tables hs, apply_addressed ha, hadv]
  conflicts current k raw ha hb hraw hne := by
    have hcur := (addressed_tables ha).2.2.2
    subst hcur
    obtain ⟨c, hf, rfl⟩ := raw_active hs hraw
    obtain ⟨hr, rfl, ht, hd⟩ := breakable_tables.mp hb
    rw [apply_tables hs, apply_addressed ha, advance_conflicts hs hf hne hr ht hd]
    exact congrArg (·, _) (@breached_tables _ _ _ _ hs hr (some c)).symm
  gaps current k ha hb hgap := by
    have hcur := (addressed_tables ha).2.2.2
    subst hcur
    obtain ⟨hr, rfl, ht, hd⟩ := breakable_tables.mp hb
    rw [activeRow_position, highest_tables hs] at hgap
    rw [apply_tables hs, apply_addressed ha, advance_gaps hs hgap hr ht hd]
    exact congrArg (·, _) (@breached_tables _ _ _ _ hs hr none).symm
  refuses hno := by
    obtain ⟨e, he⟩ := apply_refuses hs hno
    rw [apply_tables hs, he]
    exact ⟨e, rfl⟩
  unconflicted := by
    rcases bindGeneration_cases (o := o) hs with ⟨e, he, hne⟩ | hok
    · rw [he]
      simpa using hne
    · rw [hok]
      simp
  acknowledged current raw hbind hraw := by
    rcases bindGeneration_cases (o := o) hs with ⟨e, he, -⟩ | hok
    · rw [he] at hbind
      cases hbind
    · rw [hok] at hbind
      cases hbind
      obtain ⟨c, hf, rfl⟩ := raw_active hs hraw
      obtain ⟨hc, hk, hq⟩ := commitAt_some hf
      have hack := ackAt_commit hs hc
      rw [hk, hq] at hack
      rw [activeRow_position, hack]
      rfl
  complete := by
    rw [apply_tables hs]
    exact apply_complete now o

end Ledger

/-- In every store a run of the Ingestor reaches, apply is decided so. -/
theorem apply_decided {h : Hashes} {c : Context} {t : Int} {db : Db Int} (hc : createOfflineRun h c t = .ok db)
    (ops : List Op) (now : Int) (o : Observation) : Decided h (runs h db ops) now o := by
  obtain ⟨L, hs, hL⟩ := runs_ledger hc ops
  rw [hL]
  exact hs.decided now o

/-- The gap of the small run, and the observation after it. -/
theorem apply_decided_smallRun :
    (apply smallHashes 14 (smallObservation 0 3 "") (runs smallHashes smallStore (smallRun.take 3))).2 = .error .gap ∧
    Decided smallHashes (runs smallHashes smallStore (smallRun.take 3)) 14 (smallObservation 0 3 "") :=
  ⟨by decide +kernel, apply_decided smallStore_created _ _ _⟩

def smallLifecycle : Observation :=
  let content : ObservationContent := { (smallObservation 0 0 "").toObservationContent with observationKind := .lifecycle }
  ⟨content, plain (smallHashes.rawObservation content)⟩

/-- On a store opened at 10, a gap found at 9 by the clock is not recorded; neither is the
    next observation when it is a LIFECYCLE one. Both name the ACTIVE generation, and the
    controller is open. -/
theorem apply_leaves_smallStore :
    Addressed smallHashes smallStore (smallObservation 0 2 "") ((Ledger.fresh smallContext 10).activeRow smallHashes) ∧
    controllerOpen smallStore ((Ledger.fresh smallContext 10).activeRow smallHashes)
      ((Ledger.fresh smallContext 10).controllerRow smallHashes) ∧
    Db.highest smallStore ⟨smallContext.stream, 0⟩ + 1 < (smallObservation 0 2 "").sequence.value ∧
    apply smallHashes 9 (smallObservation 0 2 "") smallStore = (smallStore, .error (.store .integrity)) ∧
    (runBound smallStore smallLifecycle ∧ lookupGeneration smallLifecycle smallStore =
      [(Ledger.fresh smallContext 10).activeRow smallHashes]) ∧
    smallLifecycle.sequence.value = Db.highest smallStore ⟨smallContext.stream, 0⟩ + 1 ∧
    apply smallHashes 11 smallLifecycle smallStore = (smallStore, .error .observationSemantics) := by
  refine ⟨⟨by decide, by decide, by decide, by decide⟩, ⟨by decide, .inl (by decide)⟩, by decide, by decide +kernel,
    ⟨by decide, by decide⟩, by decide, by decide +kernel⟩

end BettingHelper.Ingest
