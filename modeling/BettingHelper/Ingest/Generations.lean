/-
  BettingHelper.Ingest.Generations — how the generations of a stream follow one another,
  and that a closed one stays as it was.

  Proved (`generations_rotate`): at every point of a run each stream has one ACTIVE
  generation, its largest; the numbers run from 0 without a hole, each naming the one
  before; a generation that is not ACTIVE has one gap record, one transition and one
  epoch binding; and whatever comes after, the rows applied in it are the ones it had, so
  a missing-sequence gap's `ack_blocked_after_sequence` still bounds what was acknowledged.
-/

import BettingHelper.Ingest.Intact

namespace BettingHelper.Ingest

open BettingHelper.Store BettingHelper.Lib

def Db.generations (db : Db Int) (s : StreamKey) : List (StreamGeneration Int) :=
  db.streamGenerations.filter (·.position.stream = s)

/-- One gap record closes the generation, with one transition and one binding of its own. -/
def ClosedOnce (db : Db Int) (p : Position) : Prop :=
  ∃ gap, db.gapRecords.filter (fun r => r.stream = p.stream ∧ r.predecessorGeneration = p.generation) = [gap] ∧
    (∃ t, db.generationTransitions.filter (fun r => r.stream = p.stream ∧ r.predecessorGeneration = p.generation) = [t] ∧
      t.gapId = gap.gapId) ∧
    ∃ b, db.gapEpochBindings.filter (·.gapId = gap.gapId) = [b]

structure Rotated (db : Db Int) : Prop where
  active : ∀ g ∈ db.streamGenerations, ∃ a,
    (Db.generations db g.position.stream).filter (·.generationState = .active) = [a] ∧
    g.position.generation ≤ a.position.generation
  contiguous : ∀ s, (Db.generations db s).map (·.position.generation) = List.range (Db.generations db s).length
  predecessor : ∀ g ∈ db.streamGenerations, g.predecessorGeneration =
    if g.position.generation = 0 then none else some (g.position.generation - 1)
  closed : ∀ g ∈ db.streamGenerations, g.generationState ≠ .active → ClosedOnce db g.position

/-- The highest number acknowledged in a generation, 0 if none. -/
def Db.highestAck (db : Db Int) (p : Position) : Nat :=
  ((db.ackOutbox.filter (·.position = p)).map (·.highestContiguousSequence)).foldl max 0

/-- The rows applied at a position are the same in both. -/
structure SameApplied (p : Position) (db db' : Db Int) : Prop where
  raw : Db.appliedAt db' p = Db.appliedAt db p
  application : db'.applicationRecords.filter (·.position = p) = db.applicationRecords.filter (·.position = p)
  revision : db'.derivedRevisions.filter (·.position = p) = db.derivedRevisions.filter (·.position = p)
  cursor : db'.reducerCursors.filter (·.position = p) = db.reducerCursors.filter (·.position = p)
  ack : db'.ackOutbox.filter (·.position = p) = db.ackOutbox.filter (·.position = p)

namespace Ledger

variable {h : Hashes} {L : Ledger}

/-! ## The generations of a ledger -/

theorem generations_tables (s : StreamKey) :
    Db.generations (L.tables h) s = if s = L.stream then L.generationRows h else [] := by
  rcases L with ⟨ctx, t, es, _ | r, cs⟩ <;> by_cases e : s = ctx.stream
  all_goals simp [Db.generations, tables, generationRows, position, stream, e, eq_comm]

theorem rotated : Rotated (L.tables h) where
  active g hg := by
    have hk : g.position.stream = L.stream := by
      rcases mem_generationRows hg with ⟨hp, -⟩ | ⟨hp, -⟩ <;> rw [hp] <;> rfl
    rw [generations_tables, if_pos hk]
    rcases L with ⟨ctx, t, es, _ | ⟨_ | ⟨x, y⟩, hi, n, d, u⟩, cs⟩ <;>
      simp only [tables, generationRows, List.mem_cons, List.not_mem_nil, or_false] at hg
    · subst hg
      exact ⟨_, rfl, Nat.le_refl _⟩
    all_goals
      refine ⟨_, rfl, ?_⟩
      rcases hg with rfl | rfl <;> simp [position]
  contiguous s := by
    rw [generations_tables]
    split
    · rcases L with ⟨ctx, t, es, _ | r, cs⟩ <;> rfl
    · rfl
  predecessor g hg := by
    rcases L with ⟨ctx, t, es, _ | r, cs⟩ <;>
      simp only [tables, generationRows, List.mem_cons, List.not_mem_nil, or_false] at hg
    · subst hg
      rfl
    · rcases hg with rfl | rfl <;> rfl
  closed g hg hst := by
    have hr : g.position = L.position 0 ∧ L.rupture.isSome := by
      rcases mem_generationRows hg with ⟨hp, hiff⟩ | ⟨-, ha, -⟩
      · exact ⟨hp, hiff.mp hst⟩
      · exact absurd ha hst
    obtain ⟨hp, hr⟩ := hr
    obtain ⟨r, hr⟩ := Option.isSome_iff_exists.mp hr
    rw [hp]
    refine ⟨r.gapRow L.stream, ?_, ⟨r.generationTransitionRow L.stream, ?_, ?_⟩, r.bindingRow (L.identity h), ?_⟩
    all_goals
      rcases r with ⟨_ | ⟨x, y⟩, hi, n, d, u⟩
      all_goals simp [tables, hr, position, Rupture.gapRow, Rupture.generationTransitionRow, Rupture.bindingRow]

/-! ## A closed generation -/

/-- After the rupture, an operation leaves generation 0 as it is. -/
theorem Change.frozen {L' : Ledger} (hc : L.Change L') {r : Rupture} (hr : L.rupture = some r) :
    L'.rupture = some r ∧ Chain.chainOf L'.log (L.position 0) = Chain.chainOf L.log (L.position 0) := by
  cases hc with
  | same => exact ⟨hr, rfl⟩
  | applied c hk =>
    have ha : L.active = 1 := by simp [active, hr]
    have hne : c.key ≠ L.position 0 := by
      rw [hk, ha]
      simp [position]
    rw [log_append_applied]
    exact ⟨hr, Chain.chainOf_snoc_ne hne⟩
  | late c =>
    rw [log_append_late]
    exact ⟨hr, rfl⟩
  | ruptured r' hn =>
    rw [hn] at hr
    cases hr
  | confirmed a => exact ⟨hr, rfl⟩

theorem sameApplied_tables {L' : Ledger} {p : Position} (hc : Chain.chainOf L'.log p = Chain.chainOf L.log p) :
    SameApplied p (L.tables h) (L'.tables h) where
  raw := by rw [appliedAt_tables, appliedAt_tables, hc]
  application := by
    change (L'.log.map application).filter _ = (L.log.map application).filter _
    rw [filter_rows application (·.position) fun _ => rfl, filter_rows application (·.position) fun _ => rfl, hc]
  revision := by
    change (L'.log.map Ingest.revision).filter _ = (L.log.map Ingest.revision).filter _
    rw [filter_rows Ingest.revision (·.position) fun _ => rfl, filter_rows Ingest.revision (·.position) fun _ => rfl, hc]
  cursor := by
    change (L'.log.map reducer).filter _ = (L.log.map reducer).filter _
    rw [filter_rows reducer (·.position) fun _ => rfl, filter_rows reducer (·.position) fun _ => rfl, hc]
  ack := by
    change (L'.log.map Ingest.ack).filter _ = (L.log.map Ingest.ack).filter _
    rw [filter_rows Ingest.ack (·.position) fun _ => rfl, filter_rows Ingest.ack (·.position) fun _ => rfl, hc]

theorem highestAck_tables (hs : L.Sound h) (p : Position) : Db.highestAck (L.tables h) p = Chain.height L.log p := by
  unfold Db.highestAck
  change (((L.log.map Ingest.ack).filter _).map _).foldl max 0 = _
  rw [filter_rows Ingest.ack (·.position) fun _ => rfl, List.map_map]
  exact Chain.seqs_max hs.linked p

end Ledger

/-! ## Runs -/

variable {h : Hashes}

/-- From the rupture on, a run leaves generation 0 as it is. -/
theorem ops_frozen (ops : List Op) {L : Ledger} {r : Rupture} (hr : L.rupture = some r) :
    (ops.foldl (Op.onLedger h) L).rupture = some r ∧ (ops.foldl (Op.onLedger h) L).stream = L.stream ∧
      Chain.chainOf (ops.foldl (Op.onLedger h) L).log (L.position 0) = Chain.chainOf L.log (L.position 0) := by
  induction ops generalizing L with
  | nil => exact ⟨hr, rfl, rfl⟩
  | cons op ops ih =>
    have hc := Op.onLedger_change (h := h) L op
    obtain ⟨h1, h2⟩ := hc.frozen hr
    have hp : (op.onLedger h L).position 0 = L.position 0 := by rw [Ledger.position, hc.stream]; rfl
    obtain ⟨h3, h4, h5⟩ := ih h1
    rw [hp] at h5
    exact ⟨h3, h4.trans hc.stream, h5.trans h2⟩

/-- What is recorded of a generation when it is closed holds of the rest of the run. -/
theorem generations_rotate {c : Context} {t : Int} {db : Db Int} (hc : createOfflineRun h c t = .ok db)
    (ops more : List Op) :
    Rotated (runs h db ops) ∧
    ∀ g ∈ (runs h db ops).streamGenerations, g.generationState ≠ .active →
      SameApplied g.position (runs h db ops) (runs h db (ops ++ more)) ∧
      ∀ gap ∈ (runs h db ops).gapRecords, gap.stream = g.position.stream →
        gap.predecessorGeneration = g.position.generation → gap.gapReason = .missingSequence →
        Db.highestAck (runs h db (ops ++ more)) g.position ≤ gap.ackBlockedAfterSequence := by
  obtain ⟨L, hs, hL⟩ := runs_ledger hc ops
  have hmore : runs h db (ops ++ more) = runs h (runs h db ops) more := List.foldl_append
  obtain ⟨hs', hL'⟩ := runs_tables hs more
  rw [hmore, hL, hL']
  refine ⟨Ledger.rotated, fun g hg hst => ?_⟩
  have hr : g.position = L.position 0 ∧ L.rupture.isSome := by
    rcases Ledger.mem_generationRows hg with ⟨hp, hiff⟩ | ⟨-, ha, -⟩
    · exact ⟨hp, hiff.mp hst⟩
    · exact absurd ha hst
  obtain ⟨hp, hr⟩ := hr
  obtain ⟨r, hr⟩ := Option.isSome_iff_exists.mp hr
  obtain ⟨-, -, hsame⟩ := ops_frozen (h := h) more hr
  rw [hp]
  refine ⟨Ledger.sameApplied_tables hsame, ?_⟩
  intro gap hgap _ _ hreason
  have hheight : Chain.height (more.foldl (Op.onLedger h) L).log (L.position 0) = r.highest := by
    rw [(hs.ruptured r hr).2.2]
    exact congrArg List.length hsame
  rw [Ledger.highestAck_tables hs', hheight]
  have hrow : gap = r.gapRow L.stream := by simpa [Ledger.tables, hr] using hgap
  rcases r with ⟨_ | ⟨x, y⟩, hi, n, d, u⟩
  · rw [hrow]
    exact Nat.le_refl _
  · rw [hrow] at hreason
    cases hreason

/-- After the gap of the small run generation 0 is closed, and the rest of the run does not touch it. -/
theorem generations_rotate_smallRun :
    (∃ g ∈ (runs smallHashes smallStore (smallRun.take 4)).streamGenerations, g.generationState ≠ .active) ∧
    Rotated (runs smallHashes smallStore (smallRun.take 4)) ∧
    ∀ g ∈ (runs smallHashes smallStore (smallRun.take 4)).streamGenerations, g.generationState ≠ .active →
      SameApplied g.position (runs smallHashes smallStore (smallRun.take 4))
        (runs smallHashes smallStore (smallRun.take 4 ++ smallRun.drop 4)) :=
  have hr := generations_rotate smallStore_created (smallRun.take 4) (smallRun.drop 4)
  ⟨by decide +kernel, hr.1, fun g hg hst => (hr.2 g hg hst).1⟩

end BettingHelper.Ingest
