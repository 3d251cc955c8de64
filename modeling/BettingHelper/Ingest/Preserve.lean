/-
  BettingHelper.Ingest.Preserve — an operation leaves a sound ledger sound, and a run of
  operations on a fresh store only ever reaches the tables of a sound ledger
  (`runs_ledger`).
-/

import BettingHelper.Ingest.Refinement

namespace BettingHelper.Ingest

open BettingHelper.Store BettingHelper.Lib

theorem Confirmed.mono {log log' : List Commit} (hsub : ∀ c ∈ log, c ∈ log') {l : List Confirmation}
    (hl : Confirmed log l) : Confirmed log' l := by
  induction hl with
  | nil => exact .nil
  | snoc _ hc hp hlt ih =>
    obtain ⟨c, hm, hk⟩ := hc
    exact .snoc ih ⟨c, hsub c hm, hk⟩ hp hlt

namespace Ledger

variable {h : Hashes} {L : Ledger}

/-! ## One operation -/

theorem active_cases : (L.rupture = none ∧ L.active = 0) ∨ (∃ r, L.rupture = some r) ∧ L.active = 1 := by
  unfold active
  cases L.rupture with
  | none => exact .inl ⟨rfl, rfl⟩
  | some r => exact .inr ⟨⟨r, rfl⟩, rfl⟩

theorem append_applied_sound (hs : L.Sound h) {c : Commit} (hk : c.key = L.position L.active)
    (hq : c.seq = Chain.height L.log c.key + 1) (hp : c.prior = Chain.head h0 L.log c.key)
    (hx : c.cursor = chainStep h c.key c.seq c.payload c.prior) (hnew : ∀ d ∈ L.log, d.cursor ≠ c.cursor) :
    (L.append c false).Sound h := by
  have hlog := log_append_applied (L := L) c
  refine ⟨hs.created, hs.firstGeneration, ?_, ?_, ?_, ?_, ?_, ?_, ?_⟩
  · rw [hlog]
    exact .snoc hs.linked hq hp hx
  · rw [hlog, List.map_append, List.nodup_append]
    refine ⟨hs.cursors, by simp, ?_⟩
    intro a ha b hb
    obtain ⟨d, hd, rfl⟩ := List.mem_map.mp ha
    simp only [List.map_cons, List.map_nil, List.mem_singleton] at hb
    rw [hb]
    exact hnew d hd
  · intro d hd
    rw [hlog, List.mem_append, List.mem_singleton] at hd
    rcases hd with hd | rfl
    · exact hs.keys d hd
    · rcases active_cases (L := L) with ⟨-, ha⟩ | ⟨⟨r, hr⟩, ha⟩
      · exact .inl (by rw [hk, ha]; rfl)
      · exact .inr ⟨by rw [append, hr]; rfl, by rw [hk, ha]; rfl⟩
  · intro e he hl
    rcases List.mem_append.mp he with he | he
    · exact hs.repairs e he hl
    · rw [List.mem_singleton.mp he] at hl
      cases hl
  · intro r hr
    obtain ⟨h1, h2, h3⟩ := hs.ruptured r hr
    refine ⟨h1, h2, ?_⟩
    have hr' : L.rupture = some r := hr
    have ha : L.active = 1 := by simp [active, hr']
    have hne : c.key ≠ L.position 0 := by
      rw [hk, ha]
      simp [position]
    rw [hlog]
    exact h3.trans (Chain.height_snoc_ne hne).symm
  · intro r hr
    have hc := hs.caused r hr
    cases he : r.cause with
    | missing => simpa only [he] using hc
    | conflict existing o =>
      simp only [he] at hc ⊢
      obtain ⟨d, hd, hd'⟩ := hc
      exact ⟨d, by rw [hlog]; exact List.mem_append_left _ hd, hd'⟩
  · refine Confirmed.mono (fun d hd => ?_) hs.confirmed
    rw [hlog]
    exact List.mem_append_left _ hd

theorem append_late_sound (hs : L.Sound h) {now : Int} {o : Observation} (hr : L.repairable o) :
    (L.append (L.lateCommit h now o) true).Sound h := by
  have hlog := log_append_late (L := L) (L.lateCommit h now o)
  obtain ⟨-, -, r, hrup, hmiss, hlo, hhi, -⟩ := hr
  refine ⟨hs.created, hs.firstGeneration, ?_, ?_, ?_, ?_, ?_, ?_, ?_⟩
  · rw [hlog]; exact hs.linked
  · rw [hlog]; exact hs.cursors
  · rw [hlog]; exact hs.keys
  · intro e he hl
    rcases List.mem_append.mp he with he | he
    · exact hs.repairs e he hl
    · rw [List.mem_singleton.mp he]
      exact ⟨rfl, r, hrup, hmiss, hlo, hhi⟩
  · rw [hlog]; exact hs.ruptured
  · rw [hlog]; exact hs.caused
  · rw [hlog]; exact hs.confirmed

theorem rupture_sound (hs : L.Sound h) (hn : L.rupture = none) {r : Rupture} (ht : L.createdAtUs ≤ r.atUs)
    (hd : r.digest ≠ L.identity h) (hh : r.highest = Chain.height L.log (L.position 0))
    (hc : match r.cause with
      | .missing => r.highest + 1 < r.sequence
      | .conflict existing _ => ∃ c ∈ L.log, c.key = L.position 0 ∧ c.seq = r.sequence ∧ c.cursor = existing) :
    ({ L with rupture := some r } : Ledger).Sound h := by
  refine ⟨hs.created, hs.firstGeneration, hs.linked, hs.cursors, ?_, ?_, ?_, ?_, hs.confirmed⟩
  · intro c hcl
    rcases hs.keys c hcl with hk | ⟨hsome, -⟩
    · exact .inl hk
    · rw [hn] at hsome
      cases hsome
  · intro e he hl
    obtain ⟨-, r', hr', -⟩ := hs.repairs e he hl
    rw [hn] at hr'
    cases hr'
  · intro r' hr'
    cases hr'
    exact ⟨ht, hd, hh⟩
  · intro r' hr'
    cases hr'
    exact hc

theorem confirm_sound (hs : L.Sound h) {c : Commit} (hc : c ∈ L.log) {now : Int}
    (hlt : ∀ p ∈ L.lastConfirmation c.key, p.sequence < c.seq) : (L.confirm now (ack c)).1.Sound h := by
  unfold confirm
  split_ifs with ht
  · exact ⟨hs.created, hs.firstGeneration, hs.linked, hs.cursors, hs.keys, hs.repairs, hs.ruptured, hs.caused,
      .snoc hs.confirmed ⟨c, hc, rfl, rfl, rfl⟩ rfl hlt⟩
  · exact hs

theorem breakOff_sound (hs : L.Sound h) {now : Int} {cause : Cause} {o : Observation} {code : IngestError}
    (hc : L.rupture = none → match cause with
      | .missing => Chain.height L.log (L.position 0) + 1 < o.sequence.value
      | .conflict existing _ => ∃ c ∈ L.log, c.key = L.position 0 ∧ c.seq = o.sequence.value ∧ c.cursor = existing) :
    (L.breakOff h now cause o code).1.Sound h := by
  unfold breakOff
  cases hr : L.rupture with
  | some r => exact hs
  | none =>
    simp only
    split_ifs with hok
    · exact rupture_sound hs hr hok.1 hok.2 rfl (hc hr)
    · exact hs

theorem advance_sound (hs : L.Sound h) (now : Int) (o : Observation) : (L.advance h now o).1.Sound h := by
  unfold advance
  cases hf : L.commitAt L.active o.sequence.value with
  | some c =>
    obtain ⟨hc, hk, hq⟩ := commitAt_some hf
    simp only
    split_ifs with hsame hrec
    · exact hs
    · refine breakOff_sound hs fun hr => ⟨c, hc, ?_, hq, rfl⟩
      have ha : L.active = 0 := by simp [active, hr]
      rw [hk, ha]
    · exact hs
  | none =>
    have hlt := commitAt_none hs o.sequencePos hf
    simp only
    split_ifs with hq
    · unfold commit
      split_ifs with hok
      · exact append_applied_sound hs rfl hq rfl rfl hok.2.1
      · exact hs
    · refine breakOff_sound hs fun hr => ?_
      have ha : L.active = 0 := by simp [active, hr]
      rw [ha] at hlt hq
      change Chain.height L.log (L.position 0) + 1 < o.sequence.value
      omega

theorem apply_sound (hs : L.Sound h) (now : Int) (o : Observation) : (L.apply h now o).1.Sound h := by
  unfold apply
  cases admissible h o with
  | error e => exact hs
  | ok _ =>
    simp only
    split_ifs
    · exact hs
    · exact hs
    · exact advance_sound hs now o
    · exact hs

theorem confirmAck_sound (hs : L.Sound h) (now : Int) (arg : AckArg) : (L.confirmAck now arg).1.Sound h := by
  unfold confirmAck
  cases arg with
  | malformed => exact hs
  | row a =>
    simp only
    by_cases ha : a ∈ L.log.map ack
    · rw [if_neg (not_not.mpr ha)]
      obtain ⟨c, hc, rfl⟩ := List.mem_map.mp ha
      cases hl : L.lastConfirmation (ack c).position with
      | none =>
        refine confirm_sound hs hc fun p hp => ?_
        rw [show L.lastConfirmation c.key = none from hl] at hp
        cases hp
      | some p =>
        simp only
        split_ifs with hreg heq
        · exact hs
        · exact hs
        · refine confirm_sound hs hc fun q hq => ?_
          rw [show L.lastConfirmation c.key = some p from hl, Option.mem_some_iff] at hq
          subst hq
          have hle : (ack c).highestContiguousSequence = c.seq := rfl
          omega
    · rw [if_pos ha]
      exact hs

theorem storeLateRepair_sound (hs : L.Sound h) (now : Int) (o : Observation) : (L.storeLateRepair h now o).1.Sound h := by
  unfold storeLateRepair
  split_ifs with hhash hrange hb hr hst
  · exact hs
  · exact hs
  · exact append_late_sound hs hr
  · exact hs
  · exact hs
  · exact hs

end Ledger

/-! ## What an operation can do to a ledger -/

namespace Ledger

/-- Everything an operation can change. -/
inductive Change (L : Ledger) : Ledger → Prop
  | same : Change L L
  | applied (c : Commit) : c.key = L.position L.active → Change L (L.append c false)
  | late (c : Commit) : Change L (L.append c true)
  | ruptured (r : Rupture) : L.rupture = none → Change L { L with rupture := some r }
  | confirmed (a : Confirmation) : Change L { L with confirmations := L.confirmations ++ [a] }

variable {h : Hashes} {L : Ledger}

theorem breakOff_change (now : Int) (cause : Cause) (o : Observation) (code : IngestError) :
    L.Change (L.breakOff h now cause o code).1 := by
  unfold breakOff
  cases hr : L.rupture with
  | some r => exact .same
  | none =>
    simp only
    split_ifs
    · exact .ruptured _ hr
    · exact .same

theorem advance_change (now : Int) (o : Observation) : L.Change (L.advance h now o).1 := by
  unfold advance
  cases L.commitAt L.active o.sequence.value with
  | some c =>
    simp only
    split_ifs
    · exact .same
    · exact breakOff_change now _ o _
    · exact .same
  | none =>
    simp only [commit]
    split_ifs
    · exact .applied _ rfl
    · exact .same
    · exact breakOff_change now _ o _

theorem apply_change (now : Int) (o : Observation) : L.Change (L.apply h now o).1 := by
  unfold apply
  cases admissible h o with
  | error e => exact .same
  | ok _ =>
    simp only
    split_ifs
    · exact .same
    · exact .same
    · exact advance_change now o
    · exact .same

theorem confirm_change (now : Int) (a : AckOutbox Int) : L.Change (L.confirm now a).1 := by
  unfold confirm
  split_ifs
  · exact .confirmed _
  · exact .same

theorem confirmAck_change (now : Int) (arg : AckArg) : L.Change (L.confirmAck now arg).1 := by
  unfold confirmAck
  cases arg with
  | malformed => exact .same
  | row a =>
    simp only
    split
    · exact .same
    · cases L.lastConfirmation a.position with
      | none => exact confirm_change now a
      | some p =>
        simp only
        split_ifs
        · exact .same
        · exact .same
        · exact confirm_change now a

theorem storeLateRepair_change (now : Int) (o : Observation) : L.Change (L.storeLateRepair h now o).1 := by
  unfold storeLateRepair
  split_ifs
  all_goals first | exact .same | exact .late _

theorem Change.context {L' : Ledger} (hc : L.Change L') : L'.context = L.context := by
  cases hc <;> rfl

theorem Change.createdAtUs {L' : Ledger} (hc : L.Change L') : L'.createdAtUs = L.createdAtUs := by
  cases hc <;> rfl

theorem Change.stream {L' : Ledger} (hc : L.Change L') : L'.stream = L.stream := congrArg Context.stream hc.context

end Ledger

/-! ## Runs -/

/-- A call of the Ingestor, with the clock it reads. -/
inductive Op where
  | apply (now : Int) (o : Observation)
  | confirmAck (now : Int) (arg : AckArg)
  | storeLateRepair (now : Int) (o : Observation)

/-- The tables after a call, whether it returned or raised. -/
def Op.step (h : Hashes) (db : Db Int) : Op → Db Int
  | .apply now o => (Ingest.apply h now o db).1
  | .confirmAck now arg => (Ingest.confirmAck h now arg db).1
  | .storeLateRepair now o => (Ingest.storeLateRepair h now o db).1

def runs (h : Hashes) (db : Db Int) (ops : List Op) : Db Int := ops.foldl (Op.step h) db

def Op.onLedger (h : Hashes) (L : Ledger) : Op → Ledger
  | .apply now o => (L.apply h now o).1
  | .confirmAck now arg => (L.confirmAck now arg).1
  | .storeLateRepair now o => (L.storeLateRepair h now o).1

variable {h : Hashes}

theorem Op.onLedger_sound {L : Ledger} (hs : L.Sound h) (op : Op) : (op.onLedger h L).Sound h := by
  cases op with
  | apply now o => exact Ledger.apply_sound hs now o
  | confirmAck now arg => exact Ledger.confirmAck_sound hs now arg
  | storeLateRepair now o => exact Ledger.storeLateRepair_sound hs now o

theorem Op.onLedger_change (L : Ledger) (op : Op) : L.Change (op.onLedger h L) := by
  cases op with
  | apply now o => exact Ledger.apply_change now o
  | confirmAck now arg => exact Ledger.confirmAck_change now arg
  | storeLateRepair now o => exact Ledger.storeLateRepair_change now o

theorem Op.step_tables {L : Ledger} (hs : L.Sound h) (op : Op) :
    op.step h (L.tables h) = (op.onLedger h L).tables h := by
  cases op with
  | apply now o => exact congrArg Prod.fst (Ledger.apply_tables hs now o)
  | confirmAck now arg => exact congrArg Prod.fst (Ledger.confirmAck_tables hs now arg)
  | storeLateRepair now o => exact congrArg Prod.fst (Ledger.storeLateRepair_tables hs now o)

theorem runs_tables {L : Ledger} (hs : L.Sound h) (ops : List Op) :
    (ops.foldl (Op.onLedger h) L).Sound h ∧ runs h (L.tables h) ops = (ops.foldl (Op.onLedger h) L).tables h := by
  induction ops generalizing L with
  | nil => exact ⟨hs, rfl⟩
  | cons op ops ih =>
    obtain ⟨h1, h2⟩ := ih (Op.onLedger_sound hs op)
    refine ⟨h1, ?_⟩
    rw [runs, List.foldl_cons, Op.step_tables hs]
    exact h2

/-- Every store a run reaches holds the tables of a sound ledger. -/
theorem runs_ledger {c : Context} {t : Int} {db : Db Int} (hc : createOfflineRun h c t = .ok db) (ops : List Op) :
    ∃ L : Ledger, L.Sound h ∧ runs h db ops = L.tables h := by
  obtain ⟨⟨-, ht, hg⟩, rfl⟩ := Ledger.createOfflineRun_ok.mp hc
  exact ⟨_, runs_tables (Ledger.fresh_sound ht hg) ops⟩

end BettingHelper.Ingest
