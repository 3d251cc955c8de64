/-
  BettingHelper.Delivery.Site — what holds of a run directory between any two writes.

  `Site w h d L`: the store of `d` is the ledger `L`'s, the journal's rows are a journal,
  and each thing on disk is backed by the file it came from: a commit and the rupture by
  the raw file of their observation, a RECEIVED row by its raw file, a PARTIAL_TAIL row by
  the file set aside.

  Every write of a call keeps it (`apply_writes`, `repairTail_writes`, `confirmed`), so it
  holds after a crash as well. `settle_eq` and `iterOperations_eq` say what `reconcile`
  finds there.
-/

import BettingHelper.Delivery.TailRepair
import BettingHelper.Delivery.Verdict

namespace BettingHelper.Delivery

open BettingHelper.Store BettingHelper.Ingest BettingHelper.Lib BettingHelper.Lib.Crash

/-- The file a row speaks of is there. -/
def Backed (w : Wire) (d : Disk) : Body → Prop
  | .received _ x => ∃ o, d.rawFile x.rawHash = some o ∧ o.contentHash = plain x.rawHash ∧
      o.generation = x.generation ∧ o.sequence = x.sequence
  | .partialTail artifact artifactSha256 => artifact = artifactSha256 ∧
      ∃ f, d.retained.find? (·.1 = artifact) = some (artifact, f) ∧ f.size w ≤ maximum ∧ w.fileHash f = artifactSha256
  | _ => True

structure Site (w : Wire) (h : Hashes) (d : Disk) (L : Ledger) : Prop where
  sound : L.Sound h
  tables : d.db = L.tables h
  context : L.context = d.context
  /-- Everything is applied in generation 0. -/
  first : ∀ e ∈ L.entries, e.late = false ∧ e.commit.key = L.position 0
  commits : ∀ c ∈ L.log, ∃ o, d.rawFile c.payload.contentHash = some o ∧ o.sequence.value = c.seq ∧ Taken L o
  rupture : ∀ r ∈ L.rupture, ∃ o, d.rawFile r.digest = some o ∧ o.sequence.value = r.sequence ∧ Taken L o
  synthetic : ∀ o ∈ d.raw, validateSyntheticObservation h d.context o = .ok ()
  rows : ValidRows w d.journalRows
  backed : ∀ r ∈ d.journalRows, Backed w d r.body

variable {w : Wire} {h : Hashes} {d : Disk} {L : Ledger} {rs : List Row}

theorem site_fresh {c : Context} {t : Int} {db : Db Int} (hc : createOfflineRun h c t = .ok db) :
    Site w h (.fresh c db) (Ledger.fresh c t) := by
  obtain ⟨⟨-, ht, hg⟩, rfl⟩ := Ledger.createOfflineRun_ok.mp hc
  refine ⟨Ledger.fresh_sound ht hg, rfl, rfl, ?_, ?_, ?_, ?_, rfl, ?_⟩
  all_goals exact fun _ hx => nomatch hx

theorem rawFile_mem {x : Digest} {o : Observation} (hf : d.rawFile x = some o) : o ∈ d.raw ∧ o.contentHash.value = x := by
  have hp := List.find?_some hf
  exact ⟨List.mem_of_find?_eq_some hf, by simpa using hp⟩

namespace Site

/-! ## One write -/

/-- Rows before a place of the journal, or one more row that is backed. -/
theorem holding (hs : Site w h d L) {f : JournalFile} (hv : ValidRows w f.rows)
    (hb : ∀ r ∈ f.rows, r ∈ d.journalRows ∨ Backed w d r.body) : Site w h (d.holding f) L where
  sound := hs.sound
  tables := hs.tables
  context := hs.context
  first := hs.first
  commits := hs.commits
  rupture := hs.rupture
  synthetic := hs.synthetic
  rows := hv
  backed r hr := (hb r hr).elim (hs.backed r) id

theorem appended (hs : Site w h d L) (hr : Delivery.rows w d = .ok rs) {b : Body} (href : (readingOf rs).refers b)
    (hb : Backed w d b) : Site w h (d.holding ⟨rs ++ [nextRow w rs b], []⟩) L := by
  refine hs.holding (validRows_next (rows_ok hr).1 href) fun r hm => ?_
  rcases List.mem_append.mp hm with hm | hm
  · rw [rows_journalRows hr]
    exact .inl hm
  · rw [List.mem_singleton.mp hm]
    exact .inr hb

/-- Every state while a row is appended. -/
theorem appending (hs : Site w h d L) (hr : Delivery.rows w d = .ok rs) {b : Body} (href : (readingOf rs).refers b)
    (hb : Backed w d b) {x : Place × Disk} (hx : x ∈ appendWrites w b rs d) : Site w h x.2 L := by
  simp only [appendWrites, List.mem_append, List.mem_map, List.mem_range, List.mem_singleton] at hx
  rcases hx with (hx | ⟨n, -, rfl⟩) | rfl
  · split at hx
    · rw [List.mem_singleton.mp hx]
      exact hs.holding rfl fun r hm => by cases hm
    · cases hx
  · refine hs.holding (rows_ok hr).1 fun r hm => .inl ?_
    rw [rows_journalRows hr]
    exact hm
  · exact hs.appended hr href hb

theorem append (hs : Site w h d L) {b : Body} (href : ∀ rs, Delivery.rows w d = .ok rs → (readingOf rs).refers b)
    (hb : Backed w d b) : Meets (Delivery.append w b) d (fun _ s => Site w h s L) (fun _ s => Site w h s L)
      (fun _ s => Site w h s L) := by
  by_cases hok : (∃ e, Delivery.rows w d = .error e) ∨ ¬b.dumpable
  · obtain ⟨e, he⟩ := append_refused hok
    refine ⟨?_, ?_, ?_⟩
    · rw [he]; intro x hx; cases hx
    · rw [he]; intro a ha; cases ha
    · rw [he]; intro _ _; exact hs
  · simp only [not_or, not_exists, not_not] at hok
    obtain ⟨hr, hd⟩ := hok
    cases hr' : Delivery.rows w d with
    | error e => exact absurd hr' (hr e)
    | ok rs =>
      refine ⟨?_, ?_, ?_⟩
      · rw [append_eq hr' hd]
        exact fun x hx => hs.appending hr' (href rs hr') hb hx
      · rw [append_eq hr' hd, Exec.final, appendWrites_final]
        intro _ _
        exact hs.appended hr' (href rs hr') hb
      · rw [append_eq hr' hd]; intro e he; cases he

theorem rawFile_append {x : Digest} {o o' : Observation} (hf : d.rawFile x = some o) :
    Disk.rawFile { d with raw := d.raw ++ [o'] } x = some o := by
  unfold Disk.rawFile at hf ⊢
  rw [List.find?_append, hf]
  rfl

theorem backed_append {b : Body} {o : Observation} (hb : Backed w d b) : Backed w { d with raw := d.raw ++ [o] } b := by
  cases b with
  | received n x =>
    obtain ⟨o', hf, hrest⟩ := hb
    exact ⟨o', rawFile_append hf, hrest⟩
  | outcome n x => trivial
  | ackConfirmation g q x => trivial
  | partialTail a x => exact hb

theorem rawStored (hs : Site w h d L) {o : Observation} (hv : validateSyntheticObservation h d.context o = .ok ()) :
    Site w h { d with raw := d.raw ++ [o] } L where
  sound := hs.sound
  tables := hs.tables
  context := hs.context
  first := hs.first
  commits c hc := by
    obtain ⟨o', hf, hq⟩ := hs.commits c hc
    exact ⟨o', rawFile_append hf, hq⟩
  rupture r hr := by
    obtain ⟨o', hf, hq⟩ := hs.rupture r hr
    exact ⟨o', rawFile_append hf, hq⟩
  synthetic o' ho := by
    rcases List.mem_append.mp ho with ho | ho
    · exact hs.synthetic o' ho
    · rw [List.mem_singleton.mp ho]
      exact hv
  rows := hs.rows
  backed r hr := backed_append (hs.backed r hr)

/-- The store after an apply of an observation whose raw file is there. -/
theorem ingested (hs : Site w h d L) {o : Observation} (hf : d.rawFile o.contentHash.value = some o) (now : Int) :
    Site w h { d with db := (Ingest.apply h now o d.db).1 } (L.apply h now o).1 := by
  have hvd := @apply_verdict _ _ _ _ now hs.sound hs.context (hs.synthetic o (rawFile_mem hf).1)
  have hsound := Ledger.apply_sound hs.sound now o
  have htab : (Ingest.apply h now o d.db).1 = (L.apply h now o).1.tables h := by
    rw [hs.tables, Ledger.apply_tables hs.sound]
  rcases hvd.change with he | ⟨ht, hr, -, -, he, -⟩ | ⟨cause, ht, hr, -, he, -⟩ <;> rw [he] at hsound htab ⊢
  · exact ⟨hsound, htab, hs.context, hs.first, hs.commits, hs.rupture, hs.synthetic, hs.rows, hs.backed⟩
  · refine ⟨hsound, htab, hs.context, ?_, ?_, hs.rupture, hs.synthetic, hs.rows, hs.backed⟩
    · intro e hm
      rcases List.mem_append.mp hm with hm | hm
      · exact hs.first e hm
      · rw [List.mem_singleton.mp hm]
        exact ⟨rfl, by rw [Ledger.nextCommit, active_none hr]; rfl⟩
    · intro c hc
      rw [Ledger.log_append_applied] at hc
      rcases List.mem_append.mp hc with hc | hc
      · exact hs.commits c hc
      · rw [List.mem_singleton.mp hc]
        exact ⟨o, hf, rfl, ht⟩
  · refine ⟨hsound, htab, hs.context, hs.first, hs.commits, ?_, hs.synthetic, hs.rows, hs.backed⟩
    intro r hm
    cases hm
    exact ⟨o, hf, rfl, ht⟩

/-- The store after a confirmation. -/
theorem confirmed (hs : Site w h d L) (arg : AckArg) (now : Int) :
    Site w h { d with db := (Ingest.confirmAck h now arg d.db).1 } (L.confirmAck now arg).1 := by
  have hsame : (L.confirmAck now arg).1 = { L with confirmations := (L.confirmAck now arg).1.confirmations } := by
    unfold Ledger.confirmAck Ledger.confirm
    cases arg with
    | malformed => rfl
    | row a =>
      simp only
      split
      · rfl
      · split
        · split <;> rfl
        · split_ifs <;> rfl
  have hsound := Ledger.confirmAck_sound hs.sound now arg
  have htab : (Ingest.confirmAck h now arg d.db).1 = (L.confirmAck now arg).1.tables h := by
    rw [hs.tables, Ledger.confirmAck_tables hs.sound]
  generalize (L.confirmAck now arg).1 = L' at hsame hsound htab ⊢
  rw [hsame] at hsound htab ⊢
  exact ⟨hsound, htab, hs.context, hs.first, hs.commits, hs.rupture, hs.synthetic, hs.rows, hs.backed⟩

/-! ## apply -/

theorem rawFile_stored {o : Observation} (ha : d.agrees o) : (d.stored o).rawFile o.contentHash.value = some o := by
  unfold Disk.stored
  split
  · rename_i hf
    unfold Disk.rawFile at hf ⊢
    rw [List.find?_append, hf]
    simp
  · rename_i hf
    obtain ⟨o', ho⟩ := Option.ne_none_iff_exists'.mp hf
    rw [ho, ha o' ho]

theorem stored (hs : Site w h d L) {o : Observation} (hv : validateSyntheticObservation h d.context o = .ok ()) :
    Site w h (d.stored o) L := by
  unfold Disk.stored
  split
  · exact hs.rawStored hv
  · exact hs

theorem backed_received {o : Observation} {b : BatchId} (ha : d.agrees o)
    (hv : validateSyntheticObservation h d.context o = .ok ()) : Backed w (d.stored o) (receivedBody rs o b) := by
  refine ⟨o, rawFile_stored ha, ?_, rfl, rfl⟩
  rw [(validate_ok hv).2]
  rfl

theorem received (hs : Site w h d L) (hr : Delivery.rows w d = .ok rs) {o : Observation} {b : BatchId}
    (hv : validateSyntheticObservation h d.context o = .ok ()) (ha : d.agrees o) : Site w h (d.received w rs o b) L :=
  (hs.stored hv).appended ((rows_congr (stored_journal o)).trans hr) (received_refers o b) (backed_received ha hv)

theorem recordOutcome_writes (hs : Site w h d L) {index : Nat} {outcome : Outcome} {o : Option Observation}
    (hp : index ∈ receivedReferences d.journalRows ∧ index ∉ outcomeReferences d.journalRows) :
    ∀ x ∈ (Delivery.recordOutcome w h index outcome o d).writes, Site w h x.2 L := by
  intro x hx
  cases hr : Delivery.rows w d with
  | error e =>
    rw [recordOutcome_unread hr] at hx
    cases hx
  | ok rs =>
    rw [rows_journalRows hr] at hp
    obtain ⟨y, hy⟩ := receivedAt_unique (rows_ok hr).1 hp.1
    have hn := not_not.mp (mt mem_outcomeReferences.mpr hp.2)
    by_cases hrec : Recordable h d y outcome o
    · rw [recordOutcome_eq hr hy hn hrec] at hx
      exact hs.appending hr (outcome_refers (rows_ok hr).1 hp.1 hp.2 outcome) trivial hx
    · obtain ⟨e, he⟩ := recordOutcome_refused hr hy hn hrec
      rw [he] at hx
      cases hx

theorem applyReceived_writes (hs : Site w h d L) {now : Int} {index : Nat} {o : Observation}
    (hf : d.rawFile o.contentHash.value = some o)
    (hp : index ∈ receivedReferences d.journalRows ∧ index ∉ outcomeReferences d.journalRows) :
    ∀ x ∈ (Delivery.applyReceived w h now index o d).writes, Site w h x.2 (L.apply h now o).1 := by
  intro x hx
  have hi : Site w h (d.decided h now o) (L.apply h now o).1 := hs.ingested hf now
  cases hr : Delivery.rows w d with
  | error e =>
    obtain ⟨e', he⟩ := @applyReceived_unread _ h _ now index o _ hr
    rw [he] at hx
    rw [List.mem_singleton.mp hx]
    exact hi
  | ok rs =>
    have hp' := hp
    rw [rows_journalRows hr] at hp'
    obtain ⟨y, hy⟩ := receivedAt_unique (rows_ok hr).1 hp'.1
    have hn := not_not.mp (mt mem_outcomeReferences.mpr hp'.2)
    rcases @applyReceived_cases _ h _ _ now _ _ o hr hy hn with ⟨out, -, -, he⟩ | ⟨-, e, he⟩
    · rw [he] at hx
      rcases List.mem_cons.mp hx with rfl | hx
      · exact hi
      · exact hi.appending hr (outcome_refers (rows_ok hr).1 hp'.1 hp'.2 out) trivial hx
    · rw [he] at hx
      rw [List.mem_singleton.mp hx]
      exact hi

theorem received_pending (hr : Delivery.rows w d = .ok rs) (o : Observation) (b : BatchId) :
    (receivedReferences rs).length + 1 ∈ receivedReferences (d.received w rs o b).journalRows ∧
      (receivedReferences rs).length + 1 ∉ outcomeReferences (d.received w rs o b).journalRows := by
  have hv := (rows_ok hr).1
  constructor
  · rw [mem_receivedReferences]
    change receivedAt (receivedRows w rs o b) _ ≠ []
    rw [receivedAt_received hv]
    simp
  · rw [mem_outcomeReferences]
    change ¬outcomesAt (receivedRows w rs o b) _ ≠ []
    rw [outcomesAt_received hv]
    simp

/-- The directory after an apply that returned. -/
theorem answered (hs : Site w h d L) {now : Int} {o : Observation} {b : BatchId} (hr : Delivery.rows w d = .ok rs)
    (hrec : Delivery.rows w (d.received w rs o b) = .ok (receivedRows w rs o b))
    (hv : validateSyntheticObservation h d.context o = .ok ()) (ha : d.agrees o) (outcome : Outcome) :
    Site w h (d.answered w h now rs o b outcome) (L.apply h now o).1 := by
  have hi : Site w h ((d.received w rs o b).decided h now o) (L.apply h now o).1 :=
    (hs.received hr hv ha).ingested (rawFile_stored ha) now
  have hp := received_pending hr o b
  exact hi.appended hrec (outcome_refers (rows_ok hrec).1 hp.1 hp.2 outcome) trivial

/-- Until the ingest has decided the store is the old ledger's, from then on the new one's. -/
theorem apply_writes (hs : Site w h d L) (now : Int) (o : Observation) (b : BatchId) :
    ∀ x ∈ (Delivery.apply w h now o b d).writes, Site w h x.2 L ∨ Site w h x.2 (L.apply h now o).1 := by
  intro x hx
  obtain ⟨rs, hr, hv, ha⟩ := apply_accepted hx
  rw [apply_eq hr hv ha] at hx
  rcases List.mem_append.mp hx with hx | hx
  · left
    rcases List.mem_append.mp hx with hx | hx
    · unfold storeWrites at hx
      split at hx
      · rw [List.mem_singleton.mp hx]
        exact hs.stored hv
      · cases hx
    · exact (hs.stored hv).appending ((rows_congr (stored_journal o)).trans hr) (received_refers o b)
        (backed_received ha hv) hx
  · right
    exact (hs.received hr hv ha).applyReceived_writes (rawFile_stored ha) (received_pending hr o b) x hx

/-! ## reconcile -/

theorem rawFile_ok (hs : Site w h d L) {x : Digest} {o : Observation} (hf : d.rawFile x = some o) :
    validateSyntheticObservation h d.context o = .ok () ∧ o.contentHash = plain x := by
  obtain ⟨hm, hx⟩ := rawFile_mem hf
  have hv := hs.synthetic o hm
  refine ⟨hv, ?_⟩
  have hh := (validate_ok hv).2
  rw [hh] at hx ⊢
  exact congrArg plain hx

/-- In an open generation what the store has of an observation is its commit. -/
theorem found_commit (hs : Site w h d L) {o : Observation} (hf : d.rawFile o.contentHash.value = some o) {outcome : Outcome}
    (hfound : found L o.contentHash.value = some outcome) (hr : L.rupture = none) :
    ∃ e ∈ L.log, outcome = .applied (ack e) ∧ e.payload.contentHash = o.contentHash.value ∧ e.seq = o.sequence.value ∧
      e.key = L.position 0 ∧ Taken L o := by
  rw [found, hr] at hfound
  obtain ⟨e, he, hout⟩ := Option.map_eq_some_iff.mp hfound
  have hm := List.mem_of_find?_eq_some he
  have hx : e.payload.contentHash = o.contentHash.value := by simpa using List.find?_some he
  obtain ⟨o', ho', hq, ht⟩ := hs.commits e hm
  rw [hx, hf] at ho'
  cases ho'
  exact ⟨e, hm, hout.symm, hx, hq.symm, (hs.first _ (Ledger.mem_log.mp hm)).2, ht⟩

/-- What the store has of an observation an apply of it would not change. -/
theorem found_same (hs : Site w h d L) {o : Observation} (hf : d.rawFile o.contentHash.value = some o) {outcome : Outcome}
    (hfound : found L o.contentHash.value = some outcome) {now : Int} : (L.apply h now o).1 = L := by
  have hvd := @apply_verdict _ _ _ _ now hs.sound hs.context (hs.synthetic o (rawFile_mem hf).1)
  rcases hvd.change with he | ⟨-, hr, hq, -⟩ | ⟨cause, -, hr, hno, -⟩
  · exact he
  · obtain ⟨e, hm, -, -, hseq, hk, -⟩ := hs.found_commit hf hfound hr
    have hb := (Chain.seq_bounds hs.sound.linked hm).2
    rw [hk] at hb
    omega
  · obtain ⟨e, hm, -, hx, hseq, hk, -⟩ := hs.found_commit hf hfound hr
    exact absurd hx (hno e hm hk hseq)

theorem findings_eq (hs : Site w h d L) (x : Received) : findings h x d =
    .ok ((L.rupture.filter (·.digest = x.rawHash)).map (·.gapRow L.stream),
      (L.log.find? (·.payload.contentHash = x.rawHash)).map ack) := by
  unfold findings
  rw [hs.tables, hs.sound.tables_valid, found_gap, found_ack hs.sound]
  rfl

theorem backed_aside {b : Body} (f : JournalFile) (hb : Backed w d b) : Backed w (d.aside w f) b := by
  cases b with
  | received n x => exact hb
  | outcome n x => trivial
  | ackConfirmation g q x => trivial
  | partialTail a x =>
    obtain ⟨ha, g, hg, hsize, hx⟩ := hb
    refine ⟨ha, g, ?_, hsize, hx⟩
    rw [Disk.aside, List.find?_append, hg]
    rfl

/-- The journal set aside, and some of its rows back. -/
theorem aside (hs : Site w h d L) {f g : JournalFile} (hj : d.journal = some f) (hv : ValidRows w g.rows)
    (hb : ∀ r ∈ g.rows, r ∈ f.rows ∨ Backed w (d.aside w f) r.body) : Site w h ((d.aside w f).holding g) L where
  sound := hs.sound
  tables := hs.tables
  context := hs.context
  first := hs.first
  commits := hs.commits
  rupture := hs.rupture
  synthetic := hs.synthetic
  rows := hv
  backed r hr := by
    rcases hb r hr with hr | hr
    · refine backed_aside f (hs.backed r ?_)
      rw [Disk.journalRows, hj]
      exact hr
    · exact hr

theorem journal_valid (hs : Site w h d L) {f : JournalFile} (hj : d.journal = some f) : ValidRows w f.rows := by
  have hv := hs.rows
  rw [Disk.journalRows, hj] at hv
  exact hv

/-- The directory once a partial tail is repaired. -/
theorem tailed (hs : Site w h d L) {f : JournalFile} (hj : d.journal = some f) (hr : Repairable w d f) :
    Site w h ((d.aside w f).holding (tailed w f)) L := by
  refine hs.aside hj (validRows_next (hs.journal_valid hj) trivial) fun r hm => ?_
  rcases List.mem_append.mp hm with hm | hm
  · exact .inl hm
  · rw [List.mem_singleton.mp hm]
    refine .inr ⟨rfl, f, ?_, hr.1, rfl⟩
    rw [Disk.aside, List.find?_append, hr.2]
    simp

/-- Every state while a partial tail is repaired. -/
theorem repairTail_writes (hs : Site w h d L) : ∀ x ∈ (repairTail w d).writes, Site w h x.2 L := by
  intro x hx
  cases hj : d.journal with
  | none =>
    rw [repairTail_whole (.inl hj)] at hx
    cases hx
  | some f =>
    by_cases htail : f.tail = []
    · unfold repairTail at hx
      rw [hj] at hx
      simp only [htail, if_true] at hx
      split at hx <;> cases hx
    · by_cases hrep : Repairable w d f
      · have hv := hs.journal_valid hj
        rcases @survivors_cases _ _ _ hj hrep.1 htail hrep.2 hv (some x.1) x.2
            (List.mem_cons_of_mem _ (List.mem_map.mpr ⟨x, hx, rfl⟩)) with ⟨he, -⟩ | ⟨-, he⟩ | ⟨-, he⟩ | ⟨n, -, -, he⟩ |
            ⟨b, n, -, he, -⟩ | ⟨b, -, he⟩
        · cases he
        · rw [he]
          exact ⟨hs.sound, hs.tables, hs.context, hs.first, hs.commits, hs.rupture, hs.synthetic, rfl,
            fun r hr => nomatch hr⟩
        · rw [he]
          exact hs.aside hj rfl fun r hr => nomatch hr
        · rw [he]
          obtain ⟨lost, hl, -⟩ := cut_rows (w := w) f.rows n
          refine hs.aside hj (validRows_cut hv n) fun r hr => .inl ?_
          rw [hl]
          exact List.mem_append_left _ hr
        · rw [he]
          exact hs.aside hj hv fun r hr => .inl hr
        · rw [he]
          exact hs.tailed hj hrep
      · have hno : ∃ e, repairTail w d = ⟨[], .error e⟩ := by
          refine repairTail_refused hj htail ?_
          by_contra hc
          simp only [not_or, Nat.not_lt, not_not] at hc
          exact hrep hc
        obtain ⟨e, he⟩ := hno
        rw [he] at hx
        cases hx

/-- The observation `iter_operations` yields with a row. -/
def observationOf (d : Disk) (r : Row) : Option Observation :=
  match r.body with
  | .received _ x => d.rawFile x.rawHash
  | _ => none

theorem operation_eq (hs : Site w h d L) {r : Row} (hb : Backed w d r.body) :
    operation w h d r = .ok (r, observationOf d r) := by
  unfold operation observationOf
  cases he : r.body with
  | received n x =>
    rw [he] at hb
    obtain ⟨o, hf, hh, hg, hq⟩ := hb
    obtain ⟨hv, -⟩ := hs.rawFile_ok hf
    simp only [hf, hv, Except.bind, hh, hg, hq, ne_eq, not_true_eq_false, or_self, if_false]
  | outcome n x => rfl
  | ackConfirmation g q x => rfl
  | partialTail a x =>
    rw [he] at hb
    obtain ⟨rfl, f, hf, hsize, hx⟩ := hb
    simp only [hf, ne_eq, not_true_eq_false, if_false, Nat.not_lt.mpr hsize, hx]

theorem mapM_ok {ε α β : Type} {f : α → Except ε β} {g : α → β} {l : List α} (hf : ∀ a ∈ l, f a = .ok (g a)) :
    l.mapM f = .ok (l.map g) := by
  induction l with
  | nil => rfl
  | cons a l ih =>
    rw [List.mapM_cons, hf a (by simp), ih fun b hb => hf b (by simp [hb])]
    rfl

theorem iterOperations_eq (hs : Site w h d L) (hr : Delivery.rows w d = .ok rs) :
    iterOperations w h d = .ok (rs.map fun r => (r, observationOf d r)) := by
  rw [iterOperations, hr]
  refine mapM_ok fun r hm => hs.operation_eq (hs.backed r ?_)
  rw [rows_journalRows hr]
  exact hm

/-- What `reconcile` does for a delivery without an outcome: it records what the store
    has of the observation, or else applies it again. -/
theorem settle_eq (hs : Site w h d L) {clock : Nat → Int} {completed : List Nat} {r : Row} {o : Observation}
    {index : Nat} {x : Received} (hb : r.body = .received index x) (hn : index ∉ completed)
    (hf : d.rawFile x.rawHash = some o) (hq : o.sequence = x.sequence) :
    settle w h clock completed (r, some o) d = match found L x.rawHash with
      | some outcome => ⟨(recordOutcome w h index outcome none d).writes,
          (recordOutcome w h index outcome none d).result.map fun _ => true⟩
      | none => ⟨(Delivery.applyReceived w h (clock index) index o d).writes,
          (Delivery.applyReceived w h (clock index) index o d).result.map fun _ => true⟩ := by
  have hfind := hs.findings_eq x
  unfold found
  cases hr : L.rupture.filter (·.digest = x.rawHash) with
  | some r' =>
    rw [hr] at hfind
    obtain ⟨hmem, hdig⟩ := Option.filter_eq_some_iff.mp hr
    obtain ⟨o', ho', hseq, -⟩ := hs.rupture r' hmem
    have hoo : o' = o := by
      rw [show r'.digest = x.rawHash by simpa using hdig, hf] at ho'
      exact (Option.some.inj ho').symm
    have hgap : ∀ s, (r'.gapRow s).stream = s ∧ (r'.gapRow s).detectedSequence = r'.sequence ∧
        (r'.gapRow s).gapReason = r'.cause.reason := by
      intro s
      rcases r' with ⟨_ | ⟨y, z⟩, hi, n, e, u⟩ <;> exact ⟨rfl, rfl, rfl⟩
    obtain ⟨h1, h2, h3⟩ := hgap L.stream
    simp only
    rw [settle_gap hb hn hfind ?_ ?_ ?_, h3]
    · rw [h1, Ledger.stream, hs.context]
      rfl
    · rw [h1, Ledger.stream, hs.context]
      rfl
    · rw [h2, ← hseq, hoo, hq]
  | none =>
    rw [hr] at hfind
    cases hc : L.log.find? (·.payload.contentHash = x.rawHash) with
    | some c =>
      rw [hc] at hfind
      simp only [Option.map_some]
      exact settle_ack hb hn hfind
    | none =>
      rw [hc] at hfind
      simp only [Option.map_none]
      exact settle_again hb hn hfind

end Site

end BettingHelper.Delivery
