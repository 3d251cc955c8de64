/-
  BettingHelper.Delivery.Deliverable — the observations `reconcile` can settle.

  A delivery is journalled before the ingest decides on it. Most of what the ingest may
  answer is an outcome; what is not leaves a RECEIVED row that every later `reconcile`
  applies again and raises on: an observation of another build, one whose number does not
  fit a column, one that is acknowledged under a text with a final newline, or a time or
  number `rfc8785` does not write. `Deliverable` says an observation is none of these.

  `ready`: while only such observations are applied, what the store keeps of a delivery
  can always be recorded as its outcome (`recordable_found`, `recordable_applied`).
-/

import BettingHelper.Delivery.Site

namespace BettingHelper.Delivery

open BettingHelper.Store BettingHelper.Ingest BettingHelper.Lib BettingHelper.Lib.Crash

/-! ## What can be delivered -/

/-- The observation's generation is ACTIVE. -/
def Open (db : Db Int) (o : Observation) : Prop :=
  ∃ g ∈ db.streamGenerations, g.position.generation = o.generation.value ∧ g.generationState = .active
  deriving Decidable

/-- The observation is the next one in line. -/
def Next (db : Db Int) (o : Observation) : Prop := Open db o ∧ o.sequence.value = db.rawCommits.length + 1
  deriving Decidable

/-- The observation is committed, and its generation is ACTIVE still. -/
def Again (db : Db Int) (o : Observation) : Prop :=
  Open db o ∧ ∃ r ∈ db.rawCommits, r.sequence = o.sequence.value ∧ r.rawObservationContentHash = o.contentHash.value
  deriving Decidable

structure Deliverable (c : Context) (db : Db Int) (now : Int) (o : Observation) : Prop where
  build : o.packHash = plain c.vendorSha256.value ∧ o.buildHash = plain c.codeSha256.value
  range : o.sequence.value ≤ maxInteger
  /-- An ACK is compared with the texts of its delivery. -/
  text : Next db o ∨ Again db o → o.sequence.newline = false ∧ o.generation.newline = false
  number : Next db o → o.sequence.value ≤ maxDumped ∧ now ≤ maxDumped

/-- A row `reconcile` may append for a run of this context. -/
def Body.ofRun (c : Context) (b : Body) : Prop :=
  b.dumpable ∧ match b with
    | .outcome _ (.applied acked) => acked.position.stream = c.stream
    | .outcome _ (.rejected _) => True
    | .partialTail _ _ => True
    | _ => False

/-- What applies of deliverable observations leave, each to its end or to a crash. -/
inductive Applied (w : Wire) (h : Hashes) (c : Context) : Disk → Prop
  | created {t : Int} {db : Db Int} : createOfflineRun h c t = .ok db → Applied w h c (.fresh c db)
  | applied {d s : Disk} {now : Int} {o : Observation} {b : BatchId} : Applied w h c d → Deliverable c d.db now o →
      s ∈ crashes (apply w h now o b) d → Applied w h c s

variable {w : Wire} {h : Hashes} {c : Context} {d : Disk} {L : Ledger} {rs : List Row} {o : Observation} {now : Int}

/-! ## On a ledger -/

theorem entries_height (hs : Site w h d L) : Chain.height L.log (L.position 0) = L.entries.length := by
  have hlog : L.log = L.entries.map (·.commit) := by
    rw [Ledger.log, List.filter_eq_self.mpr fun e he => by simp [(hs.first e he).1]]
  rw [Chain.height, Chain.chainOf, hlog, List.filter_eq_self.mpr, List.length_map]
  intro c hc
  obtain ⟨e, he, rfl⟩ := List.mem_map.mp hc
  simpa using (hs.first e he).2

theorem open_iff (hs : Site w h d L) (hg : o.generation.value = 0) : Open d.db o ↔ L.rupture = none := by
  rw [Open, hs.tables, hg]
  rcases L with ⟨ctx, t, es, _ | ⟨_ | ⟨x, y⟩, hi, n, e, u⟩, cs⟩ <;>
    simp [Ledger.tables, Ledger.generationRows, Ledger.position, Rupture.closedState]

theorem next_iff (hs : Site w h d L) (hg : o.generation.value = 0) :
    Next d.db o ↔ L.rupture = none ∧ o.sequence.value = Chain.height L.log (L.position 0) + 1 := by
  rw [Next, open_iff hs hg, entries_height hs, hs.tables]
  simp [Ledger.tables]

theorem again_iff (hs : Site w h d L) (hg : o.generation.value = 0) : Again d.db o ↔
    L.rupture = none ∧ ∃ e ∈ L.log, e.seq = o.sequence.value ∧ e.payload.contentHash = o.contentHash.value := by
  rw [Again, open_iff hs hg, hs.tables]
  refine and_congr_right fun _ => ?_
  constructor
  · intro ⟨r, hr, hq, hx⟩
    obtain ⟨e, he, rfl⟩ := List.mem_map.mp hr
    refine ⟨e.commit, ?_, hq, hx⟩
    rw [Ledger.mem_log, ← (hs.first e he).1]
    exact he
  · intro ⟨e, he, hq, hx⟩
    exact ⟨_, List.mem_map_of_mem (Ledger.mem_log.mp he), hq, hx⟩

/-! ## What the store keeps can be written -/

/-- Every commit is of an observation whose texts an ACK can be compared with, and its ACK
    can be written. -/
structure Tame (d : Disk) (L : Ledger) : Prop where
  commits : ∀ e ∈ L.log, ∀ o, d.rawFile e.payload.contentHash = some o →
    o.sequence.newline = false ∧ o.generation.newline = false
  numbers : ∀ e ∈ L.log, e.seq ≤ maxDumped ∧ e.payload.committedAtUs.natAbs ≤ maxDumped

theorem taken_of_deliverable (hc : L.context = c) {db : Db Int} (hd : Deliverable c db now o) : Taken L o := by
  rw [Taken, hc]
  exact ⟨hd.build.1, hd.build.2, hd.range⟩

/-- The commit a deliverable observation adds is as tame as the others. -/
theorem tame_applied (hs : Site w h d L) (ht : Tame d L) (hd : Deliverable L.context d.db now o)
    (hf : d.rawFile o.contentHash.value = some o) : Tame d (L.apply h now o).1 := by
  have hv := (hs.rawFile_ok hf).1
  have hg : o.generation.value = 0 := by
    rw [(validate_ok hv).1.2.2.2.2.2, ← hs.context]
    exact hs.sound.firstGeneration
  have hvd := @apply_verdict _ _ _ _ now hs.sound hs.context hv
  rcases hvd.change with he | ⟨-, hr, hq, hcm, he, -⟩ | ⟨cause, -, -, -, he, -⟩ <;> rw [he]
  · exact ht
  · have hnext := (next_iff hs hg).mpr ⟨hr, hq⟩
    refine ⟨?_, ?_⟩ <;> rw [Ledger.log_append_applied]
    · intro e he o' ho'
      rcases List.mem_append.mp he with he | he
      · exact ht.commits e he o' ho'
      · rw [List.mem_singleton.mp he] at ho'
        have hx : d.rawFile o.contentHash.value = some o' := ho'
        rw [hf] at hx
        cases hx
        exact hd.text (.inl hnext)
    · intro e he
      rcases List.mem_append.mp he with he | he
      · exact ht.numbers e he
      · rw [List.mem_singleton.mp he]
        obtain ⟨h1, h2⟩ := hd.number hnext
        have h3 := hcm.1
        refine ⟨h1, ?_⟩
        change now.natAbs ≤ maxDumped
        omega
  · exact ⟨ht.commits, ht.numbers⟩

/-! ## An outcome that can be recorded -/

/-- The ACK of a tame commit is bound to its delivery. -/
theorem recordable_found (hs : Site w h d L) (ht : Tame d L) {x : Received} (hf : d.rawFile x.rawHash = some o)
    (hg : o.generation = x.generation) (hq : o.sequence = x.sequence) {outcome : Outcome}
    (hfound : found L x.rawHash = some outcome) :
    Recordable h d x outcome none ∧ ∀ n, (Body.outcome n outcome).ofRun d.context := by
  unfold found at hfound
  cases hr : L.rupture.filter (·.digest = x.rawHash) with
  | some r =>
    rw [hr] at hfound
    cases hfound
    exact ⟨trivial, fun _ => ⟨trivial, trivial⟩⟩
  | none =>
    rw [hr] at hfound
    simp only [Option.map_eq_some_iff] at hfound
    obtain ⟨e, he, rfl⟩ := hfound
    have hm := List.mem_of_find?_eq_some he
    have hx : e.payload.contentHash = x.rawHash := by simpa using List.find?_some he
    obtain ⟨o', ho', hseq, -⟩ := hs.commits e hm
    rw [hx, hf] at ho'
    cases ho'
    obtain ⟨hn1, hn2⟩ := ht.commits e hm o (by rw [hx]; exact hf)
    obtain ⟨hm1, hm2⟩ := ht.numbers e hm
    have hgen : o.generation.value = 0 := by
      rw [(validate_ok (hs.rawFile_ok hf).1).1.2.2.2.2.2, ← hs.context]
      exact hs.sound.firstGeneration
    have hkey : e.key.generation = 0 := by
      have he' := Ledger.mem_log.mp hm
      rw [(hs.first _ he').2]
      rfl
    have hgtext : plain (ack e).position.generation = x.generation := by
      rw [← hg]
      change plain e.key.generation = o.generation
      rw [hkey, ← hgen]
      unfold plain
      rw [← hn2]
    have hqtext : plain (ack e).highestContiguousSequence = x.sequence := by
      rw [← hq]
      change plain e.seq = o.sequence
      rw [← hseq]
      unfold plain
      rw [← hn1]
    have hack : d.db.ackOutbox.find? (fun r => r.ackOutboxId = (ack e).ackOutboxId) = some (ack e) := by
      rw [hs.tables]
      exact (Ledger.find_ack hs.sound _).mpr (List.mem_map_of_mem hm)
    have hraw : (d.db.rawCommits.find? (fun r => r.rawCommitId = (ack e).rawCommitId)).map
        (·.rawObservationContentHash) = some x.rawHash := by
      rw [hs.tables]
      have hfind : (L.tables h).rawCommits.find? (fun r => r.rawCommitId = (ack e).rawCommitId) =
          some (Entry.raw ⟨e, false⟩) := by
        refine Chain.find_unique (List.mem_map_of_mem (Ledger.mem_log.mp hm)) (by simp [Ingest.ack, Entry.raw]) ?_
        intro b hb hp
        obtain ⟨z, hz, rfl⟩ := List.mem_map.mp hb
        obtain ⟨hlate, -⟩ := hs.first z hz
        rcases z with ⟨zc, zl⟩
        subst hlate
        have hzc := Ledger.mem_log.mpr hz
        have hcur : zc.cursor = e.cursor := by simpa [Ingest.ack, Entry.raw] using hp
        rw [List.inj_on_of_nodup_map hs.sound.cursors hzc hm hcur]
      rw [hfind]
      exact congrArg some hx
    have hdump : (Body.outcome 0 (.applied (ack e))).dumpable :=
      ⟨by rw [show (ack e).position.generation = 0 from hkey]; exact Nat.zero_le _, hm1, hm2⟩
    refine ⟨⟨?_, hdump⟩, fun _ => ⟨hdump, ?_⟩⟩
    · simp only [ackBound, hs.tables, hs.sound.tables_valid, ofStore, Except.bind]
      rw [← hs.tables, if_neg]
      simp only [hack, hraw, hgtext, hqtext, ne_eq, not_true_eq_false, or_self, not_false_eq_true]
    · rw [← hs.context]
      change e.key.stream = L.context.stream
      rw [(hs.first _ (Ledger.mem_log.mp hm)).2]
      rfl

/-- What the ingest answers to a deliverable observation is an outcome that can be recorded. -/
theorem recordable_applied (hs : Site w h d L) (ht : Tame d L) {x : Received} (hf : d.rawFile x.rawHash = some o)
    (hg : o.generation = x.generation) (hq : o.sequence = x.sequence) (hd : Deliverable L.context d.db now o) :
    ∃ outcome, outcomeOf (Ingest.apply h now o d.db).2 = .ok outcome ∧
      Recordable h (d.decided h now o) x outcome (some o) ∧ ∀ n, (Body.outcome n outcome).ofRun d.context := by
  obtain ⟨hv, hh⟩ := hs.rawFile_ok hf
  have hgen : o.generation.value = 0 := by
    rw [(validate_ok hv).1.2.2.2.2.2, ← hs.context]
    exact hs.sound.firstGeneration
  have hvd := @apply_verdict _ _ _ _ now hs.sound hs.context hv
  have hres : (Ingest.apply h now o d.db).2 = (L.apply h now o).2 := by
    rw [hs.tables, Ledger.apply_tables hs.sound]
  rw [hres]
  have hack : ∀ e : Commit, e.key = L.position 0 → e.seq = o.sequence.value →
      e.seq ≤ maxDumped → e.payload.committedAtUs.natAbs ≤ maxDumped →
      o.sequence.newline = false ∧ o.generation.newline = false →
      Recordable h (d.decided h now o) x (.applied (ack e)) (some o) ∧
        ∀ n, (Body.outcome n (.applied (ack e))).ofRun d.context := by
    intro e hk hseq hm1 hm2 htext
    have hdump : (Body.outcome 0 (.applied (ack e))).dumpable :=
      ⟨by rw [show (ack e).position = L.position 0 from hk]; exact Nat.zero_le _, hm1, hm2⟩
    refine ⟨⟨?_, hdump⟩, fun _ => ⟨hdump, ?_⟩⟩
    · have hgtext : plain (ack e).position.generation = x.generation := by
        rw [← hg]
        change plain e.key.generation = o.generation
        rw [hk]
        change plain 0 = o.generation
        rw [← hgen]
        unfold plain
        rw [← htext.2]
      have hqtext : plain (ack e).highestContiguousSequence = x.sequence := by
        rw [← hq]
        change plain e.seq = o.sequence
        rw [hseq]
        unfold plain
        rw [← htext.1]
      simp only [ackBound, hh, hg, hq, hgtext, hqtext, ne_eq, not_true_eq_false, or_self, if_false]
    · rw [← hs.context]
      change e.key.stream = L.context.stream
      rw [hk]
      rfl
  have htk := taken_of_deliverable (c := L.context) (L := L) rfl hd
  generalize (L.apply h now o).2 = result at hvd ⊢
  generalize (L.apply h now o).1 = L' at hvd
  cases hvd with
  | refused e hno _ => exact absurd htk hno
  | closed _ _ => exact ⟨_, rfl, trivial, fun _ => ⟨trivial, trivial⟩⟩
  | failed _ _ _ => exact ⟨_, rfl, trivial, fun _ => ⟨trivial, trivial⟩⟩
  | ruptured cause _ _ _ => cases cause <;> exact ⟨_, rfl, trivial, fun _ => ⟨trivial, trivial⟩⟩
  | duplicate e _ hr hm hk hseq hx =>
    obtain ⟨h1, h2⟩ := ht.numbers e hm
    exact ⟨_, rfl, hack e hk hseq h1 h2 (hd.text (.inr ((again_iff hs hgen).mpr ⟨hr, e, hm, hseq, hx⟩)))⟩
  | applied _ hr hq' hcm =>
    have hnext := (next_iff hs hgen).mpr ⟨hr, hq'⟩
    obtain ⟨h1, h2⟩ := hd.number hnext
    have h3 := hcm.1
    refine ⟨_, rfl, hack _ (by rw [Ledger.nextCommit, active_none hr]) rfl h1 ?_ (hd.text (.inl hnext))⟩
    change now.natAbs ≤ maxDumped
    omega

/-! ## What an apply leaves alone -/

/-- The files other than the store and the journal. -/
def Disk.files (d : Disk) : Context × List Observation × List (Digest × JournalFile) := (d.context, d.raw, d.retained)

theorem rawFile_raw {s : Disk} (hraw : s.raw = d.raw) (x : Digest) : s.rawFile x = d.rawFile x := by
  rw [Disk.rawFile, hraw]
  rfl

theorem appending_files {b : Body} {x : Place × Disk} (hx : x ∈ appendWrites w b rs d) : x.2.files = d.files := by
  simp only [appendWrites, List.mem_append, List.mem_map, List.mem_range, List.mem_singleton] at hx
  rcases hx with (hx | ⟨n, -, rfl⟩) | rfl
  · split at hx
    · rw [List.mem_singleton.mp hx]
      rfl
    · cases hx
  · rfl
  · rfl

theorem files_stable (d : Disk) : Stable w (fun _ s => s.files = d.files) (fun s => s.files = d.files) where
  outcome _ _ _ _ hf _ := hf
  appending _ _ _ _ hf _ _ hx := (appending_files hx).trans hf
  db _ _ hf := ⟨hf, hf⟩

theorem stored_frame (o : Observation) : (d.stored o).context = d.context ∧ (d.stored o).retained = d.retained ∧
    (d.stored o).db = d.db := by
  unfold Disk.stored
  split <;> exact ⟨rfl, rfl, rfl⟩

theorem apply_files {b : BatchId} : ∀ x ∈ (apply w h now o b d).writes, x.2.files = (d.stored o).files := by
  intro x hx
  obtain ⟨rs, hr, hv, ha⟩ := apply_accepted hx
  rw [apply_eq hr hv ha] at hx
  rcases List.mem_append.mp hx with hx | hx
  · rcases List.mem_append.mp hx with hx | hx
    · unfold storeWrites at hx
      split at hx
      · rw [List.mem_singleton.mp hx]
      · cases hx
    · exact appending_files hx
  · have hrec : (d.received w rs o b).files = (d.stored o).files := rfl
    exact ((files_stable (d.stored o)).applyReceived hrec).during x hx

/-- A raw file that is there stays. -/
theorem rawFile_stays {o o' : Observation} {x : Digest} (hf : d.rawFile x = some o') : (d.stored o).rawFile x = some o' := by
  unfold Disk.stored
  split
  · exact Site.rawFile_append hf
  · exact hf

/-! ## The directories that applies leave -/

structure Ready (w : Wire) (h : Hashes) (c : Context) (d : Disk) (L : Ledger) : Prop where
  site : Site w h d L
  tame : Tame d L
  context : d.context = c
  retained : d.retained = []

theorem ready_created {t : Int} {db : Db Int} (hc : createOfflineRun h c t = .ok db) :
    ∃ L, Ready w h c (.fresh c db) L := by
  refine ⟨Ledger.fresh c t, site_fresh hc, ⟨?_, ?_⟩, rfl, rfl⟩
  all_goals exact fun _ hx => nomatch hx

theorem tame_stored (hs : Site w h d L) (ht : Tame d L) (o : Observation) : Tame (d.stored o) L where
  commits e he o' ho' := by
    obtain ⟨o'', ho'', -⟩ := hs.commits e he
    rw [rawFile_stays ho''] at ho'
    cases ho'
    exact ht.commits e he o' ho''
  numbers := ht.numbers

theorem tame_raw {s : Disk} (hraw : s.raw = d.raw) (ht : Tame d L) : Tame s L where
  commits e he o' ho' := by
    rw [rawFile_raw hraw] at ho'
    exact ht.commits e he o' ho'
  numbers := ht.numbers

theorem ready_applied {s : Disk} {b : BatchId} (hr : Ready w h c d L) (hd : Deliverable c d.db now o)
    (hs : s ∈ crashes (apply w h now o b) d) : ∃ L', Ready w h c s L' := by
  obtain ⟨hsite, ht, rfl, hret⟩ := hr
  rcases List.mem_cons.mp hs with rfl | hs
  · exact ⟨L, hsite, ht, rfl, hret⟩
  · obtain ⟨x, hx, rfl⟩ := List.mem_map.mp hs
    obtain ⟨rs, -, hv, ha⟩ := apply_accepted hx
    have hfiles := apply_files x hx
    obtain ⟨hcs, hrs, hdb⟩ := stored_frame (d := d) o
    have hcx : x.2.context = d.context := (congrArg (·.1) hfiles).trans hcs
    have hrx : x.2.retained = [] := (congrArg (·.2.2) hfiles).trans (hrs.trans hret)
    have hraw : x.2.raw = (d.stored o).raw := congrArg (·.2.1) hfiles
    have hst := tame_stored hsite ht o
    rcases hsite.apply_writes now o b x hx with hs' | hs'
    · exact ⟨L, hs', tame_raw hraw hst, hcx, hrx⟩
    · refine ⟨_, hs', tame_raw hraw ?_, hcx, hrx⟩
      refine tame_applied (hsite.stored hv) hst ?_ (Site.rawFile_stored ha)
      rw [hdb, hsite.context]
      exact hd

theorem ready (ha : Applied w h c d) : ∃ L, Ready w h c d L := by
  induction ha with
  | created hc => exact ready_created hc
  | applied _ hd hs ih =>
    obtain ⟨L, hr⟩ := ih
    exact ready_applied hr hd hs

end BettingHelper.Delivery
