/-
  BettingHelper.Delivery.Reconcile — that `reconcile` settles every delivery.

  Proved (`reconcile_settles`): from any directory that applies of deliverable
  observations leave, crashes included, `reconcile` returns, every RECEIVED row then has
  one OUTCOME row, and a second one changes nothing. A delivery of another build is never
  settled (`reconcile_stuck`).
-/

import BettingHelper.Delivery.Deliverable

namespace BettingHelper.Delivery

open BettingHelper.Store BettingHelper.Ingest BettingHelper.Lib BettingHelper.Lib.Crash

variable {w : Wire} {h : Hashes} {c : Context} {d : Disk} {L : Ledger} {rs : List Row} {o : Observation} {now : Int}

/-! ## What a reconcile has before it -/

/-- The journal has room for so many more rows, whichever they are. -/
def Room (w : Wire) (c : Context) (rs : List Row) (n : Nat) : Prop :=
  ∀ more, ValidRows w (rs ++ more) → more.length ≤ n → (∀ r ∈ more, r.body.ofRun c) → linesSize w (rs ++ more) ≤ maximum

/-- The deliveries without an outcome. -/
def pending (rs : List Row) : List (Nat × Received) := (deliveries rs).filter (·.1 ∉ outcomeReferences rs)

/-- `reconcile` can read the journal, and the rows it may append fit. -/
def Roomy (w : Wire) (d : Disk) : Prop :=
  (∀ f ∈ d.journal, f.size w ≤ maximum) ∧ Room w d.context d.journalRows ((pending d.journalRows).length + 1)

/-- At its turn each of these deliveries is of a deliverable observation. -/
def Turns (h : Hashes) (d : Disk) (clock : Nat → Int) : Db Int → List (Nat × Received) → Prop
  | _, [] => True
  | db, p :: l => ∀ o ∈ d.rawFile p.2.rawHash, Deliverable d.context db (clock p.1) o ∧
      Turns h d clock (Ingest.apply h (clock p.1) o db).1 l

/-- The rows of one more outcome fit, and there is room for the others. -/
theorem Room.next {n index : Nat} {outcome : Outcome} (hroom : Room w c rs (n + 1)) (hv : ValidRows w rs)
    (href : (readingOf rs).refers (.outcome index outcome)) (hb : (Body.outcome index outcome).ofRun c) :
    linesSize w (rs ++ [nextRow w rs (.outcome index outcome)]) ≤ maximum ∧
      Room w c (rs ++ [nextRow w rs (.outcome index outcome)]) n := by
  constructor
  · refine hroom _ (validRows_next hv href) (by simp) fun r hr => ?_
    rw [List.mem_singleton.mp hr]
    exact hb
  · intro more hv' hlen hm
    rw [List.append_assoc] at hv' ⊢
    refine hroom _ hv' (by simpa using hlen) fun r hr => ?_
    rcases List.mem_cons.mp hr with rfl | hr
    · exact hb
    · exact hm r hr

/-! ## The loop -/

section Loop

variable {clock : Nat → Int} {completed : List Nat}

/-- One pass over a pending delivery records an outcome. -/
theorem settle_once (hs : Site w h d L) (ht : Tame d L) (hr : rows w d = .ok rs) {r : Row} {index n : Nat} {x : Received}
    (hb : r.body = .received index x) (hn : index ∉ completed) (hm : r ∈ rs) (ho : index ∉ outcomeReferences rs)
    (hf : d.rawFile x.rawHash = some o) (hd : Deliverable d.context d.db (clock index) o)
    (hroom : Room w d.context rs (n + 1)) :
    ∃ writes s outcome L', settle w h clock completed (r, some o) d = ⟨writes, .ok true⟩ ∧
      writes.foldl (fun _ x => x.2) d = s ∧ Site w h s L' ∧ Tame s L' ∧ s.files = d.files ∧
      s.db = (Ingest.apply h (clock index) o d.db).1 ∧
      rows w s = .ok (rs ++ [nextRow w rs (.outcome index outcome)]) ∧
      Room w d.context (rs ++ [nextRow w rs (.outcome index outcome)]) n := by
  have hv := (rows_ok hr).1
  have hback := hs.backed r (by rw [rows_journalRows hr]; exact hm)
  rw [hb] at hback
  obtain ⟨o', hf', hh, hg, hq⟩ := hback
  rw [hf] at hf'
  cases hf'
  have hidx : index ∈ receivedReferences rs := by
    refine List.mem_map.mpr ⟨(index, x), List.mem_filterMap.mpr ⟨r, hm, ?_⟩, rfl⟩
    rw [hb]
    rfl
  have hx : receivedAt rs index = [x] := by
    obtain ⟨y, hy⟩ := receivedAt_unique hv hidx
    have hxm : x ∈ receivedAt rs index := by
      refine List.mem_map.mpr ⟨(index, x), List.mem_filter.mpr ⟨List.mem_filterMap.mpr ⟨r, hm, ?_⟩, by simp⟩, rfl⟩
      rw [hb]
      rfl
    rw [hy] at hxm ⊢
    rw [List.mem_singleton.mp hxm]
  have hnone := not_not.mp (mt mem_outcomeReferences.mpr ho)
  have hxo : o.contentHash.value = x.rawHash := by rw [hh]; rfl
  have hfo : d.rawFile o.contentHash.value = some o := by rw [hxo]; exact hf
  rw [hs.settle_eq hb hn hf hq]
  cases hfound : found L x.rawHash with
  | some outcome =>
    obtain ⟨hrec, hrun⟩ := recordable_found hs ht hf hg hq hfound
    have href := outcome_refers hv hidx ho outcome
    obtain ⟨hsize, hroom'⟩ := hroom.next hv href (hrun index)
    simp only [recordOutcome_eq hr hx hnone hrec]
    refine ⟨_, _, outcome, L, rfl, appendWrites_final _, hs.appended hr href trivial, tame_raw (d := d) rfl ht, rfl, ?_,
      rows_appended hr href hsize, hroom'⟩
    rw [← hxo] at hfound
    rw [hs.tables, Ledger.apply_tables hs.sound, hs.found_same hfo hfound]
    exact hs.tables
  | none =>
    rw [← hs.context] at hd
    obtain ⟨outcome, hout, hrec, hrun⟩ := recordable_applied hs ht hf hg hq hd
    have href := outcome_refers hv hidx ho outcome
    obtain ⟨hsize, hroom'⟩ := hroom.next hv href (hrun index)
    have hr' : rows w (d.decided h (clock index) o) = .ok rs := hr
    rcases @applyReceived_cases _ h _ _ (clock index) _ _ o hr hx hnone with ⟨out, hout', -, he⟩ | ⟨hno, -⟩
    · rw [hout] at hout'
      cases hout'
      simp only [he]
      refine ⟨_, _, outcome, _, rfl, ?_, (hs.ingested hfo _).appended hr' href trivial,
        tame_raw (d := d) rfl (tame_applied hs ht hd hfo), rfl, rfl, rows_appended hr' href hsize, hroom'⟩
      rw [List.foldl_cons, appendWrites_final]
      rfl
    · exact absurd hrec (hno outcome hout)

/-- The deliveries of these rows the loop does not skip. -/
def unsettled (completed : List Nat) (l : List Row) : List (Nat × Received) :=
  (deliveries l).filter (·.1 ∉ completed)

theorem turns_raw {s : Disk} (hc : s.context = d.context) (hraw : s.raw = d.raw) {db : Db Int} {l : List (Nat × Received)}
    (ht : Turns h d clock db l) : Turns h s clock db l := by
  induction l generalizing db with
  | nil => trivial
  | cons p l ih =>
    intro o ho
    rw [rawFile_raw hraw] at ho
    obtain ⟨hd, hrest⟩ := ht o ho
    rw [hc]
    exact ⟨hd, ih hrest⟩

theorem observationOf_raw {s : Disk} (hraw : s.raw = d.raw) : Site.observationOf s = Site.observationOf d := by
  funext r
  unfold Site.observationOf
  split
  · exact rawFile_raw hraw _
  · rfl

/-- The loop over these rows records an outcome for each delivery it does not skip. -/
theorem settle_all {l : List Row} (hs : Site w h d L) (ht : Tame d L) (hr : rows w d = .ok rs) (hl : ∀ r ∈ l, r ∈ rs)
    (hnd : ((unsettled completed l).map (·.1)).Nodup) (ho : ∀ p ∈ unsettled completed l, p.1 ∉ outcomeReferences rs)
    (hturns : Turns h d clock d.db (unsettled completed l))
    (hroom : Room w d.context rs (unsettled completed l).length) :
    ∃ writes s L' more, Prog.each (settle w h clock completed) (l.map fun r => (r, Site.observationOf d r)) d =
        ⟨writes, .ok (unsettled completed l).length⟩ ∧
      writes.foldl (fun _ x => x.2) d = s ∧ Site w h s L' ∧ rows w s = .ok (rs ++ more) ∧ deliveries more = [] ∧
      outcomeReferences more = (unsettled completed l).map (·.1) := by
  induction l generalizing d L rs with
  | nil => exact ⟨[], d, L, [], rfl, rfl, hs, by rw [List.append_nil]; exact hr, rfl, rfl⟩
  | cons r l ih =>
    have hskip : (∀ n x, r.body = .received n x → n ∈ completed) → unsettled completed (r :: l) = unsettled completed l := by
      intro hc
      unfold unsettled deliveries
      rw [List.filterMap_cons]
      cases hb : r.body with
      | received n x => simp [Body.asDelivery, hc n x hb]
      | outcome n x => rfl
      | ackConfirmation g q x => rfl
      | partialTail a x => rfl
    by_cases hc : ∀ n x, r.body = .received n x → n ∈ completed
    · rw [hskip hc] at hnd ho hturns hroom ⊢
      obtain ⟨writes, s, L', more, he, hfin, hrest⟩ :=
        ih hs ht hr (fun r' hr' => hl r' (List.mem_cons_of_mem _ hr')) hnd ho hturns hroom
      refine ⟨writes, s, L', more, ?_, hfin, hrest⟩
      simp only [List.map_cons, Prog.each, Prog.andThen, settle_done hc, Exec.final, List.foldl_nil, he, Prog.ret,
        List.nil_append, List.append_nil, Bool.false_eq_true, if_false]
    · simp only [not_forall] at hc
      obtain ⟨index, x, hb, hn⟩ := hc
      have hcons : unsettled completed (r :: l) = (index, x) :: unsettled completed l := by
        unfold unsettled deliveries
        rw [List.filterMap_cons, hb]
        simp [Body.asDelivery, hn]
      rw [hcons] at hnd ho hturns hroom ⊢
      rw [List.map_cons, List.nodup_cons] at hnd
      have hmem := hl r List.mem_cons_self
      have hback := hs.backed r (by rw [rows_journalRows hr]; exact hmem)
      rw [hb] at hback
      obtain ⟨o, hf, -⟩ := hback
      obtain ⟨hd, hturns'⟩ := hturns o hf
      obtain ⟨ws, s, outcome, L', he, hfin, hs', ht', hfiles, hdb, hr', hroom'⟩ :=
        settle_once hs ht hr hb hn hmem (ho (index, x) List.mem_cons_self) hf hd hroom
      rw [← hdb] at hturns'
      have hcx : s.context = d.context := congrArg (·.1) hfiles
      have hraw : s.raw = d.raw := congrArg (·.2.1) hfiles
      obtain ⟨ws', s', L'', more, he', hfin', hs'', hr'', hdel, hout⟩ := ih hs' ht' hr'
        (fun r' hm => List.mem_append_left _ (hl r' (List.mem_cons_of_mem _ hm))) hnd.2
        (by
          intro p hp
          rw [outcomeReferences_snoc, List.mem_append, not_or]
          refine ⟨ho p (List.mem_cons_of_mem _ hp), fun hm => hnd.1 ?_⟩
          have he : p.1 = index := List.mem_singleton.mp hm
          change index ∈ _
          rw [← he]
          exact List.mem_map_of_mem hp)
        (turns_raw hcx hraw hturns') (by rw [hcx]; exact hroom')
      refine ⟨ws ++ ws', s', L'', nextRow w rs (.outcome index outcome) :: more, ?_, ?_, hs'', ?_, ?_, ?_⟩
      · rw [observationOf_raw hraw] at he'
        have hobs : Site.observationOf d r = some o := by
          unfold Site.observationOf
          rw [hb]
          exact hf
        simp only [List.map_cons, Prog.each, Prog.andThen, hobs, he, Exec.final, hfin, he', Prog.ret, List.append_nil,
          if_true, List.length_cons]
      · rw [List.foldl_append, hfin, hfin']
      · rw [hr'', List.append_assoc]
        rfl
      · rw [deliveries, List.filterMap_cons]
        exact hdel
      · rw [List.map_cons, ← hout]
        rfl

end Loop

/-! ## A whole reconcile -/

theorem operations_rows (f : Row → Option Observation) (rs : List Row) : (rs.map fun r => (r, f r)).map (·.1) = rs := by
  rw [List.map_map]
  exact List.map_id rs

theorem pending_nodup (hv : ValidRows w rs) : ((pending rs).map (·.1)).Nodup :=
  (receivedReferences_nodup hv).sublist (List.filter_sublist.map _)

theorem pending_open : ∀ p ∈ pending rs, p.1 ∉ outcomeReferences rs := by
  intro p hp
  simpa using (List.mem_filter.mp hp).2

/-- A delivery that is not pending has an outcome. -/
theorem settled_mem {r : Row} {n : Nat} {x : Received} (hm : r ∈ rs) (hb : r.body = .received n x)
    (hp : (n, x) ∉ pending rs) : n ∈ outcomeReferences rs := by
  by_contra hn
  refine hp (List.mem_filter.mpr ⟨List.mem_filterMap.mpr ⟨r, hm, ?_⟩, by simpa using hn⟩)
  rw [hb]
  rfl

/-- A second `reconcile` finds nothing to do. -/
theorem reconcile_done (hs : Site w h d L) (hr : rows w d = .ok rs) (hp : pending rs = []) (clock : Nat → Int) :
    reconcile w h clock d = ⟨[], .ok 0⟩ := by
  have hrep : repairTail w d = ⟨[], .ok ()⟩ := by
    refine repairTail_whole ?_
    rcases (rows_ok hr).2 with ⟨hj, -⟩ | ⟨hj, hsize⟩
    · exact .inl hj
    · exact .inr ⟨_, hj, hsize, rfl⟩
  have hdone : Prog.each (settle w h clock (outcomeReferences rs)) (rs.map fun r => (r, Site.observationOf d r)) d =
      ⟨[], .ok 0⟩ := by
    refine Prog.each_skip fun op hop => ?_
    obtain ⟨r, hm, rfl⟩ := List.mem_map.mp hop
    exact settle_done fun n x hb => settled_mem hm hb (by rw [hp]; exact List.not_mem_nil)
  simp only [reconcile, Prog.andThen, hrep, Prog.read, hs.iterOperations_eq hr, Exec.final, List.foldl_nil, operations_rows,
    hdone, List.append_nil]

/-- A repair that returns has set the tail aside, if there was one, and kept every row. -/
theorem repairTail_returned (hs : Site w h d L) (hok : (repairTail w d).result = .ok ()) :
    Site w h ((repairTail w d).final d) L ∧ ((repairTail w d).final d).context = d.context ∧
      ((repairTail w d).final d).raw = d.raw ∧ ((repairTail w d).final d).db = d.db ∧
      ∃ more, ((repairTail w d).final d).journalRows = d.journalRows ++ more ∧ ∀ r ∈ more, ∃ a x, r.body = .partialTail a x := by
  cases hj : d.journal with
  | none =>
    rw [repairTail_whole (.inl hj)]
    exact ⟨hs, rfl, rfl, rfl, [], by rw [List.append_nil]; rfl, fun _ hm => nomatch hm⟩
  | some f =>
    by_cases htail : f.tail = []
    · have hfin : (repairTail w d).final d = d := by
        unfold repairTail
        rw [hj]
        simp only [htail, if_true]
        split <;> rfl
      rw [hfin]
      exact ⟨hs, rfl, rfl, rfl, [], by rw [List.append_nil], fun _ hm => nomatch hm⟩
    · by_cases hrep : Repairable w d f
      · have hfin : (repairTail w d).final d = (d.aside w f).holding (tailed w f) := by
          rw [repairTail_torn hj hrep.1 htail hrep.2 (hs.journal_valid hj), Exec.final, List.foldl_append,
            tailWrites_final, appendWrites_final]
          rfl
        rw [hfin]
        refine ⟨hs.tailed hj hrep, rfl, rfl, rfl,
          [nextRow w f.rows (.partialTail (w.fileHash f) (w.fileHash f))], ?_, ?_⟩
        · rw [Disk.journalRows, Disk.journalRows, hj]
          rfl
        · intro r hm
          rw [List.mem_singleton.mp hm]
          exact ⟨_, _, rfl⟩
      · have hno : ∃ e, repairTail w d = ⟨[], .error e⟩ := by
          refine repairTail_refused hj htail ?_
          by_contra hc
          simp only [not_or, Nat.not_lt, not_not] at hc
          exact hrep hc
        obtain ⟨e, he⟩ := hno
        rw [he] at hok
        cases hok

/-- A `reconcile` that returns has repaired the tail, read the rows and gone through them. -/
theorem reconcile_returned {clock : Nat → Int} {n : Nat} (hs : Site w h d L)
    (hok : (reconcile w h clock d).result = .ok n) : (repairTail w d).result = .ok () ∧
    ∃ rs, rows w ((repairTail w d).final d) = .ok rs ∧
      (Prog.each (settle w h clock (outcomeReferences rs))
        (rs.map fun r => (r, Site.observationOf ((repairTail w d).final d) r)) ((repairTail w d).final d)).result = .ok n ∧
      (reconcile w h clock d).final d = (Prog.each (settle w h clock (outcomeReferences rs))
        (rs.map fun r => (r, Site.observationOf ((repairTail w d).final d) r)) ((repairTail w d).final d)).final
          ((repairTail w d).final d) := by
  cases hrep : (repairTail w d).result with
  | error e =>
    simp only [reconcile, Prog.andThen, hrep] at hok
    cases hok
  | ok u =>
    cases u
    refine ⟨rfl, ?_⟩
    have hs' := (repairTail_returned hs hrep).1
    cases hr : rows w ((repairTail w d).final d) with
    | error e =>
      have hi : iterOperations w h ((repairTail w d).final d) = .error e := by
        rw [iterOperations, hr]
        rfl
      simp only [reconcile, Prog.andThen, hrep, Prog.read, hi] at hok
      cases hok
    | ok rs =>
      have hi := hs'.iterOperations_eq hr
      simp only [reconcile, Prog.andThen, hrep, Prog.read, hi, Exec.final_nil, List.nil_append, operations_rows] at hok ⊢
      exact ⟨rs, rfl, hok, List.foldl_append⟩

/-- The tail, if there is one, is set aside, and every row is still there. -/
theorem repairTail_ready (hr : Ready w h c d L) (hroom : Roomy w d) :
    ∃ writes s rs, repairTail w d = ⟨writes, .ok ()⟩ ∧ writes.foldl (fun _ x => x.2) d = s ∧ Site w h s L ∧ Tame s L ∧
      s.context = d.context ∧ s.raw = d.raw ∧ s.db = d.db ∧ rows w s = .ok rs ∧
      deliveries rs = deliveries d.journalRows ∧ outcomeReferences rs = outcomeReferences d.journalRows ∧
      Room w d.context rs (pending d.journalRows).length := by
  obtain ⟨hsite, ht, -, hret⟩ := hr
  obtain ⟨hsize, hroom⟩ := hroom
  have hwhole : ∀ rs, rows w d = .ok rs → repairTail w d = ⟨[], .ok ()⟩ →
      ∃ writes s rs, repairTail w d = ⟨writes, .ok ()⟩ ∧ writes.foldl (fun _ x => x.2) d = s ∧ Site w h s L ∧ Tame s L ∧
      s.context = d.context ∧ s.raw = d.raw ∧ s.db = d.db ∧ rows w s = .ok rs ∧
      deliveries rs = deliveries d.journalRows ∧ outcomeReferences rs = outcomeReferences d.journalRows ∧
      Room w d.context rs (pending d.journalRows).length := by
    intro rs hrs hrep
    refine ⟨[], d, rs, hrep, rfl, hsite, ht, rfl, rfl, rfl, hrs, ?_, ?_, ?_⟩
    · rw [rows_journalRows hrs]
    · rw [rows_journalRows hrs]
    · rw [← rows_journalRows hrs]
      exact fun more hv hlen => hroom more hv (Nat.le_succ_of_le hlen)
  cases hj : d.journal with
  | none => exact hwhole [] (rows_none hj) (repairTail_whole (.inl hj))
  | some f =>
    have hrows : d.journalRows = f.rows := by rw [Disk.journalRows, hj]; rfl
    have hf := hsize f (by rw [hj]; rfl)
    by_cases htail : f.tail = []
    · refine hwhole f.rows (rows_some hj hf htail (hsite.journal_valid hj)) ?_
      exact repairTail_whole (.inr ⟨f, hj, hf, htail⟩)
    · have hrep : Repairable w d f := ⟨hf, by rw [hret]; rfl⟩
      have hv := hsite.journal_valid hj
      have hpt : (Body.partialTail (w.fileHash f) (w.fileHash f)).ofRun d.context := ⟨trivial, trivial⟩
      rw [hrows] at hroom
      have hnext : ValidRows w (tailed w f).rows := validRows_next hv trivial
      have hfit : linesSize w (tailed w f).rows ≤ maximum := by
        refine hroom _ hnext (by simp) fun r hr => ?_
        rw [List.mem_singleton.mp hr]
        exact hpt
      refine ⟨_, (d.aside w f).holding (tailed w f), (tailed w f).rows, repairTail_torn hj hf htail hrep.2 hv, ?_,
        hsite.tailed hj hrep, tame_raw (d := d) rfl ht, rfl, rfl, rfl, rows_some rfl hfit rfl hnext, ?_, ?_, ?_⟩
      · rw [List.foldl_append, tailWrites_final, appendWrites_final]
        rfl
      · rw [hrows, tailed, deliveries_snoc]
        simp [nextRow, Body.asDelivery]
      · rw [hrows, tailed, outcomeReferences_snoc]
        simp [nextRow, Body.asSettlement]
      · intro more hvm hlen hm
        simp only [tailed, List.append_assoc] at hvm ⊢
        rw [hrows] at hlen
        refine hroom _ hvm (by simpa using hlen) fun r hr => ?_
        rcases List.mem_cons.mp hr with rfl | hr
        · exact hpt
        · exact hm r hr

/-- From any directory that applies of deliverable observations leave `reconcile` returns,
    each RECEIVED row then has one OUTCOME row, and a second `reconcile` changes nothing. -/
theorem reconcile_settles (ha : Applied w h c d) (clock : Nat → Int)
    (hturns : Turns h d clock d.db (pending d.journalRows)) (hroom : Roomy w d) :
    (reconcile w h clock d).result = .ok (pending d.journalRows).length ∧
    deliveries ((reconcile w h clock d).final d).journalRows = deliveries d.journalRows ∧
    (∀ n ∈ receivedReferences d.journalRows, ∃ outcome,
      outcomesAt ((reconcile w h clock d).final d).journalRows n = [outcome]) ∧
    ∀ later, reconcile w h later ((reconcile w h clock d).final d) = ⟨[], .ok 0⟩ := by
  obtain ⟨L, hr⟩ := ready ha
  obtain ⟨ws, s, rs, hrep, hfin, hs, ht, hc, hraw, hdb, hrs, hdel, hout, hroom'⟩ := repairTail_ready hr hroom
  have hv := (rows_ok hrs).1
  have hun : unsettled (outcomeReferences rs) rs = pending rs := rfl
  have hpend : pending rs = pending d.journalRows := by rw [pending, pending, hdel, hout]
  obtain ⟨ws', s', L', more, hrun, hfin', hs', hrs', hdel', hout'⟩ := @settle_all _ _ _ _ _ clock (outcomeReferences rs) rs hs ht hrs (fun _ hm => hm) (hun ▸ pending_nodup hv)
    (hun ▸ pending_open) (by rw [hun, hpend, hdb]; exact turns_raw hc hraw hturns) (by rw [hun, hpend, hc]; exact hroom')
  have hrec : reconcile w h clock d = ⟨ws ++ ws', .ok (pending rs).length⟩ := by
    simp only [reconcile, Prog.andThen, hrep, Prog.read, Exec.final, hfin, hs.iterOperations_eq hrs, List.foldl_nil,
      operations_rows, hrun, hun, List.nil_append]
  have hend : (reconcile w h clock d).final d = s' := by
    rw [hrec, Exec.final, List.foldl_append, hfin, hfin']
  have hrows := rows_journalRows hrs'
  have hall : deliveries (rs ++ more) = deliveries d.journalRows := by
    rw [deliveries, List.filterMap_append]
    change deliveries rs ++ deliveries more = _
    rw [hdel', List.append_nil, hdel]
  have hdone : ∀ n ∈ receivedReferences (rs ++ more), n ∈ outcomeReferences (rs ++ more) := by
    intro n hn
    have hsplit : outcomeReferences (rs ++ more) = outcomeReferences rs ++ outcomeReferences more := by
      simp [outcomeReferences, settlements, List.filterMap_append]
    rw [hsplit, hout', hun, List.mem_append]
    by_cases hm : n ∈ outcomeReferences rs
    · exact .inl hm
    · right
      rw [receivedReferences, hall, ← hdel] at hn
      obtain ⟨p, hp, rfl⟩ := List.mem_map.mp hn
      exact List.mem_map_of_mem (List.mem_filter.mpr ⟨hp, by simpa using hm⟩)
  rw [hend, hrec, hpend, hrows]
  refine ⟨rfl, hall, ?_, ?_⟩
  · intro n hn
    rw [receivedReferences, ← hall] at hn
    exact outcomesAt_unique (rows_ok hrs').1 (hdone n hn)
  · intro later
    refine reconcile_done hs' hrs' (List.filter_eq_nil_iff.mpr fun p hp => ?_) later
    simpa using hdone p.1 (List.mem_map_of_mem hp)

/-! ## A delivery of another build -/

def smallFresh : Disk := .fresh smallContext smallStore

/-- An observation whose `build_hash` is not the run's. -/
def foreignTerminal : Observation :=
  { smallTerminal 0 "" with buildHash := plain 0xdead#256 }

/-- The ingest raises on it once it is received, and so does every `reconcile`. -/
theorem reconcile_stuck : validateSyntheticObservation smallHashes smallContext foreignTerminal = .ok () ∧
    (apply smallWire smallHashes 12 foreignTerminal 0 smallFresh).result = .error (.ingest .runBinding) ∧
    (reconcile smallWire smallHashes (fun _ => 20)
      ((apply smallWire smallHashes 12 foreignTerminal 0 smallFresh).final smallFresh)).result =
        .error (.ingest .runBinding) :=
  ⟨by decide, by decide, by decide⟩

/-- An apply cut off once the delivery is received. -/
def smallCut : Disk := smallFresh.received smallWire [] (smallTerminal 0 "") 0

theorem smallCut_applied : Applied smallWire smallHashes smallContext smallCut := by
  refine @Applied.applied _ _ _ _ _ 12 (smallTerminal 0 "") 0 (.created smallStore_created) ?_ (List.mem_cons_of_mem _ ?_)
  · exact ⟨by decide, by decide, by decide, by decide⟩
  · change smallCut ∈ ((apply smallWire smallHashes 12 (smallTerminal 0 "") 0 smallFresh).writes.map (·.2))
    rw [apply_eq (rows_none rfl) (by decide) (fun o ho => absurd ho (by simp [smallFresh, Disk.fresh, Disk.rawFile]))]
    simp [appendWrites, smallCut, Disk.received, receivedRows]

theorem smallWire_size (rs : List Row) : linesSize smallWire rs = 4 * rs.length := by
  induction rs with
  | nil => rfl
  | cons r rs ih =>
    have he : linesSize smallWire (r :: rs) = 4 + linesSize smallWire rs := rfl
    rw [he, ih, List.length_cons]
    omega

theorem reconcile_settles_smallCut :
    (reconcile smallWire smallHashes (fun _ => 20) smallCut).result = .ok (pending smallCut.journalRows).length ∧
    deliveries ((reconcile smallWire smallHashes (fun _ => 20) smallCut).final smallCut).journalRows =
      deliveries smallCut.journalRows ∧
    (∀ n ∈ receivedReferences smallCut.journalRows, ∃ outcome,
      outcomesAt ((reconcile smallWire smallHashes (fun _ => 20) smallCut).final smallCut).journalRows n = [outcome]) ∧
    ∀ later, reconcile smallWire smallHashes later ((reconcile smallWire smallHashes (fun _ => 20) smallCut).final smallCut) =
      ⟨[], .ok 0⟩ := by
  refine reconcile_settles smallCut_applied (fun _ => 20) ?_ ⟨?_, ?_⟩
  · have hp : pending smallCut.journalRows = [(1, ⟨1002, 0, plain 0, plain 1⟩)] := by decide
    rw [hp]
    intro o ho
    have hf : smallCut.rawFile 1002 = some (smallTerminal 0 "") := by decide
    change smallCut.rawFile 1002 = some o at ho
    rw [hf] at ho
    cases ho
    exact ⟨⟨by decide, by decide, by decide, by decide⟩, trivial⟩
  · intro f hf
    cases hf
    decide
  · intro more _ hlen _
    have hp : (pending smallCut.journalRows).length = 1 := by decide
    have hj : smallCut.journalRows.length = 1 := by decide
    rw [hp] at hlen
    rw [smallWire_size, List.length_append, hj, maximum]
    omega

end BettingHelper.Delivery
