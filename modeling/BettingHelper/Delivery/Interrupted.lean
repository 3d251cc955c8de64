/-
  BettingHelper.Delivery.Interrupted — what `reconcile` makes of a delivery that was cut off.

  `reconcile` does not apply the delivery again where the store has a gap record or an
  acknowledgement of the same content hash. That is its outcome when the interrupted apply
  left it, or when the generation is open and this is a redelivery; but a redelivery that
  found its generation closed leaves nothing of its own, and is given the outcome of the
  delivery before it. `Recoverable` excludes that.

  Proved: in every history whose interrupted deliveries were recoverable, `reconcile` gives
  an interrupted delivery the outcome it would have had exactly when it is recoverable, and
  then a replay meets no other outcome (`reconcile_as_uninterrupted`).
-/

import BettingHelper.Delivery.Reconcile
import BettingHelper.Delivery.Replay

namespace BettingHelper.Delivery

open BettingHelper.Store BettingHelper.Ingest BettingHelper.Lib BettingHelper.Lib.Crash

/-- The observation's generation is ACTIVE, or the store has nothing of the observation. -/
def Recoverable (db : Db Int) (o : Observation) : Prop :=
  Open db o ∨ (∀ g ∈ db.gapRecords, g.gapId ≠ ⟨.gap, o.contentHash.value⟩) ∧
    ∀ r ∈ db.rawCommits, r.rawObservationContentHash ≠ o.contentHash.value
  deriving Decidable

/-- The directories of a run created at `t` and reconciled after each interrupted apply. The
    clock never stands before the creation. -/
inductive History (w : Wire) (h : Hashes) (c : Context) (t : Int) : Disk → Prop
  | created {db : Db Int} : createOfflineRun h c t = .ok db → History w h c t (.fresh c db)
  | delivered {d : Disk} {now : Int} {o : Observation} {b : BatchId} {outcome : Outcome} : History w h c t d → t ≤ now →
      (apply w h now o b d).result = .ok outcome → History w h c t ((apply w h now o b d).final d)
  | reconciled {d s : Disk} {now : Int} {o : Observation} {b : BatchId} {clock : Nat → Int} {n : Nat} :
      History w h c t d → t ≤ now → s ∈ crashes (apply w h now o b) d →
      (pending s.journalRows ≠ [] → Recoverable d.db o) → (∀ n, t ≤ clock n) →
      (reconcile w h clock s).result = .ok n → History w h c t ((reconcile w h clock s).final s)

variable {w : Wire} {h : Hashes} {c : Context} {t : Int} {d s : Disk} {L : Ledger} {rs : List Row} {o : Observation}
  {b : BatchId} {now : Int}

/-! ## On a ledger -/

theorem recoverable_iff (hs : Site w h d L) (hg : o.generation.value = 0) :
    Recoverable d.db o ↔ L.rupture = none ∨ found L o.contentHash.value = none := by
  rw [Recoverable, open_iff hs hg]
  refine or_congr_right ?_
  have hlog : (∀ r ∈ d.db.rawCommits, r.rawObservationContentHash ≠ o.contentHash.value) ↔
      L.log.find? (·.payload.contentHash = o.contentHash.value) = none := by
    rw [hs.tables, List.find?_eq_none]
    constructor
    · intro hno e he hx
      exact hno _ (List.mem_map_of_mem (Ledger.mem_log.mp he)) (of_decide_eq_true hx)
    · intro hno r hr hx
      obtain ⟨e, he, rfl⟩ := List.mem_map.mp hr
      refine hno e.commit ?_ (decide_eq_true hx)
      rw [Ledger.mem_log, ← (hs.first e he).1]
      exact he
  have hgap : (∀ g ∈ d.db.gapRecords, g.gapId ≠ ⟨.gap, o.contentHash.value⟩) ↔
      L.rupture.filter (·.digest = o.contentHash.value) = none := by
    rw [hs.tables]
    simp only [Ledger.tables]
    rcases L.rupture with _ | ⟨_ | ⟨y, z⟩, hi, n, e, u⟩ <;> simp [Rupture.gapRow]
  rw [hlog, hgap, found]
  cases L.rupture.filter (·.digest = o.contentHash.value) with
  | some r => simp
  | none => simp

/-- What is found of an observation in its open generation is what an apply of it answers. -/
theorem found_decides (hs : Site w h d L) (hf : d.rawFile o.contentHash.value = some o) {outcome : Outcome}
    (hfound : found L o.contentHash.value = some outcome) (hr : L.rupture = none) (now : Int) :
    outcomeOf (L.apply h now o).2 = .ok outcome := by
  obtain ⟨e, hm, rfl, hx, hseq, hk, ht⟩ := hs.found_commit hf hfound hr
  have hvd := @apply_verdict _ _ _ _ now hs.sound hs.context (hs.synthetic o (rawFile_mem hf).1)
  generalize (L.apply h now o).2 = result at hvd ⊢
  generalize (L.apply h now o).1 = L' at hvd
  cases hvd with
  | refused e hno _ => exact absurd ht hno
  | closed _ hc =>
    rw [hr] at hc
    cases hc
  | duplicate e' _ _ hm' hk' hseq' _ =>
    rw [Chain.link_unique hs.sound.linked hm' hm (hk'.trans hk.symm) (hseq'.trans hseq.symm)]
    rfl
  | failed _ _ hno => exact absurd hx (hno e hm hk hseq)
  | applied _ _ hq _ =>
    have hb := (Chain.seq_bounds hs.sound.linked hm).2
    rw [hk] at hb
    omega
  | ruptured cause _ _ hno => exact absurd hx (hno e hm hk hseq)

/-- What an apply that changed the ledger leaves of the observation is what it answered. -/
theorem found_after (hs : Site w h d L) (hf : d.rawFile o.contentHash.value = some o)
    (hne : (L.apply h now o).1 ≠ L) : L.rupture = none ∧ ∃ outcome,
      found (L.apply h now o).1 o.contentHash.value = some outcome ∧ outcomeOf (L.apply h now o).2 = .ok outcome := by
  have hvd := @apply_verdict _ _ _ _ now hs.sound hs.context (hs.synthetic o (rawFile_mem hf).1)
  rcases hvd.change with he | ⟨-, hr, hq, -, he, hres⟩ | ⟨cause, -, hr, -, he, hres⟩
  · exact absurd he hne
  · refine ⟨hr, .applied (ack (L.nextCommit h now o)), ?_, by rw [hres]; rfl⟩
    rw [he, found, show (L.append (L.nextCommit h now o) false).rupture = none from hr, Ledger.log_append_applied,
      List.find?_append]
    have hnone : L.log.find? (·.payload.contentHash = o.contentHash.value) = none := by
      refine List.find?_eq_none.mpr fun e hm hx => ?_
      obtain ⟨o', ho', hseq, -⟩ := hs.commits e hm
      rw [show e.payload.contentHash = o.contentHash.value by simpa using hx, hf] at ho'
      cases ho'
      have hb := (Chain.seq_bounds hs.sound.linked hm).2
      rw [(hs.first _ (Ledger.mem_log.mp hm)).2] at hb
      omega
    rw [hnone]
    simp [Ledger.nextCommit]
  · refine ⟨hr, .rejected (gapCode cause.reason), ?_, ?_⟩
    · rw [he, found]
      simp [Option.filter]
    · rw [hres]
      cases cause <;> rfl

/-! ## Where an apply is cut off -/

/-- Each state of an append has the old rows, or is the last. -/
theorem appendWrites_rows {body : Body} (hr : rows w d = .ok rs) {x : Place × Disk}
    (hx : x ∈ appendWrites w body rs d) :
    (∃ f, x.2 = d.holding f ∧ f.rows = rs) ∨ x.2 = d.holding ⟨rs ++ [nextRow w rs body], []⟩ := by
  simp only [appendWrites, List.mem_append, List.mem_map, List.mem_range, List.mem_singleton] at hx
  rcases hx with (hx | ⟨n, -, rfl⟩) | rfl
  · split at hx
    · rename_i hn
      rw [rows_none hn] at hr
      cases hr
      rw [List.mem_singleton.mp hx]
      exact .inl ⟨_, rfl, rfl⟩
    · cases hx
  · exact .inl ⟨_, rfl, rfl⟩
  · exact .inr rfl

/-- A crash of an apply leaves the delivery unknown, received with or without the ingest's
    decision, or answered. -/
inductive CutOff (w : Wire) (h : Hashes) (L : Ledger) (now : Int) (o : Observation) (b : BatchId) (d s : Disk) : Prop
  | unknown : s.journalRows = d.journalRows → Site w h s L → CutOff w h L now o b d s
  | received {rs : List Row} {M : Ledger} : rows w d = .ok rs → validateSyntheticObservation h d.context o = .ok () →
      d.agrees o → s.journalRows = receivedRows w rs o b → s.rawFile o.contentHash.value = some o → Site w h s M →
      M = L ∨ M = (L.apply h now o).1 → CutOff w h L now o b d s
  | answered {outcome : Outcome} : (apply w h now o b d).result = .ok outcome → s = (apply w h now o b d).final d →
      CutOff w h L now o b d s

theorem apply_cutOff (hs : Site w h d L) (hc : s ∈ crashes (apply w h now o b) d) : CutOff w h L now o b d s := by
  rcases List.mem_cons.mp hc with rfl | hc
  · exact .unknown rfl hs
  obtain ⟨x, hx, rfl⟩ := List.mem_map.mp hc
  obtain ⟨rs, hr, hv, ha⟩ := apply_accepted hx
  have hrst : rows w (d.stored o) = .ok rs := (rows_congr (stored_journal o)).trans hr
  have hraw : x.2.rawFile o.contentHash.value = some o := by
    rw [rawFile_raw (congrArg (·.2.1) (apply_files x hx))]
    exact Site.rawFile_stored ha
  have hwhole := @apply_eq _ _ _ _ now _ b hr hv ha
  rw [hwhole] at hx
  rcases List.mem_append.mp hx with hx | hx
  · rcases List.mem_append.mp hx with hx | hx
    · unfold storeWrites at hx
      split at hx
      · rw [List.mem_singleton.mp hx]
        exact .unknown (by rw [Disk.journalRows, stored_journal]; rfl) (hs.stored hv)
      · cases hx
    · have hsite := (hs.stored hv).appending hrst (received_refers o b) (Site.backed_received ha hv) hx
      rcases appendWrites_rows hrst hx with ⟨f, he, hf⟩ | he
      · refine .unknown ?_ hsite
        rw [he, rows_journalRows hr]
        exact hf
      · exact .received hr hv ha (by rw [he]; rfl) hraw hsite (.inl rfl)
  · have hsite := (hs.received hr hv ha).applyReceived_writes (Site.rawFile_stored ha) (Site.received_pending hr o b) x hx
    have hdecided : x.2.journalRows = receivedRows w rs o b → CutOff w h L now o b d x.2 :=
      fun he => .received hr hv ha he hraw hsite (.inr rfl)
    cases hrec : rows w (d.received w rs o b) with
    | error e =>
      obtain ⟨e', he⟩ := @applyReceived_unread _ h _ now ((receivedReferences rs).length + 1) o _ hrec
      rw [he] at hx
      rw [List.mem_singleton.mp hx] at hdecided ⊢
      exact hdecided rfl
    | ok rs' =>
      have hrr : rs' = receivedRows w rs o b := (rows_journalRows hrec).symm
      subst hrr
      rcases @applyReceived_cases _ h _ _ now _ _ o hrec (receivedAt_received (rows_ok hr).1 o b)
        (outcomesAt_received (rows_ok hr).1 o b) with ⟨out, -, -, he⟩ | ⟨-, e, he⟩
      · rw [he] at hx hwhole
        rcases List.mem_cons.mp hx with rfl | hx
        · exact hdecided rfl
        · rcases appendWrites_rows (d := (d.received w rs o b).decided h now o) hrec hx with ⟨f, he', hf⟩ | he'
          · refine hdecided ?_
            rw [he']
            exact hf
          · refine @CutOff.answered _ _ _ _ _ _ _ _ out (by rw [hwhole]) ?_
            rw [he', hwhole, Exec.final, List.foldl_append, List.foldl_cons, appendWrites_final]
      · rw [he] at hx
        rw [List.mem_singleton.mp hx] at hdecided ⊢
        exact hdecided rfl

/-- Every crash leaves the context, and the raw files with perhaps this one more. -/
theorem crash_frame (hs : s ∈ crashes (apply w h now o b) d) : s.context = d.context ∧
    ∀ x o', d.rawFile x = some o' → s.rawFile x = some o' := by
  rcases List.mem_cons.mp hs with rfl | hs
  · exact ⟨rfl, fun _ _ hf => hf⟩
  · obtain ⟨x, hx, rfl⟩ := List.mem_map.mp hs
    have hfiles := apply_files x hx
    have hraw : x.2.raw = (d.stored o).raw := congrArg (·.2.1) hfiles
    refine ⟨(congrArg (·.1) hfiles).trans (stored_frame o).1, fun y o' hf => ?_⟩
    rw [rawFile_raw hraw]
    exact rawFile_stays hf

/-! ## The outcome of one pending delivery -/

theorem pending_nil_iff : pending rs = [] ↔ ∀ n ∈ receivedReferences rs, n ∈ outcomeReferences rs := by
  rw [pending, List.filter_eq_nil_iff, receivedReferences, List.forall_mem_map]
  exact forall₂_congr fun p _ => by simp

theorem pending_received (hv : ValidRows w rs) (hp : pending rs = []) :
    pending (receivedRows w rs o b) =
      [((receivedReferences rs).length + 1, ⟨o.contentHash.value, b, o.generation, o.sequence⟩)] := by
  have hn : (receivedReferences rs).length + 1 ∉ outcomeReferences rs :=
    fun hm => not_mem_receivedReferences hv ((outcomeReferences_ok hv).2 _ hm)
  have ho : outcomeReferences (receivedRows w rs o b) = outcomeReferences rs := by
    rw [receivedRows, outcomeReferences_snoc]
    exact List.append_nil _
  rw [pending, ho, receivedRows, deliveries_snoc, List.filter_append]
  change pending rs ++ _ = _
  rw [hp]
  simp [nextRow, receivedBody, Body.asDelivery, hn]

theorem pending_tailed {mid : List Row} (hmid : ∀ m ∈ mid, ∃ a y, m.body = .partialTail a y) :
    pending (rs ++ mid) = pending rs := by
  have hd : mid.filterMap (·.body.asDelivery) = [] := by
    refine List.filterMap_eq_nil_iff.mpr fun m hm => ?_
    obtain ⟨a, y, hb⟩ := hmid m hm
    rw [hb]
    rfl
  have ho : mid.filterMap (·.body.asSettlement) = [] := by
    refine List.filterMap_eq_nil_iff.mpr fun m hm => ?_
    obtain ⟨a, y, hb⟩ := hmid m hm
    rw [hb]
    rfl
  have h1 : deliveries (rs ++ mid) = deliveries rs := by
    rw [deliveries, List.filterMap_append, hd, List.append_nil]
    rfl
  have h2 : outcomeReferences (rs ++ mid) = outcomeReferences rs := by
    rw [outcomeReferences, settlements, List.filterMap_append, ho, List.append_nil]
    rfl
  rw [pending, pending, h1, h2]

/-- A loop over the rows with one pending delivery records what is found of it, or else what
    the ingest answers. -/
theorem settle_single {clock : Nat → Int} {n k : Nat} {x : Received} (hs : Site w h d L) (hr : rows w d = .ok rs)
    (hp : pending rs = [(n, x)]) (hf : d.rawFile x.rawHash = some o)
    (hok : (Prog.each (settle w h clock (outcomeReferences rs))
      (rs.map fun r => (r, Site.observationOf d r)) d).result = .ok k) :
    ∃ outcome L', Site w h ((Prog.each (settle w h clock (outcomeReferences rs))
        (rs.map fun r => (r, Site.observationOf d r)) d).final d) L' ∧
      ((Prog.each (settle w h clock (outcomeReferences rs))
        (rs.map fun r => (r, Site.observationOf d r)) d).final d).files = d.files ∧
      ((Prog.each (settle w h clock (outcomeReferences rs))
        (rs.map fun r => (r, Site.observationOf d r)) d).final d).journalRows =
          rs ++ [nextRow w rs (.outcome n outcome)] ∧
      ((found L x.rawHash = some outcome ∧ L' = L) ∨ (found L x.rawHash = none ∧
        outcomeOf (L.apply h (clock n) o).2 = .ok outcome ∧ L' = (L.apply h (clock n) o).1)) := by
  have hv := (rows_ok hr).1
  have hmem : (n, x) ∈ pending rs := by rw [hp]; exact List.mem_singleton_self _
  have hnone : n ∉ outcomeReferences rs := pending_open _ hmem
  obtain ⟨r, hm, hb⟩ := mem_deliveries.mp (List.mem_filter.mp hmem).1
  obtain ⟨l, m, hlm⟩ := List.append_of_mem hm
  have hskip : ∀ r' ∈ l ++ m, ∀ n' x', r'.body = .received n' x' → n' ∈ outcomeReferences rs := by
    intro r' hm' n' x' hb'
    refine settled_mem (r := r') (x := x') ?_ hb' fun hpn => ?_
    · rw [hlm]
      exact List.mem_append.mpr ((List.mem_append.mp hm').imp id (List.mem_cons_of_mem r))
    · rw [hp] at hpn
      have hn' : n' = n := congrArg Prod.fst (List.mem_singleton.mp hpn)
      have hnd := receivedReferences_nodup hv
      have hsplit : receivedReferences rs = receivedReferences l ++ n :: receivedReferences m := by
        rw [hlm, receivedReferences, deliveries, List.filterMap_append, List.filterMap_cons, hb]
        simp [Body.asDelivery, receivedReferences, deliveries]
      have hin : n ∈ receivedReferences l ++ receivedReferences m := by
        have hmem' : (n', x') ∈ deliveries (l ++ m) := mem_deliveries.mpr ⟨r', hm', hb'⟩
        rw [deliveries, List.filterMap_append] at hmem'
        rw [← hn', receivedReferences, receivedReferences, ← List.map_append]
        exact List.mem_map_of_mem (f := fun p : Nat × Received => p.1) hmem'
      rw [hsplit] at hnd
      exact (List.nodup_middle.mp hnd).notMem hin
  have hobs : Site.observationOf d r = some o := by
    unfold Site.observationOf
    rw [hb]
    exact hf
  have heach : Prog.each (settle w h clock (outcomeReferences rs)) (rs.map fun r => (r, Site.observationOf d r)) d =
      ⟨(settle w h clock (outcomeReferences rs) (r, some o) d).writes,
        (settle w h clock (outcomeReferences rs) (r, some o) d).result.map fun done => if done then 1 else 0⟩ := by
    have hmap : (rs.map fun r => (r, Site.observationOf d r)) = (l.map fun r => (r, Site.observationOf d r)) ++
        (r, some o) :: (m.map fun r => (r, Site.observationOf d r)) := by
      conv => lhs; rw [hlm]
      rw [List.map_append, List.map_cons, hobs]
    rw [hmap, Prog.each_single]
    intro op hop t
    rw [← List.map_append] at hop
    obtain ⟨r', hm', rfl⟩ := List.mem_map.mp hop
    exact settle_done (hskip r' hm')
  have hback := hs.backed r (by rw [rows_journalRows hr]; exact hm)
  rw [hb] at hback
  obtain ⟨o', hf', hh, -, hq⟩ := hback
  rw [hf] at hf'
  cases hf'
  have hxo : o.contentHash.value = x.rawHash := by rw [hh]; rfl
  have hfo : d.rawFile o.contentHash.value = some o := by rw [hxo]; exact hf
  have hidx : n ∈ receivedReferences rs := List.mem_map_of_mem (List.mem_filter.mp hmem).1
  obtain ⟨y, hy⟩ := receivedAt_unique hv hidx
  have hno := not_not.mp (mt mem_outcomeReferences.mpr hnone)
  rw [heach] at hok ⊢
  rw [hs.settle_eq hb hnone hf hq] at hok ⊢
  cases hfound : found L x.rawHash with
  | some outcome =>
    rw [hfound] at hok
    simp only at hok ⊢
    by_cases hrec : Recordable h d y outcome none
    · rw [recordOutcome_eq hr hy hno hrec, Exec.final, appendWrites_final]
      exact ⟨outcome, L, hs.appended hr (outcome_refers hv hidx hnone outcome) trivial, rfl, rfl, .inl ⟨rfl, rfl⟩⟩
    · obtain ⟨e, he⟩ := @recordOutcome_refused _ _ _ _ n _ _ _ hr hy hno hrec
      rw [he] at hok
      cases hok
  | none =>
    rw [hfound] at hok
    simp only at hok ⊢
    rcases @applyReceived_cases _ h _ _ (clock n) _ _ o hr hy hno with ⟨out, hout, -, he⟩ | ⟨-, e, he⟩
    · rw [he, Exec.final, List.foldl_cons, appendWrites_final]
      have hr' : rows w (d.decided h (clock n) o) = .ok rs := hr
      have hi : Site w h (d.decided h (clock n) o) (L.apply h (clock n) o).1 := hs.ingested hfo _
      refine ⟨out, _, hi.appended hr' (outcome_refers hv hidx hnone out) trivial, rfl, rfl, .inr ⟨trivial, ?_, rfl⟩⟩
      rw [hs.tables, Ledger.apply_tables hs.sound] at hout
      exact hout
    · rw [he] at hok
      cases hok

/-! ## Histories tell their store's story -/

/-- No delivery is pending, and the journal tells the ledger. -/
structure Settled (w : Wire) (h : Hashes) (t : Int) (d : Disk) (L : Ledger) : Prop where
  site : Site w h d L
  created : L.createdAtUs = t
  answered : pending d.journalRows = []
  told : Tells h d d.journalRows L

/-- A PARTIAL_TAIL row tells nothing. -/
theorem tell_tailed {mid : List Row} (hmid : ∀ m ∈ mid, ∃ a y, m.body = .partialTail a y) (u : Told) :
    Keyed.run (tellRow h d) u mid = some u := by
  induction mid with
  | nil => rfl
  | cons m mid ih =>
    obtain ⟨a, y, hm⟩ := hmid m List.mem_cons_self
    simp only [Keyed.run, tellRow, hm]
    exact ih fun m' hm' => hmid m' (List.mem_cons_of_mem _ hm')

/-- More raw files change nothing of what rows tell. -/
theorem tells_frame (ht : Tells h d rs L) (hc : s.context = d.context)
    (hraw : ∀ x o', d.rawFile x = some o' → s.rawFile x = some o') : Tells h s rs L := by
  obtain ⟨seen, hseen⟩ := ht
  refine ⟨seen, ?_⟩
  rw [hc]
  refine Keyed.run_mono (fun u a v hu => ?_) hseen
  unfold tellRow at hu ⊢
  cases hab : a.body with
  | received m y =>
    rw [hab] at hu
    obtain ⟨o', ho', hu⟩ := Option.bind_eq_some_iff.mp hu
    simp only [hraw _ o' ho', Option.bind_some]
    exact hu
  | outcome m y => rw [hab] at hu; exact hu
  | ackConfirmation g q y => rw [hab] at hu; exact hu
  | partialTail y z => rw [hab] at hu; exact hu

theorem tells_tailed (ht : Tells h d rs L) (hc : s.context = d.context) (hraw : s.raw = d.raw) {mid : List Row}
    (hmid : ∀ m ∈ mid, ∃ a y, m.body = .partialTail a y) : Tells h s (rs ++ mid) L := by
  obtain ⟨seen, hseen⟩ := tells_frame ht hc fun x o' hf => by rw [rawFile_raw hraw]; exact hf
  refine ⟨seen, ?_⟩
  rw [Keyed.run_append, hseen]
  exact tell_tailed hmid _

/-- Told a delivery and its outcome, the ledger has decided on it. -/
theorem tells_answered (ht : Tells h d rs L) (hc : s.context = d.context)
    (hraw : ∀ x o', d.rawFile x = some o' → s.rawFile x = some o') {n : Nat} {x : Received}
    (hf : s.rawFile x.rawHash = some o) {r r' : Row} {mid : List Row} {outcome : Outcome} {L' : Ledger}
    (hb : r.body = .received n x) (hmid : ∀ m ∈ mid, ∃ a y, m.body = .partialTail a y) (hb' : r'.body = .outcome n outcome)
    (hdec : ∃ out, outcomeOf (L.erase.apply h 0 o).2 = .ok out ∧ out.logical = outcome.logical)
    (he : L'.erase = (L.erase.apply h 0 o).1) : Tells h s (rs ++ r :: (mid ++ [r'])) L' := by
  obtain ⟨seen, hseen⟩ := tells_frame ht hc hraw
  obtain ⟨out, hout, hlog⟩ := hdec
  have hstep : tellRow h s (L.erase, seen) r = some ((L.erase.apply h 0 o).1, (n, out.logical) :: seen) := by
    simp only [tellRow, hb, hf, Option.bind_some, hout]
  refine ⟨(n, out.logical) :: seen, ?_⟩
  rw [Keyed.run_append, hseen]
  simp only [Option.bind_some, Keyed.run, hstep]
  rw [Keyed.run_append, tell_tailed hmid]
  simp [Keyed.run, tellRow, hb', hlog, he]

theorem pending_answered {n : Nat} {x : Received} {r r' : Row} {mid : List Row} {outcome : Outcome} (hp : pending rs = [])
    (hb : r.body = .received n x) (hmid : ∀ m ∈ mid, ∃ a y, m.body = .partialTail a y) (hb' : r'.body = .outcome n outcome) :
    pending (rs ++ r :: (mid ++ [r'])) = [] := by
  rw [pending_nil_iff] at hp ⊢
  have hdel : receivedReferences (rs ++ r :: (mid ++ [r'])) = receivedReferences rs ++ [n] := by
    have hm : deliveries mid = [] := by
      refine List.filterMap_eq_nil_iff.mpr fun m hm => ?_
      obtain ⟨a, y, hmb⟩ := hmid m hm
      rw [hmb]
      rfl
    simp only [receivedReferences, deliveries, List.filterMap_append, List.filterMap_cons, hb, hb', Body.asDelivery,
      List.filterMap_nil] at hm ⊢
    rw [hm]
    simp
  have hn : n ∈ outcomeReferences (rs ++ r :: (mid ++ [r'])) :=
    List.mem_map.mpr ⟨(n, outcome), mem_settlements.mpr ⟨r', by simp, hb'⟩, rfl⟩
  intro m hm
  rw [hdel, List.mem_append, List.mem_singleton] at hm
  rcases hm with hm | rfl
  · have hin := hp m hm
    rw [outcomeReferences, settlements, List.filterMap_append, List.map_append]
    exact List.mem_append_left _ hin
  · exact hn

theorem settled_created {db : Db Int} (hc : createOfflineRun h c t = .ok db) :
    Settled w h t (.fresh c db) (Ledger.fresh c t) := ⟨site_fresh hc, rfl, rfl, [], rfl⟩

/-- An apply that returned leaves its outcome told. -/
theorem settled_delivered (hs : Settled w h t d L) (hnow : t ≤ now) {outcome : Outcome}
    (hok : (apply w h now o b d).result = .ok outcome) :
    Settled w h t ((apply w h now o b d).final d) (L.apply h now o).1 := by
  obtain ⟨rs, hr, hrec, hv, ha, hout, hfin⟩ := apply_returned hok
  rw [hs.site.tables, Ledger.apply_tables hs.site.sound] at hout
  obtain ⟨he, hdec⟩ := apply_told hs.site.sound (o := o) (hs.created ▸ hnow)
  have hc : (d.answered w h now rs o b outcome).context = d.context := (stored_frame o).1
  have hraw : ∀ x o', d.rawFile x = some o' → (d.answered w h now rs o b outcome).rawFile x = some o' :=
    fun _ _ hf => rawFile_stays hf
  have hf : (d.answered w h now rs o b outcome).rawFile o.contentHash.value = some o := Site.rawFile_stored ha
  have hj : (d.answered w h now rs o b outcome).journalRows = rs ++ nextRow w rs (receivedBody rs o b) ::
      ([] ++ [nextRow w (receivedRows w rs o b) (.outcome ((receivedReferences rs).length + 1) outcome)]) := by
    simp [Disk.journalRows, Disk.answered, Disk.holding, receivedRows]
  have htold := hs.told
  have hans := hs.answered
  rw [rows_journalRows hr] at htold hans
  rw [hfin]
  refine ⟨hs.site.answered hr hrec hv ha outcome, ?_, ?_, ?_⟩
  · rw [← hs.created]
    exact (Ledger.apply_change now o).createdAtUs
  · rw [hj]
    exact pending_answered hans rfl (fun _ hm => by cases hm) rfl
  · rw [hj]
    exact tells_answered htold hc hraw (x := ⟨o.contentHash.value, b, o.generation, o.sequence⟩) hf rfl
      (fun _ hm => by cases hm) rfl (hdec outcome hout) he

/-- What is recorded of a recoverable delivery, found or decided anew, is the decision of the
    ledger it met; and the ledger left is that decision's. -/
theorem recovered_decision (hs : Site w h d L) (hf : d.rawFile o.contentHash.value = some o) (hnow : L.createdAtUs ≤ now)
    {M L' : Ledger} (hM : M = L ∨ M = (L.apply h now o).1) {later : Int} (hlater : L.createdAtUs ≤ later) {outcome : Outcome}
    (hrec : L.rupture = none ∨ found L o.contentHash.value = none)
    (hout : (found M o.contentHash.value = some outcome ∧ L' = M) ∨ (found M o.contentHash.value = none ∧
      outcomeOf (M.apply h later o).2 = .ok outcome ∧ L' = (M.apply h later o).1)) :
    (∃ out, outcomeOf (L.erase.apply h 0 o).2 = .ok out ∧ out.logical = outcome.logical) ∧
      L'.erase = (L.erase.apply h 0 o).1 := by
  obtain ⟨he, hdec⟩ := apply_told hs.sound (o := o) hnow
  obtain ⟨he', hdec'⟩ := apply_told hs.sound (o := o) hlater
  by_cases hsame : M = L
  · rw [hsame] at hout
    rcases hout with ⟨hfound, rfl⟩ | ⟨-, hout, rfl⟩
    · have hopen : L'.rupture = none := by
        rcases hrec with hrec | hrec
        · exact hrec
        · rw [hfound] at hrec
          cases hrec
      refine ⟨hdec outcome (found_decides hs hf hfound hopen now), ?_⟩
      rw [← he, hs.found_same hf hfound]
    · exact ⟨hdec' outcome hout, he'⟩
  · have hMe := hM.resolve_left hsame
    rw [hMe] at hsame hout
    obtain ⟨-, out, hfound, hout'⟩ := found_after hs hf hsame
    rcases hout with ⟨hf', rfl⟩ | ⟨hf', -⟩
    · have hoo : out = outcome := Option.some.inj (hfound.symm.trans hf')
      exact ⟨hdec outcome (hoo ▸ hout'), he⟩
    · rw [hfound] at hf'
      cases hf'

/-- What a `reconcile` that returns makes of a delivery received on a settled directory. -/
theorem reconcile_received (hs : Settled w h t d L) (hr : rows w d = .ok rs) {M : Ledger} (hM : Site w h s M)
    (hj : s.journalRows = receivedRows w rs o b) (hf : s.rawFile o.contentHash.value = some o) {clock : Nat → Int} {k : Nat}
    (hok : (reconcile w h clock s).result = .ok k) :
    ∃ outcome L' mid r, Site w h ((reconcile w h clock s).final s) L' ∧
      ((reconcile w h clock s).final s).context = s.context ∧ ((reconcile w h clock s).final s).raw = s.raw ∧
      ((reconcile w h clock s).final s).journalRows = rs ++ nextRow w rs (receivedBody rs o b) :: (mid ++ [r]) ∧
      (∀ m ∈ mid, ∃ a y, m.body = .partialTail a y) ∧ r.body = .outcome ((receivedReferences rs).length + 1) outcome ∧
      ((found M o.contentHash.value = some outcome ∧ L' = M) ∨ (found M o.contentHash.value = none ∧
        outcomeOf (M.apply h (clock ((receivedReferences rs).length + 1)) o).2 = .ok outcome ∧
        L' = (M.apply h (clock ((receivedReferences rs).length + 1)) o).1)) := by
  obtain ⟨hrep, rs', hrs', heach, hfin⟩ := reconcile_returned hM hok
  obtain ⟨hsite, hc, hraw, -, mid, hmid, hpt⟩ := repairTail_returned hM hrep
  have hans := hs.answered
  rw [rows_journalRows hr] at hans
  have hrows : rs' = receivedRows w rs o b ++ mid := by
    rw [← rows_journalRows hrs', hmid, hj]
  have hp : pending rs' = [((receivedReferences rs).length + 1, ⟨o.contentHash.value, b, o.generation, o.sequence⟩)] := by
    rw [hrows, pending_tailed hpt]
    exact pending_received (rows_ok hr).1 hans
  have hf' : ((repairTail w s).final s).rawFile o.contentHash.value = some o := by
    rw [rawFile_raw hraw]
    exact hf
  obtain ⟨outcome, L', hsite', hfiles, hjr, hcase⟩ := settle_single hsite hrs' hp hf' heach
  refine ⟨outcome, L', mid, nextRow w rs' (.outcome ((receivedReferences rs).length + 1) outcome),
    by rw [hfin]; exact hsite', ?_, ?_, ?_, hpt, rfl, hcase⟩
  · rw [hfin]
    exact (congrArg (·.1) hfiles).trans hc
  · rw [hfin]
    exact (congrArg (·.2.1) hfiles).trans hraw
  · rw [hfin, hjr, hrows, receivedRows]
    simp

/-- A `reconcile` of a settled directory, tail or not, leaves it settled. -/
theorem reconcile_settled {L : Ledger} (hs : Site w h s L) (hc : L.createdAtUs = t) (hp : pending s.journalRows = [])
    (ht : Tells h s s.journalRows L) {clock : Nat → Int} {k : Nat} (hok : (reconcile w h clock s).result = .ok k) :
    Settled w h t ((reconcile w h clock s).final s) L := by
  obtain ⟨hrep, rs, hrs, -, hfin⟩ := reconcile_returned hs hok
  obtain ⟨hsite, hctx, hraw, -, mid, hmid, hpt⟩ := repairTail_returned hs hrep
  have hrows : rs = s.journalRows ++ mid := (rows_journalRows hrs).symm.trans hmid
  have hpr : pending rs = [] := by rw [hrows, pending_tailed hpt, hp]
  have hnone : (reconcile w h clock s).final s = (repairTail w s).final s := by
    rw [hfin, Prog.each_skip, Exec.final_nil]
    intro op hop
    obtain ⟨r, hm, rfl⟩ := List.mem_map.mp hop
    exact settle_done fun n x hb => settled_mem hm hb (by rw [hpr]; exact List.not_mem_nil)
  rw [hnone]
  refine ⟨hsite, hc, by rw [hmid, pending_tailed hpt, hp], ?_⟩
  rw [hmid]
  exact tells_tailed ht hctx hraw hpt

theorem history_reconciled (hs : Settled w h t d L) (hnow : t ≤ now) (hcrash : s ∈ crashes (apply w h now o b) d)
    (hrec : pending s.journalRows ≠ [] → Recoverable d.db o) {clock : Nat → Int} (hclock : ∀ n, t ≤ clock n) {k : Nat}
    (hok : (reconcile w h clock s).result = .ok k) : ∃ L', Settled w h t ((reconcile w h clock s).final s) L' := by
  obtain ⟨hc, hraw⟩ := crash_frame hcrash
  cases apply_cutOff hs.site hcrash with
  | unknown hj hsite =>
    refine ⟨L, reconcile_settled hsite hs.created ?_ ?_ hok⟩
    · rw [hj]
      exact hs.answered
    · rw [hj]
      exact tells_frame hs.told hc hraw
  | @received rs M hr hv ha hj hf hsite hM =>
    obtain ⟨outcome, L', mid, r, hsite', hc', hraw', hrows, hmid, hb, hcase⟩ :=
      reconcile_received hs hr hsite hj hf hok
    have hans := hs.answered
    have htold := hs.told
    rw [rows_journalRows hr] at hans htold
    have hg : o.generation.value = 0 := by
      rw [(validate_ok hv).1.2.2.2.2.2, ← hs.site.context]
      exact hs.site.sound.firstGeneration
    have hrec' : L.rupture = none ∨ found L o.contentHash.value = none := by
      refine (recoverable_iff hs.site hg).mp (hrec ?_)
      rw [hj, pending_received (rows_ok hr).1 hans]
      exact List.cons_ne_nil _ _
    obtain ⟨hdec, he⟩ := recovered_decision (hs.site.stored hv) (Site.rawFile_stored ha) (hs.created ▸ hnow) hM
      (hs.created ▸ hclock _) hrec' hcase
    refine ⟨L', hsite', ?_, ?_, ?_⟩
    · have hcr : ∀ N : Ledger, ∀ u, (N.apply h u o).1.createdAtUs = N.createdAtUs :=
        fun N u => (Ledger.apply_change u o).createdAtUs
      have hMc : M.createdAtUs = t := by rcases hM with rfl | rfl <;> simp only [hcr, hs.created]
      rcases hcase with ⟨-, rfl⟩ | ⟨-, -, rfl⟩
      · exact hMc
      · rw [hcr, hMc]
    · rw [hrows]
      exact pending_answered hans rfl hmid hb
    · rw [hrows]
      refine tells_answered htold (hc'.trans hc) (fun x o' hf' => ?_)
        (x := ⟨o.contentHash.value, b, o.generation, o.sequence⟩) ?_ rfl hmid hb hdec he
      · rw [rawFile_raw hraw']
        exact hraw x o' hf'
      · rw [rawFile_raw hraw']
        exact hf
  | answered hres he =>
    have hset := settled_delivered hs hnow hres
    rw [← he] at hset
    exact ⟨_, reconcile_settled hset.site hset.created hset.answered hset.told hok⟩

/-- Every history is settled. -/
theorem history_settled (hh : History w h c t d) : ∃ L, Settled w h t d L := by
  induction hh with
  | created hc => exact ⟨_, settled_created hc⟩
  | delivered _ hnow hok ih =>
    obtain ⟨L, hs⟩ := ih
    exact ⟨_, settled_delivered hs hnow hok⟩
  | reconciled _ hnow hcrash hrec hclock hok ih =>
    obtain ⟨L, hs⟩ := ih
    exact history_reconciled hs hnow hcrash hrec hclock hok

/-! ## As if not interrupted -/

/-- A delivery found closed does not get another outcome from what the store has of it. -/
theorem closed_differs {x : Digest} {outcome : Outcome} (hfound : found L x = some outcome) :
    outcome.logical ≠ (Outcome.rejected .closedGeneration).logical := by
  unfold found at hfound
  cases hr : L.rupture.filter (·.digest = x) with
  | some r =>
    rw [hr] at hfound
    cases hfound
    cases r.cause.reason <;> exact fun he => nomatch he
  | none =>
    rw [hr] at hfound
    obtain ⟨e, -, rfl⟩ := Option.map_eq_some_iff.mp hfound
    exact fun he => nomatch he

/-- An interrupted delivery of a history is given the outcome it would have had, at any
    reading of the clock, exactly when it is recoverable. Then a replay raises no
    E_OFFLINE_REPLAY_OUTCOME. -/
theorem reconcile_as_uninterrupted (hh : History w h c t d) (hnow : t ≤ now) (hcrash : s ∈ crashes (apply w h now o b) d)
    {clock : Nat → Int} (hclock : ∀ n, t ≤ clock n) :
    (∀ k, (reconcile w h clock s).result = .ok k → ∀ p ∈ pending s.journalRows, ∀ now' outcome', t ≤ now' →
      (apply w h now' o b d).result = .ok outcome' →
      ∃ outcome, outcomesAt ((reconcile w h clock s).final s).journalRows p.1 = [outcome] ∧
        (outcome.logical = outcome'.logical ↔ Recoverable d.db o)) ∧
    ((pending s.journalRows ≠ [] → Recoverable d.db o) → ∀ created replayClock, (∀ n, created ≤ replayClock n) →
      verifyReplayEquivalence w h clock created replayClock s ≠ .error .outcome) := by
  obtain ⟨L, hs⟩ := history_settled hh
  constructor
  · intro k hok p hp now' outcome' hnow' hok'
    obtain ⟨rs', hr', -, -, -, hout', -⟩ := apply_returned hok'
    rw [hs.site.tables, Ledger.apply_tables hs.site.sound] at hout'
    cases apply_cutOff hs.site hcrash with
    | unknown hj hsite =>
      rw [hj, hs.answered] at hp
      cases hp
    | answered hres he =>
      have hset := settled_delivered hs hnow hres
      rw [← he] at hset
      rw [hset.answered] at hp
      cases hp
    | @received rs M hr hv ha hj hf hsite hM =>
      obtain ⟨outcome, L', mid, r, hsite', -, -, hrows, hmid, hb, hcase⟩ := reconcile_received hs hr hsite hj hf hok
      have hans := hs.answered
      rw [rows_journalRows hr] at hans
      have hg : o.generation.value = 0 := by
        rw [(validate_ok hv).1.2.2.2.2.2, ← hs.site.context]
        exact hs.site.sound.firstGeneration
      rw [hj, pending_received (rows_ok hr).1 hans] at hp
      rw [List.mem_singleton.mp hp]
      have hone : outcomesAt ((reconcile w h clock s).final s).journalRows ((receivedReferences rs).length + 1) =
          [outcome] := by
        have hm : ((receivedReferences rs).length + 1, outcome) ∈
            settlements ((reconcile w h clock s).final s).journalRows := by
          refine mem_settlements.mpr ⟨r, ?_, hb⟩
          rw [hrows]
          simp
        obtain ⟨out, ho⟩ := outcomesAt_unique hsite'.rows
          (List.mem_map_of_mem (f := fun q : Nat × Outcome => q.1) hm)
        have hin : outcome ∈ outcomesAt ((reconcile w h clock s).final s).journalRows
            ((receivedReferences rs).length + 1) :=
          List.mem_map.mpr ⟨_, List.mem_filter.mpr ⟨hm, by simp⟩, rfl⟩
        rw [ho] at hin ⊢
        rw [List.mem_singleton.mp hin]
      refine ⟨outcome, hone, ?_⟩
      rw [recoverable_iff hs.site hg]
      have hst := hs.site.stored hv
      constructor
      · -- what is found in a closed generation is never its rejection
        intro hlog
        by_contra hno
        simp only [not_or] at hno
        obtain ⟨r', hr''⟩ := Option.ne_none_iff_exists'.mp hno.1
        have hsame : M = L := by
          by_contra hne
          have hMe := hM.resolve_left hne
          rw [hMe] at hne
          exact hno.1 (found_after hst (Site.rawFile_stored ha) hne).1
        rw [hsame] at hcase
        obtain ⟨out, hfound⟩ := Option.ne_none_iff_exists'.mp hno.2
        have hoo : found L o.contentHash.value = some outcome := by
          rcases hcase with ⟨hf', -⟩ | ⟨hf', -⟩
          · exact hf'
          · exact absurd hf' hno.2
        refine closed_differs hoo (hlog.trans ?_)
        have hvd := @apply_verdict _ _ _ _ now' hs.site.sound hs.site.context hv
        generalize (L.apply h now' o).2 = result at hvd hout'
        generalize (L.apply h now' o).1 = L'' at hvd
        cases hvd with
        | refused e _ he => rcases he with rfl | rfl <;> cases hout'
        | closed _ _ => cases hout'; rfl
        | duplicate _ _ hn _ _ _ _ => rw [hn] at hr''; cases hr''
        | failed _ hn _ => rw [hn] at hr''; cases hr''
        | applied _ hn _ _ => rw [hn] at hr''; cases hr''
        | ruptured _ _ hn _ => rw [hn] at hr''; cases hr''
      · intro hrec
        obtain ⟨⟨out, hout, hlog⟩, -⟩ := recovered_decision hst (Site.rawFile_stored ha) (hs.created ▸ hnow) hM
          (hs.created ▸ hclock _) hrec hcase
        obtain ⟨out', hout'', hlog'⟩ := (apply_told hs.site.sound (o := o) (hs.created ▸ hnow')).2 outcome' hout'
        rw [hout] at hout''
        cases hout''
        exact hlog.symm.trans hlog'
  · intro hrec created replayClock hreplay
    refine verify_no_outcome hreplay fun n hok => ?_
    obtain ⟨L', hs'⟩ := history_reconciled hs hnow hcrash hrec hclock hok
    exact ⟨L', hs'.site, hs'.told⟩

/-! ## A redelivery after a gap -/

/-- The first observation is applied, the third leaves a gap. -/
def smallGap : Disk :=
  (apply smallWire smallHashes 12 (smallTerminal 2 "") 1
    ((apply smallWire smallHashes 11 (smallTerminal 0 "") 0 smallFresh).final smallFresh)).final
    ((apply smallWire smallHashes 11 (smallTerminal 0 "") 0 smallFresh).final smallFresh)

theorem smallGap_history : History smallWire smallHashes smallContext 10 smallGap := by
  have h0 : History smallWire smallHashes smallContext 10 smallFresh := .created smallStore_created
  have h1 := @History.delivered _ _ _ _ _ 11 (smallTerminal 0 "") 0
    (.applied (ack ((Ledger.fresh smallContext 10).nextCommit smallHashes 11 (smallTerminal 0 "")))) h0 (by decide) (by decide)
  exact @History.delivered _ _ _ _ _ 12 (smallTerminal 2 "") 1 (.rejected .gap) h1 (by decide) (by decide)

/-- The first observation comes again, and the process is cut off once it is received. -/
def smallAgain : Disk := smallGap.received smallWire smallGap.journalRows (smallTerminal 0 "") 2

theorem smallAgain_crash : smallAgain ∈ crashes (apply smallWire smallHashes 13 (smallTerminal 0 "") 2) smallGap := by
  have hr : rows smallWire smallGap = .ok smallGap.journalRows := by decide
  have ha : smallGap.agrees (smallTerminal 0 "") := by
    have hf : smallGap.rawFile (smallTerminal 0 "").contentHash.value = some (smallTerminal 0 "") := by decide
    intro o' ho'
    rw [hf] at ho'
    exact (Option.some.inj ho').symm
  refine List.mem_cons_of_mem _ (List.mem_map.mpr
    ⟨(.appended (receivedBody smallGap.journalRows (smallTerminal 0 "") 2), smallAgain), ?_, rfl⟩)
  rw [apply_eq hr (by decide) ha]
  refine List.mem_append_left _ (List.mem_append_right _ ?_)
  simp [appendWrites, smallAgain, Disk.received, receivedRows]

/-- Left alone it is refused, its generation closed; `reconcile` records the first
    delivery's acknowledgement, and the replay does not agree. -/
theorem redelivery_misjudged :
    History smallWire smallHashes smallContext 10 smallGap ∧
    smallAgain ∈ crashes (apply smallWire smallHashes 13 (smallTerminal 0 "") 2) smallGap ∧
    (apply smallWire smallHashes 13 (smallTerminal 0 "") 2 smallGap).result = .ok (.rejected .closedGeneration) ∧
    outcomesAt ((reconcile smallWire smallHashes (fun _ => 20) smallAgain).final smallAgain).journalRows 3 =
      [.applied (ack ((Ledger.fresh smallContext 10).nextCommit smallHashes 11 (smallTerminal 0 "")))] ∧
    verifyReplayEquivalence smallWire smallHashes (fun _ => 20) 30 (fun _ => 40) smallAgain = .error .outcome :=
  ⟨smallGap_history, smallAgain_crash, by decide, by decide, by decide⟩

theorem reconcile_as_uninterrupted_smallAgain :
    (∀ k, (reconcile smallWire smallHashes (fun _ => 20) smallAgain).result = .ok k → ∀ p ∈ pending smallAgain.journalRows,
      ∀ now' outcome', 10 ≤ now' → (apply smallWire smallHashes now' (smallTerminal 0 "") 2 smallGap).result = .ok outcome' →
      ∃ outcome, outcomesAt ((reconcile smallWire smallHashes (fun _ => 20) smallAgain).final smallAgain).journalRows p.1 =
        [outcome] ∧ (outcome.logical = outcome'.logical ↔ Recoverable smallGap.db (smallTerminal 0 ""))) ∧
    ((pending smallAgain.journalRows ≠ [] → Recoverable smallGap.db (smallTerminal 0 "")) →
      ∀ created replayClock, (∀ n, created ≤ replayClock n) →
      verifyReplayEquivalence smallWire smallHashes (fun _ => 20) created replayClock smallAgain ≠ .error .outcome) :=
  reconcile_as_uninterrupted smallGap_history (by decide) smallAgain_crash fun _ => by decide

end BettingHelper.Delivery
