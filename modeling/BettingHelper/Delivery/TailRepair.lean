/-
  BettingHelper.Delivery.TailRepair — a crash while `reconcile` sets a partial tail aside.

  The repair renames the journal away, creates it anew, writes the complete lines back and
  appends a PARTIAL_TAIL row. What a later `reconcile` makes of the files a crash leaves
  there depends on how far it had come: an absent, empty or shortened journal is taken
  for what was delivered.

  Proved (`repair_keeps_rows`): the journal keeps every complete row where the crash came
  before the rename or after the last line was written back, and the fragment then left of
  the PARTIAL_TAIL row is not one set aside before. Anywhere else rows are lost, unless
  all those not yet back are OUTCOME or PARTIAL_TAIL rows (`repair_loses_rows`).
-/

import BettingHelper.Delivery.Calls
import BettingHelper.Ingest.Intact

namespace BettingHelper.Delivery

open BettingHelper.Store BettingHelper.Ingest BettingHelper.Lib BettingHelper.Lib.Crash

variable {w : Wire} {h : Hashes} {d : Disk} {rs : List Row}

/-! ## What the second half of reconcile does -/

/-- What outlives one more OUTCOME row and an `Ingestor.apply`, and what holds on the way. -/
structure Stable (w : Wire) (C : Place → Disk → Prop) (I : Disk → Prop) : Prop where
  outcome : ∀ d rs index outcome, I d → rows w d = .ok rs →
    I (d.holding ⟨rs ++ [nextRow w rs (.outcome index outcome)], []⟩)
  appending : ∀ d rs index outcome, I d → rows w d = .ok rs →
    ∀ x ∈ appendWrites w (.outcome index outcome) rs d, C x.1 x.2
  db : ∀ d db, I d → I { d with db := db } ∧ C .ingested { d with db := db }

variable {C : Place → Disk → Prop} {I : Disk → Prop}

theorem Stable.append (hI : Stable w C I) {index : Nat} {outcome : Outcome} (hd : I d) :
    Meets (append w (.outcome index outcome)) d C (fun _ => I) (fun _ => I) := by
  by_cases hok : (∃ e, rows w d = .error e) ∨ ¬(Body.outcome index outcome).dumpable
  · obtain ⟨e, he⟩ := append_refused hok
    refine ⟨?_, ?_, ?_⟩
    · rw [he]; intro x hx; cases hx
    · rw [he]; intro a ha; cases ha
    · rw [he]; intro _ _; exact hd
  · simp only [not_or, not_exists, not_not] at hok
    obtain ⟨hr, hb⟩ := hok
    cases hr' : rows w d with
    | error e => exact absurd hr' (hr e)
    | ok rs' =>
      refine ⟨?_, ?_, ?_⟩
      · rw [append_eq hr' hb]
        exact hI.appending d rs' index outcome hd hr'
      · rw [append_eq hr' hb, Exec.final, appendWrites_final]
        intro a _
        exact hI.outcome d rs' index outcome hd hr'
      · rw [append_eq hr' hb]; intro e he; cases he

theorem Stable.recordOutcome (hI : Stable w C I) {index : Nat} {outcome : Outcome} {o : Option Observation} (hd : I d) :
    Meets (recordOutcome w h index outcome o) d C (fun _ => I) (fun _ => I) := by
  refine (Meets.read (fun _ _ => hd) fun _ _ => hd).andThen fun new t ht => ?_
  split
  · exact hI.append ht
  · exact .ret ht

theorem Stable.applyReceived (hI : Stable w C I) {now : Int} {index : Nat} {o : Observation} (hd : I d) :
    Meets (applyReceived w h now index o) d C (fun _ => I) (fun _ => I) := by
  have hi : Meets (ingestApply h now o) d C (fun _ => I) (fun _ => I) := by
    refine ⟨fun x hx => ?_, fun _ _ => (hI.db d _ hd).1, fun _ _ => (hI.db d _ hd).1⟩
    rw [List.mem_singleton.mp hx]
    exact (hI.db d _ hd).2
  refine hi.andThen fun result t ht => ?_
  cases outcomeOf result with
  | error e => exact .raise ht
  | ok outcome => exact (hI.recordOutcome ht).andThen fun _ u hu => .ret hu

theorem Stable.settle (hI : Stable w C I) {clock : Nat → Int} {completed : List Nat} {op : Row × Option Observation}
    (hd : I d) : Meets (settle w h clock completed op) d C (fun _ => I) (fun _ => I) := by
  unfold Delivery.settle
  split
  · split
    · exact .ret hd
    · refine (Meets.read (fun _ _ => hd) fun _ _ => hd).andThen fun found t ht => ?_
      refine Meets.andThen (Q := fun _ => I) ?_ fun _ u hu => .ret hu
      rcases found with ⟨_ | gap, _ | ack⟩
      · exact (hI.applyReceived ht).andThen fun _ u hu => .ret hu
      · exact hI.recordOutcome ht
      · exact (Meets.read (fun _ _ => ht) fun _ _ => ht).andThen fun _ u hu => hI.recordOutcome hu
      · exact (Meets.read (fun _ _ => ht) fun _ _ => ht).andThen fun _ u hu => hI.recordOutcome hu
  · exact .ret hd

/-- After the tail is repaired `reconcile` appends OUTCOME rows only. -/
theorem Stable.reconcile (hI : Stable w (fun _ _ => True) I) {clock : Nat → Int} {t : Disk} {x : List (Place × Disk)}
    (hr : repairTail w d = ⟨x, .ok ()⟩) (ht : x.foldl (fun _ y => y.2) d = t) (hd : I t) :
    I ((reconcile w h clock d).final d) := by
  have hp : Meets (repairTail w) d (fun _ _ => True) (fun _ => I) (fun _ => I) := by
    refine ⟨fun _ _ => trivial, ?_, ?_⟩
    · rw [hr, Exec.final, ht]
      intro _ _
      exact hd
    · rw [hr]; intro e he; cases he
  have hall : Meets (Delivery.reconcile w h clock) d (fun _ _ => True) (fun _ => I) (fun _ => I) :=
    hp.andThen fun _ u hu => (Meets.read (fun _ _ => hu) fun _ _ => hu).andThen fun _ _ hv =>
      .each (fun _ _ _ hy => hI.settle hy) hv
  cases hres : (Delivery.reconcile w h clock d).result with
  | ok n => exact hall.returns n hres
  | error e => exact hall.raises e hres

/-! ## Keeping rows -/

/-- The journal ends with a complete row, and begins with these. -/
def Keeps (rs : List Row) (d : Disk) : Prop :=
  match d.journal with
  | none => rs = []
  | some f => f.tail = [] ∧ rs <+: f.rows

/-- Neither a RECEIVED nor an ACK_CONFIRMATION row. -/
def Body.derived : Body → Prop
  | .outcome _ _ => True
  | .partialTail _ _ => True
  | _ => False

/-- The journal is these rows and derived ones after them. -/
def Follows (rs : List Row) (d : Disk) : Prop := ∃ more, d.journalRows = rs ++ more ∧ ∀ r ∈ more, r.body.derived

theorem keeps_stable : Stable w (fun _ _ => True) (Keeps rs) where
  outcome d rs' index outcome hk hr := by
    refine ⟨rfl, ?_⟩
    unfold Keeps at hk
    rcases (rows_ok hr).2 with ⟨hj, -⟩ | ⟨hj, -⟩
    · rw [hj] at hk
      rw [show rs = [] from hk]
      exact List.nil_prefix
    · rw [hj] at hk
      exact hk.2.trans (List.prefix_append _ _)
  appending _ _ _ _ _ _ _ _ := trivial
  db _ _ hk := ⟨hk, trivial⟩

theorem follows_stable : Stable w (fun _ _ => True) (Follows rs) where
  outcome d rs' index outcome hk hr := by
    obtain ⟨more, he, hm⟩ := hk
    rw [rows_journalRows hr] at he
    refine ⟨more ++ [nextRow w rs' (.outcome index outcome)], ?_, ?_⟩
    · rw [← List.append_assoc, ← he]
      rfl
    · intro r hr'
      rcases List.mem_append.mp hr' with hr' | hr'
      · exact hm r hr'
      · rw [List.mem_singleton.mp hr']
        trivial
  appending _ _ _ _ _ _ _ _ := trivial
  db _ _ hk := ⟨hk, trivial⟩

/-- Rows that only derived ones follow begin a journal only where the rest of it is derived. -/
theorem Follows.keeps {kept lost : List Row} (hf : Follows kept d) (hk : Keeps (kept ++ lost) d) :
    ∀ r ∈ lost, r.body.derived := by
  obtain ⟨more, he, hm⟩ := hf
  have hp : kept ++ lost <+: d.journalRows := by
    unfold Keeps at hk
    unfold Disk.journalRows
    cases hj : d.journal with
    | none =>
      rw [hj] at hk
      rw [show kept ++ lost = [] from hk]
      exact List.nil_prefix
    | some f =>
      rw [hj] at hk
      exact hk.2
  rw [he, List.prefix_append_right_inj] at hp
  intro r hr
  exact hm r (hp.subset hr)

/-! ## The repair -/

/-- The journal needs no repair. -/
theorem repairTail_whole (hd : d.journal = none ∨ ∃ f, d.journal = some f ∧ f.size w ≤ maximum ∧ f.tail = []) :
    repairTail w d = ⟨[], .ok ()⟩ := by
  unfold repairTail
  rcases hd with hj | ⟨f, hj, hsize, htail⟩
  · rw [hj]
    rfl
  · rw [hj]
    simp only
    rw [if_neg (Nat.not_lt.mpr hsize), if_pos htail]
    rfl

/-- The directory once the complete lines are back. -/
def repaired (w : Wire) (f : JournalFile) (d : Disk) : Disk := (d.aside w f).holding ⟨f.rows, []⟩

/-- The journal once the tail is set aside and its PARTIAL_TAIL row is written. -/
def tailed (w : Wire) (f : JournalFile) : JournalFile :=
  ⟨f.rows ++ [nextRow w f.rows (.partialTail (w.fileHash f) (w.fileHash f))], []⟩

theorem tailWrites_final (f : JournalFile) : (tailWrites w f d).foldl (fun _ x => x.2) d = repaired w f d := by
  unfold tailWrites
  rw [List.foldl_append]
  cases hn : linesSize w f.rows with
  | zero =>
    have hrows : f.rows = [] := by
      cases hr : f.rows with
      | nil => rfl
      | cons r rs =>
        rw [hr] at hn
        simp [linesSize] at hn
    rw [repaired, hrows]
    rfl
  | succ n =>
    rw [List.range_succ, List.map_append, List.foldl_append]
    simp only [List.map_cons, List.map_nil, List.foldl_cons, List.foldl_nil]
    rw [← hn, cut_all]
    rfl

/-- A partial tail is repaired unless the file is too large or those bytes are set aside already. -/
theorem repairTail_torn {f : JournalFile} (hj : d.journal = some f) (hsize : f.size w ≤ maximum) (htail : f.tail ≠ [])
    (hnew : d.retained.find? (·.1 = w.fileHash f) = none) (hv : ValidRows w f.rows) :
    repairTail w d = ⟨tailWrites w f d ++
      appendWrites w (.partialTail (w.fileHash f) (w.fileHash f)) f.rows (repaired w f d), .ok ()⟩ := by
  have hrows : rows w (repaired w f d) = .ok f.rows := by
    refine rows_some (f := ⟨f.rows, []⟩) rfl ?_ rfl hv
    simp only [JournalFile.size, List.length_nil, Nat.add_zero] at hsize ⊢
    omega
  have happ := append_eq (b := .partialTail (w.fileHash f) (w.fileHash f)) hrows trivial
  have hfin := tailWrites_final (w := w) (d := d) f
  unfold repairTail
  rw [hj]
  simp only
  rw [if_neg (Nat.not_lt.mpr hsize), if_neg htail, hnew, if_neg (by simp)]
  simp only [Prog.andThen, Prog.write, Exec.final, hfin, happ]

/-- The tail cannot be repaired: nothing changes. -/
theorem repairTail_refused {f : JournalFile} (hj : d.journal = some f) (htail : f.tail ≠ [])
    (hno : maximum < f.size w ∨ d.retained.find? (·.1 = w.fileHash f) ≠ none) : ∃ e, repairTail w d = ⟨[], .error e⟩ := by
  unfold repairTail
  rw [hj]
  simp only
  by_cases hsize : maximum < f.size w
  · exact ⟨_, by rw [if_pos hsize]; rfl⟩
  · have hold : (d.retained.find? (·.1 = w.fileHash f)).isSome := Option.isSome_iff_ne_none.mpr (hno.resolve_left hsize)
    exact ⟨_, by rw [if_neg hsize, if_neg htail, if_pos hold]; rfl⟩

/-- A `reconcile` that repairs this tail keeps the rows before it. -/
theorem reconcile_partial {I : Disk → Prop} (hI : Stable w (fun _ _ => True) I) {f : JournalFile} (hj : d.journal = some f)
    (hsize : f.size w ≤ maximum) (htail : f.tail ≠ []) (hnew : d.retained.find? (·.1 = w.fileHash f) = none)
    (hv : ValidRows w f.rows) (clock : Nat → Int) (hd : I ((d.aside w f).holding (tailed w f))) :
    I ((reconcile w h clock d).final d) := by
  refine hI.reconcile (repairTail_torn hj hsize htail hnew hv) ?_ hd
  rw [List.foldl_append, tailWrites_final, appendWrites_final]
  rfl

theorem reconcile_whole {I : Disk → Prop} (hI : Stable w (fun _ _ => True) I) (hw : d.journal = none ∨
    ∃ f, d.journal = some f ∧ f.size w ≤ maximum ∧ f.tail = []) (clock : Nat → Int) (hd : I d) :
    I ((reconcile w h clock d).final d) := hI.reconcile (repairTail_whole hw) rfl hd

theorem reconcile_refused (hno : ∃ e, repairTail w d = ⟨[], .error e⟩) (clock : Nat → Int) :
    (reconcile w h clock d).final d = d := by
  obtain ⟨e, he⟩ := hno
  simp [reconcile, Prog.andThen, he, Exec.final]

/-! ## A crash during the repair -/

/-- The directories a crash of the tail repair can leave, with the place of the last write. -/
def survivors (w : Wire) (d : Disk) : List (Option Place × Disk) :=
  (none, d) :: (repairTail w d).writes.map fun x => (some x.1, x.2)

/-- The file a crash leaves that has written `n` bytes of the PARTIAL_TAIL row of a file. -/
def fragment (w : Wire) (f : JournalFile) (n : Nat) : JournalFile :=
  ⟨f.rows, (w.text (nextRow w f.rows (.partialTail (w.fileHash f) (w.fileHash f)))).take n⟩

/-- The crash came before the rename or once the lines were back, and its own fragment can
    be set aside; or there was no complete line. -/
def Spares (w : Wire) (d : Disk) (f : JournalFile) : Option Place → Prop
  | some .tailRenamed => f.rows = []
  | some .tailCreated => f.rows = []
  | some (.restoring n) => n = linesSize w f.rows
  | some (.appending _ n) => (fragment w f n).size w ≤ maximum ∧
      (d.retained ++ [(w.fileHash f, f)]).find? (·.1 = w.fileHash (fragment w f n)) = none
  | _ => True

/-- What the crash leaves is one of these. -/
theorem survivors_cases {f : JournalFile} (hj : d.journal = some f) (hsize : f.size w ≤ maximum) (htail : f.tail ≠ [])
    (hnew : d.retained.find? (·.1 = w.fileHash f) = none) (hv : ValidRows w f.rows) {place : Option Place} {s : Disk}
    (hs : (place, s) ∈ survivors w d) :
    (place = none ∧ s = d) ∨
    (place = some .tailRenamed ∧ s = d.aside w f) ∨
    (place = some .tailCreated ∧ s = (d.aside w f).holding ⟨[], []⟩) ∨
    (∃ n, n ≤ linesSize w f.rows ∧ place = some (.restoring n) ∧
      s = (d.aside w f).holding (cut w f.rows n)) ∨
    (∃ b n, place = some (.appending b n) ∧ s = (d.aside w f).holding (fragment w f n) ∧
      (fragment w f n).tail ≠ []) ∨
    ∃ b, place = some (.appended b) ∧ s = (d.aside w f).holding (tailed w f) := by
  rw [survivors, repairTail_torn hj hsize htail hnew hv] at hs
  simp only [List.mem_cons, List.map_append, List.mem_append, List.mem_map, Prod.mk.injEq] at hs
  rcases hs with hs | ⟨x, hx, rfl, rfl⟩ | ⟨x, hx, rfl, rfl⟩
  · exact .inl hs
  · simp only [tailWrites, List.mem_append, List.mem_cons, List.not_mem_nil, or_false, List.mem_map, List.mem_range] at hx
    rcases hx with (rfl | rfl) | ⟨n, hn, rfl⟩
    · exact .inr (.inl ⟨rfl, rfl⟩)
    · exact .inr (.inr (.inl ⟨rfl, rfl⟩))
    · exact .inr (.inr (.inr (.inl ⟨n + 1, hn, rfl, rfl⟩)))
  · simp only [appendWrites, repaired, Disk.holding, reduceCtorEq, if_false, List.nil_append, List.mem_append, List.mem_map,
      List.mem_range, List.mem_singleton] at hx
    rcases hx with ⟨n, hn, rfl⟩ | rfl
    · refine .inr (.inr (.inr (.inr (.inl ⟨_, n + 1, rfl, rfl, ?_⟩))))
      intro he
      have hl := congrArg List.length he
      simp only [fragment, List.length_take, List.length_nil] at hl
      omega
    · exact .inr (.inr (.inr (.inr (.inr ⟨_, rfl, rfl⟩))))

theorem validRows_cut {f : JournalFile} (hv : ValidRows w f.rows) (n : Nat) : ValidRows w (cut w f.rows n).rows := by
  obtain ⟨lost, he, -⟩ := cut_rows (w := w) f.rows n
  rw [he] at hv
  exact validRows_left hv

/-- Where the crash spares the rows a later `reconcile` has them all. -/
theorem repair_keeps_rows {f : JournalFile} (hj : d.journal = some f) (hv : ValidRows w f.rows) (htail : f.tail ≠ [])
    (hsize : f.size w ≤ maximum) (hnew : d.retained.find? (·.1 = w.fileHash f) = none) {place : Option Place} {s : Disk}
    (hs : (place, s) ∈ survivors w d) (clock : Nat → Int) (hok : Spares w d f place) :
    Keeps f.rows ((reconcile w h clock s).final s) := by
  have hlines : linesSize w f.rows ≤ maximum := by
    unfold JournalFile.size at hsize
    omega
  rcases survivors_cases hj hsize htail hnew hv hs with ⟨-, rfl⟩ | ⟨rfl, rfl⟩ | ⟨rfl, rfl⟩ | ⟨n, -, rfl, rfl⟩ |
    ⟨b, n, rfl, rfl, hft⟩ | ⟨b, rfl, rfl⟩
  · exact reconcile_partial keeps_stable hj hsize htail hnew hv clock ⟨rfl, List.prefix_append _ _⟩
  · exact reconcile_whole keeps_stable (.inl rfl) clock hok
  · refine reconcile_whole keeps_stable (.inr ⟨_, rfl, Nat.zero_le _, rfl⟩) clock ⟨rfl, ?_⟩
    have hrows : f.rows = [] := hok
    exact hrows ▸ List.nil_prefix
  · -- every line is back
    have hn : n = linesSize w f.rows := hok
    subst hn
    refine reconcile_whole keeps_stable (.inr ⟨_, rfl, ?_, ?_⟩) clock ?_
    · rw [cut_all]
      exact hlines
    · rw [cut_all]
    · simp only [Keeps, cut_all]
      exact ⟨rfl, List.prefix_refl _⟩
  · obtain ⟨hfs, hfn⟩ := hok
    exact reconcile_partial keeps_stable rfl hfs hft hfn hv clock ⟨rfl, List.prefix_append _ _⟩
  · -- the row is whole: only a file too large is left as it is
    by_cases hbig : maximum < (tailed w f).size w
    · have hno : repairTail w ((d.aside w f).holding (tailed w f)) = ⟨[], .error .fileIntegrity⟩ := by
        simp only [repairTail, Disk.holding]
        rw [if_pos hbig]
        rfl
      rw [reconcile_refused ⟨_, hno⟩ clock]
      exact ⟨rfl, List.prefix_append _ _⟩
    · exact reconcile_whole keeps_stable (.inr ⟨_, rfl, Nat.not_lt.mp hbig, rfl⟩) clock ⟨rfl, List.prefix_append _ _⟩

/-- Nothing is done to an empty journal. -/
theorem reconcile_empty (hj : d.journal = none ∨ d.journal = some ⟨[], []⟩) (clock : Nat → Int) :
    (reconcile w h clock d).final d = d := by
  have hrep : repairTail w d = ⟨[], .ok ()⟩ := by
    refine repairTail_whole (hj.imp_right fun hj => ⟨_, hj, Nat.zero_le _, rfl⟩)
  have hrows : rows w d = .ok [] := by
    rcases hj with hj | hj
    · exact rows_none hj
    · exact rows_some hj (Nat.zero_le _) rfl rfl
  have hops : iterOperations w h d = .ok [] := by
    rw [iterOperations, hrows]
    rfl
  simp [reconcile, Prog.andThen, hrep, Prog.read, hops, Prog.each, Prog.ret, Exec.final]

/-- Rows not yet written back are lost, but for derived rows, which `reconcile` may write again. -/
theorem repair_loses_rows {f : JournalFile} (hj : d.journal = some f) (hv : ValidRows w f.rows) (htail : f.tail ≠ [])
    (hsize : f.size w ≤ maximum) (hnew : d.retained.find? (·.1 = w.fileHash f) = none) {place : Option Place} {s : Disk}
    (hs : (place, s) ∈ survivors w d) (clock : Nat → Int) (hk : Keeps f.rows ((reconcile w h clock s).final s)) :
    Spares w d f place ∨ ∃ n lost, place = some (.restoring n) ∧ f.rows = (cut w f.rows n).rows ++ lost ∧
      ∀ r ∈ lost, r.body.derived := by
  rcases survivors_cases hj hsize htail hnew hv hs with ⟨rfl, rfl⟩ | ⟨rfl, rfl⟩ | ⟨rfl, rfl⟩ | ⟨n, -, rfl, rfl⟩ |
    ⟨b, n, rfl, rfl, hft⟩ | ⟨b, rfl, rfl⟩
  · exact .inl trivial
  · rw [reconcile_empty (.inl rfl) clock] at hk
    exact .inl hk
  · rw [reconcile_empty (.inr rfl) clock] at hk
    exact .inl (List.prefix_nil.mp hk.2)
  · obtain ⟨lost, he, -⟩ := cut_rows (w := w) f.rows n
    refine .inr ⟨n, lost, rfl, he, ?_⟩
    generalize hc : cut w f.rows n = g at he hk ⊢
    have hgv : ValidRows w g.rows := hc ▸ validRows_cut hv n
    have hf : Follows g.rows ((reconcile w h clock ((d.aside w f).holding g)).final ((d.aside w f).holding g)) := by
      have hg : Follows g.rows ((d.aside w f).holding g) := ⟨[], by simp [Disk.journalRows, Disk.holding], by simp⟩
      by_cases hbig : maximum < g.size w
      · rw [reconcile_refused]
        · exact hg
        · refine ⟨.fileIntegrity, ?_⟩
          simp only [repairTail, Disk.holding]
          rw [if_pos hbig]
          rfl
      · by_cases hgt : g.tail = []
        · exact reconcile_whole follows_stable (.inr ⟨g, rfl, Nat.not_lt.mp hbig, hgt⟩) clock hg
        · by_cases hold : ((d.aside w f).holding g).retained.find? (·.1 = w.fileHash g) = none
          · refine reconcile_partial follows_stable rfl (Nat.not_lt.mp hbig) hgt hold hgv clock ?_
            exact ⟨[nextRow w g.rows (.partialTail (w.fileHash g) (w.fileHash g))], rfl, by simp [nextRow, Body.derived]⟩
          · rw [reconcile_refused (repairTail_refused rfl hgt (.inr hold))]
            exact hg
    rw [he] at hk
    exact hf.keeps hk
  · left
    by_contra hno
    have hr : ∃ e, repairTail w ((d.aside w f).holding (fragment w f n)) = ⟨[], .error e⟩ := by
      refine repairTail_refused rfl hft ?_
      by_contra hc
      simp only [not_or, Nat.not_lt, not_not] at hc
      exact hno hc
    rw [reconcile_refused hr clock] at hk
    exact hft hk.1
  · exact .inl trivial

/-- `reconcile` can read the file, and has not set those bytes aside before. -/
def Repairable (w : Wire) (d : Disk) (f : JournalFile) : Prop :=
  f.size w ≤ maximum ∧ d.retained.find? (·.1 = w.fileHash f) = none

/-- What becomes of the complete rows of a journal whose tail is being repaired when the
    process crashes. -/
theorem repair_crash {f : JournalFile} (hj : d.journal = some f) (hv : ValidRows w f.rows) (htail : f.tail ≠ [])
    {place : Option Place} {s : Disk} (hs : (place, s) ∈ survivors w d) (clock : Nat → Int) :
    (Repairable w d f ∧ Spares w d f place → Keeps f.rows ((reconcile w h clock s).final s)) ∧
    (Keeps f.rows ((reconcile w h clock s).final s) → Repairable w d f ∧
      (Spares w d f place ∨ ∃ n lost, place = some (.restoring n) ∧ f.rows = (cut w f.rows n).rows ++ lost ∧
        ∀ r ∈ lost, r.body.derived)) := by
  by_cases hr : Repairable w d f
  · refine ⟨fun hok => repair_keeps_rows hj hv htail hr.1 hr.2 hs clock hok.2, fun hk => ⟨hr, ?_⟩⟩
    exact repair_loses_rows hj hv htail hr.1 hr.2 hs clock hk
  · refine ⟨fun hok => absurd hok.1 hr, fun hk => ?_⟩
    have hno : ∃ e, repairTail w d = ⟨[], .error e⟩ := by
      refine repairTail_refused hj htail ?_
      by_contra hc
      simp only [not_or, Nat.not_lt, not_not] at hc
      exact hr hc
    have hsd : s = d := by
      obtain ⟨e, he⟩ := hno
      rw [survivors, he] at hs
      simpa using congrArg Prod.snd (List.mem_singleton.mp hs)
    rw [hsd, reconcile_refused hno clock, Keeps, hj] at hk
    exact absurd hk.1 htail

/-! ## A torn journal -/

def smallWire : Wire where
  rowHash n previous b := previous * 3 + BitVec.ofNat 256 (n + 7) + match b with
    | .received _ x => x.rawHash
    | .outcome _ _ => 1
    | .ackConfirmation _ _ x => x
    | .partialTail x _ => x + 2
  text r := [123, UInt8.ofNat r.rowIndex, 125]
  fileHash f := BitVec.ofNat 256 (500 + 100 * f.rows.length + f.tail.length)

/-- The observation numbered `n + 1` of the small run, as the journal accepts it. -/
def smallTerminal (n : Nat) (rest : String) : Observation :=
  let content : ObservationContent := ⟨rest ++ String.ofList (List.replicate n 'o'),
    .terminal, plain 0xbead#256, plain 0xc0de#256, "run", "stream", plain 0, plain (n + 1), .runBoundNotDocument, "browser",
    "producer", rest, Nat.succ_pos n⟩
  ⟨content, plain (smallHashes.rawObservation content)⟩

/-- One delivery received, and a byte of the row after it. -/
def tornFile : JournalFile :=
  ⟨[nextRow smallWire [] (.received 1 ⟨1002, 0, plain 0, plain 1⟩)], [123]⟩

def tornDisk : Disk := ⟨smallContext, smallStore, [smallTerminal 0 ""], some tornFile, []⟩

theorem tornDisk_renamed : (some Place.tailRenamed, tornDisk.aside smallWire tornFile) ∈ survivors smallWire tornDisk := by
  rw [survivors, repairTail_torn rfl (by decide +kernel) (by decide) rfl (by decide +kernel)]
  simp [tailWrites]

/-- A crash right after the rename loses the delivery. -/
theorem repair_crash_renamed : ValidRows smallWire tornFile.rows ∧
    (some Place.tailRenamed, tornDisk.aside smallWire tornFile) ∈ survivors smallWire tornDisk ∧
    ¬Keeps tornFile.rows ((reconcile smallWire smallHashes (fun _ => 20) (tornDisk.aside smallWire tornFile)).final
      (tornDisk.aside smallWire tornFile)) := by
  refine ⟨by decide +kernel, tornDisk_renamed, ?_⟩
  rw [reconcile_empty (.inl rfl)]
  exact fun hk => nomatch hk

theorem repair_crash_torn : (Repairable smallWire tornDisk tornFile ∧ Spares smallWire tornDisk tornFile (some .tailRenamed) →
      Keeps tornFile.rows ((reconcile smallWire smallHashes (fun _ => 20) (tornDisk.aside smallWire tornFile)).final
        (tornDisk.aside smallWire tornFile))) ∧
    (Keeps tornFile.rows ((reconcile smallWire smallHashes (fun _ => 20) (tornDisk.aside smallWire tornFile)).final
        (tornDisk.aside smallWire tornFile)) → Repairable smallWire tornDisk tornFile ∧
      (Spares smallWire tornDisk tornFile (some .tailRenamed) ∨ ∃ n lost, some Place.tailRenamed = some (.restoring n) ∧
        tornFile.rows = (cut smallWire tornFile.rows n).rows ++ lost ∧ ∀ r ∈ lost, r.body.derived)) :=
  repair_crash rfl (by decide +kernel) (by decide) tornDisk_renamed fun _ => 20

end BettingHelper.Delivery
