/-
  BettingHelper.Destruction.Safety — any number of calls of one destruction, each a run or a
  recovery, killed after any of its writes.

  Proved, of every state that can be reached (`Inv`):
  - a store is gone only when the plan's consumption had been committed and both its
    external copy and the external intent are complete;
  - the plan's consumption is committed at most once, and no other is;
  - a deletion proof is begun only when both stores are gone.
-/

import BettingHelper.Destruction.Execute

namespace BettingHelper.Destruction

open BettingHelper.Lib.Json BettingHelper.Lib.Crash

variable {t : Trust} {p : Plan} {c : Config} {x : Call} {s u : Case}

/-- A closed run of which nothing has been consumed or deleted. -/
structure Prepared (s : Case) : Prop where
  database : ∃ d, s.database = some d ∧ d.runId = s.owner ∧ d.runStatus = .closed ∧ d.authorizationConsumptions = []
  browser : s.browser ≠ none
  files : s.files .consumedExternal = none ∧ s.files .intent = none ∧ s.files .deletionProof = none
  committed : s.committed = []

/-- What the calls of a destruction leave, each finished or killed. -/
inductive Reach (t : Trust) (p : Plan) (c : Config) : Case → Prop
  | prepared {s : Case} : Prepared s → Reach t p c s
  | call {s s' : Case} (x : Call) : Reach t p c s → s' ∈ crashes (execute t p c x) s → Reach t p c s'

/-- What was checked before the consumption was committed. -/
structure Authorized (t : Trust) (p : Plan) (c : Config) (owner : String) : Prop where
  uuid : isUuid4 owner
  config : c.runId = owner
  plan : p.runId = owner
  valid : validatePlan t p = .ok ()
  boundary : c.checkpointId ≠ "destroy_01_before_authority"

structure Inv (t : Trust) (p : Plan) (c : Config) (s : Case) : Prop where
  once : s.committed = [] ∨ s.committed = [consumption t p]
  authorized : s.committed ≠ [] → Authorized t p c s.owner
  held : ∀ d, s.database = some d → d.runId = s.owner ∧ d.authorizationConsumptions = s.committed
  guarded : s.committed ≠ [] → (consumption t p).guards s.owner
  copied : ∀ b, s.files .consumedExternal = some b → s.committed ≠ [] ∧ b <+: (consumption t p).doc.bytes
  intended : ∀ b, s.files .intent = some b →
    s.files .consumedExternal = some (consumption t p).doc.bytes ∧ b <+: p.intent.doc.bytes
  gone : s.database = none ∨ s.browser = none → s.files .intent = some p.intent.doc.bytes
  proved : ∀ b, s.files .deletionProof = some b →
    s.database = none ∧ s.browser = none ∧ ∃ id, b <+: (deletionProof t p id).doc.bytes

theorem prepared_inv (h : Prepared s) : Inv t p c s := by
  obtain ⟨d, hd, hr, -, hc⟩ := h.database
  have hno : s.committed = [] := h.committed
  refine ⟨.inl hno, fun hn => absurd hno hn, ?_, fun hn => absurd hno hn, ?_, ?_, ?_, ?_⟩
  · intro e he
    rw [hd] at he
    cases he
    exact ⟨hr, by rw [hc, hno]⟩
  · intro b hb
    rw [h.files.1] at hb
    cases hb
  · intro b hb
    rw [h.files.2.1] at hb
    cases hb
  · rintro (hn | hn)
    · rw [hd] at hn
      cases hn
    · exact absurd hn h.browser
  · intro b hb
    rw [h.files.2.2] at hb
    cases hb

/-! ## What follows from the invariant -/

theorem Inv.row (hi : Inv t p c s) (hn : s.committed ≠ []) : s.committed = [consumption t p] := hi.once.resolve_left hn

theorem Inv.consumed_of_intent (hi : Inv t p c s) {b : List UInt8} (hb : s.files .intent = some b) : s.committed ≠ [] :=
  (hi.copied _ (hi.intended b hb).1).1

theorem Inv.committed_of_gone (hi : Inv t p c s) (hg : s.database = none ∨ s.browser = none) : s.committed ≠ [] :=
  hi.consumed_of_intent (hi.gone hg)

/-- The checkpoint file plays no part. -/
theorem Inv.put_checkpoint (hi : Inv t p c s) (b : List UInt8) : Inv t p c (s.put .checkpoint b) :=
  ⟨hi.once, hi.authorized, hi.held, hi.guarded, hi.copied, hi.intended, hi.gone, hi.proved⟩

/-! ## The parts of a call -/

/-- Every write keeps the invariant. -/
abbrev Keeps (t : Trust) (p : Plan) (c : Config) : Place → Case → Prop := fun _ => Inv t p c

theorem ownedCase_meets {C : Place → Case → Prop} (r : String) :
    Meets (ownedCase r) s C (fun _ u => u = s ∧ isUuid4 r ∧ r = s.owner) (fun _ _ => ¬(isUuid4 r ∧ r = s.owner)) := by
  refine .read ?_ ?_
  · intro a h
    split_ifs at h with h1 h2
    exact ⟨rfl, by simpa using h1, not_not.mp h2⟩
  · intro e h ⟨hu, ho⟩
    rw [if_neg (by simp [hu]), if_neg (not_not.mpr ho)] at h
    cases h

/-- A file that is there is compared, and one that is not is written from its first byte. -/
theorem immutableJson_meets {C : Place → Case → Prop} {f : File} {v : Doc}
    (hw : s.files f = none → ∀ b, b <+: v.bytes → C (.file f) (s.put f b)) :
    Meets (immutableJson f v) s C
      (fun _ u => (s.files f = some v.bytes ∧ u = s) ∨ (s.files f = none ∧ u = s.put f v.bytes))
      (fun _ u => u = s ∧ ∃ b, s.files f = some b ∧ b ≠ v.bytes) := by
  cases hf : s.files f with
  | some b =>
    by_cases hb : b = v.bytes
    · have hx : immutableJson f v s = ⟨[], .ok ()⟩ := by
        simp only [immutableJson, hf, hb, ne_eq, not_true_eq_false, if_false]
      refine .of_ok hx ?_ (.inl ⟨congrArg some hb, rfl⟩)
      intro w hw
      cases hw
    · have hx : immutableJson f v s = ⟨[], .error .immutableArtifact⟩ := by
        simp only [immutableJson, hf, ne_eq, hb, not_false_eq_true, if_true]
      exact .of_error hx ⟨rfl, b, rfl, hb⟩
  | none =>
    have hx : immutableJson f v s =
        ⟨(List.range (v.bytes.length + 1)).map fun n => (.file f, s.put f (v.bytes.take n)), .ok ()⟩ := by
      simp only [immutableJson, hf]
    refine .of_ok hx ?_ (.inr ⟨rfl, ?_⟩)
    · intro w hm
      obtain ⟨n, -, rfl⟩ := List.mem_map.mp hm
      exact hw hf _ (List.take_prefix n _)
    · rw [List.range_succ, List.map_append, List.foldl_append]
      show s.put f (v.bytes.take v.bytes.length) = _
      rw [List.take_length]

theorem readActual_meets {C : Place → Case → Prop} : Meets (readActual c) s C
    (fun a u => u = s ∧ (isUuid4 c.runId ∧ c.runId = s.owner) ∧ a.browserPresent = s.browser.isSome ∧
      a.backendPresent = s.database.isSome ∧ loadFile s .deletionProof = .ok a.proof)
    (fun e _ => ¬(isUuid4 c.runId ∧ c.runId = s.owner) ∨ loadFile s .intent = .error e ∨
      loadFile s .deletionProof = .error e) := by
  refine ((ownedCase_meets c.runId).mono (fun _ _ h => h) (fun _ _ h => h) fun e u h => .inl h).bind fun a u hu => ?_
  obtain ⟨rfl, hc⟩ := hu
  refine .read ?_ ?_
  · intro a ha
    cases h1 : loadFile u .intent with
    | error e => rw [h1] at ha; cases ha
    | ok i =>
      cases h2 : loadFile u .deletionProof with
      | error e => rw [h1, h2] at ha; cases ha
      | ok q =>
        rw [h1, h2] at ha
        cases ha
        exact ⟨rfl, hc, rfl, rfl, rfl⟩
  · intro e he
    cases h1 : loadFile u .intent with
    | error e' => rw [h1] at he; cases he; exact .inr (.inl rfl)
    | ok i =>
      cases h2 : loadFile u .deletionProof with
      | error e' => rw [h1, h2] at he; cases he; exact .inr (.inr rfl)
      | ok q => rw [h1, h2] at he; cases he


theorem validateConsumed_meets {C : Place → Case → Prop} (hi : Inv t p c s) :
    Meets (validateConsumed t p) s C (fun _ u => u = s ∧ s.committed = [consumption t p]) (fun _ _ => s.committed = []) := by
  have ha : ∀ {P : Prop}, (Authorized t p c s.owner → P) → s.committed = [] ∨ P := fun {P} h =>
    or_iff_not_imp_left.mpr fun hn => h (hi.authorized hn)
  refine ((ownedCase_meets p.runId).mono (fun _ _ h => h) (fun _ _ h => h) fun e u h => ?_).bind fun a u hu => ?_
  · exact (ha fun h' => (⟨by rw [h'.plan]; exact h'.uuid, h'.plan⟩ : isUuid4 p.runId ∧ p.runId = s.owner)).resolve_right h
  obtain ⟨rfl, -⟩ := hu
  refine (Meets.read (Q := fun _ v => v = u) (fun a h => rfl) fun e h => ?_).bind fun a v hv => ?_
  · refine (ha fun h' => h'.valid).resolve_right fun h' => ?_
    rw [h'] at h
    cases h
  subst hv
  refine Meets.read (fun a h => ⟨rfl, ?_⟩) fun e h => ?_
  · cases hd : v.database with
    | none => exact hi.row (hi.committed_of_gone (.inl hd))
    | some d =>
      simp only [consumed, hd] at h
      split_ifs at h with h1
      rw [← (hi.held d hd).2]
      exact not_not.mp h1
  · refine Classical.byContradiction fun hn => ?_
    have hr := hi.row hn
    cases hd : v.database with
    | none =>
      have hf := (hi.intended _ (hi.gone (.inl hd))).1
      simp only [consumed, hd, hf, readDoc_bytes consumption_plain, ne_eq, not_true_eq_false, if_false] at h
      cases h
    | some d =>
      have hc := (hi.held d hd).2
      simp only [consumed, hd, hc, hr, ne_eq, not_true_eq_false, if_false] at h
      cases h

/-- The row is committed when the browser's store and the database are what was exported. -/
theorem authorize_meets (hi : Inv t p c s) (hv : validatePlan t p = .ok ())
    (hb : c.checkpointId ≠ "destroy_01_before_authority") :
    Meets (authorize t p c) s (Keeps t p c) (fun _ u => Inv t p c u) (fun _ _ => True) := by
  refine (readActual_meets.mono (fun _ _ h => h) (fun _ _ h => h) fun _ _ _ => trivial).bind fun a u hu => ?_
  obtain ⟨rfl, ⟨huuid, hown⟩, -⟩ := hu
  split_ifs with hinv
  · exact .raise trivial
  cases hd : u.database with
  | none =>
    have hx : insertConsumption t (consumption t p) u = ⟨[], .error .missingDatabase⟩ := by simp only [insertConsumption, hd]
    exact .of_error hx trivial
  | some d =>
    obtain ⟨hrun, hheld⟩ := hi.held d hd
    by_cases hacc : d.accepts t (consumption t p) = true
    · have hx : insertConsumption t (consumption t p) u = ⟨[(.consumption, { u with
          database := some { d with authorizationConsumptions := d.authorizationConsumptions ++ [consumption t p] }
          committed := u.committed ++ [consumption t p] })], .ok ()⟩ := by
        simp only [insertConsumption, hd, hacc, if_true]
      -- a second insertion would clash with the first
      have hno : u.committed = [] := by
        rcases hi.once with h | h
        · exact h
        · rw [accepts_once (by rw [hheld, h]; exact List.mem_cons_self)] at hacc
          cases hacc
      have hg := accepts_guards hacc
      rw [hrun] at hg
      have hplan : p.runId = u.owner := by
        rw [← hrun]
        simp only [Database.accepts, Bool.and_eq_true] at hacc
        have hf := hacc.1.1.2
        simpa [Row.is, Row.null, consumption, List.lookup] using (List.all_eq_true.mp hf) "run_id" List.mem_cons_self
      have hnew : Inv t p c { u with
          database := some { d with authorizationConsumptions := d.authorizationConsumptions ++ [consumption t p] }
          committed := u.committed ++ [consumption t p] } := by
        have hnone : ∀ b, u.files .consumedExternal ≠ some b := fun b hb => (hi.copied b hb).1 hno
        have hint : ∀ b, u.files .intent ≠ some b := fun b hb => hnone _ (hi.intended b hb).1
        refine ⟨.inr (by rw [hno]; rfl), fun _ => ⟨by rw [← hown]; exact huuid, hown, hplan, hv, hb⟩, ?_, fun _ => hg,
          fun b hb' => absurd hb' (hnone b), fun b hb' => absurd hb' (hint b), ?_, ?_⟩
        · intro e he
          cases he
          exact ⟨hrun, by rw [hheld]⟩
        · rintro (h | h)
          · cases h
          · exact absurd (hi.gone (.inr h)) (hint _)
        · intro b hb'
          exact absurd (hi.gone (.inl (hi.proved b hb').1)) (hint _)
      refine .of_ok hx ?_ hnew
      intro w hw
      cases List.mem_singleton.mp hw
      exact hnew
    · have hx : insertConsumption t (consumption t p) u = ⟨[], .error .integrity⟩ := by
        simp only [insertConsumption, hd, hacc, Bool.false_eq_true, if_false]
      exact .of_error hx trivial


/-- A file that is there holds all of `v`. -/
def Whole (s : Case) (f : File) (v : Doc) : Prop := ∀ b, s.files f = some b → b = v.bytes

/-- The stores and the other files are as they were. -/
structure SameBut (f : File) (s u : Case) : Prop where
  owner : u.owner = s.owner
  database : u.database = s.database
  browser : u.browser = s.browser
  committed : u.committed = s.committed
  files : ∀ g, g ≠ f → u.files g = s.files g

theorem SameBut.refl {f : File} : SameBut f s s := ⟨rfl, rfl, rfl, rfl, fun _ _ => rfl⟩

theorem put_sameBut {f : File} (b : List UInt8) : SameBut f s (s.put f b) :=
  ⟨rfl, rfl, rfl, rfl, fun _ hg => Function.update_of_ne hg _ _⟩

@[simp] theorem put_file (s : Case) (f : File) (b : List UInt8) : (s.put f b).files f = some b := Function.update_self _ _ _

theorem put_other {f g : File} (hg : g ≠ f) (b : List UInt8) : (s.put f b).files g = s.files g :=
  Function.update_of_ne hg _ _

/-- What `immutableJson` leaves when it returns. -/
theorem wrote {f : File} {v : Doc}
    (h : (s.files f = some v.bytes ∧ u = s) ∨ (s.files f = none ∧ u = s.put f v.bytes)) :
    u.files f = some v.bytes ∧ Whole s f v ∧ SameBut f s u := by
  rcases h with ⟨hf, rfl⟩ | ⟨hf, rfl⟩
  · refine ⟨hf, ?_, .refl⟩
    intro b hb
    rw [hf] at hb
    exact (Option.some.inj hb).symm
  · refine ⟨put_file _ _ _, ?_, put_sameBut _⟩
    intro b hb
    rw [hf] at hb
    cases hb

theorem not_whole {f : File} {v : Doc} (h : ∃ b, s.files f = some b ∧ b ≠ v.bytes) : ¬Whole s f v := by
  obtain ⟨b, hb, hne⟩ := h
  exact fun hw => hne (hw b hb)

theorem copyConsumption_meets (hi : Inv t p c s) (hc : s.committed = [consumption t p]) :
    Meets copyConsumption s (Keeps t p c)
      (fun _ u => Inv t p c u ∧ u.files .consumedExternal = some (consumption t p).doc.bytes ∧
        Whole s .consumedExternal (consumption t p).doc ∧ SameBut .consumedExternal s u)
      (fun _ _ => ¬Whole s .consumedExternal (consumption t p).doc) := by
  cases hd : s.database with
  | none =>
    have hf := (hi.intended _ (hi.gone (.inl hd))).1
    have hx : copyConsumption s = ⟨[], .ok ()⟩ := by simp only [copyConsumption, hd]
    refine .of_ok hx ?_ ⟨hi, hf, ?_, .refl⟩
    · intro w hw
      cases hw
    · intro b hb
      rw [hf] at hb
      exact (Option.some.inj hb).symm
  | some d =>
    have hrows : d.authorizationConsumptions = [consumption t p] := by rw [(hi.held d hd).2, hc]
    have hx : copyConsumption s = immutableJson .consumedExternal (consumption t p).doc s := by
      simp only [copyConsumption, hd, hrows]
    -- nothing is gone and nothing else is begun before the copy is whole
    have hput : s.files .consumedExternal = none → ∀ b, b <+: (consumption t p).doc.bytes →
        Inv t p c (s.put .consumedExternal b) := by
      intro hnone b hb
      have hint : ∀ b, s.files .intent ≠ some b := fun b hb => by
        rw [(hi.intended b hb).1] at hnone
        cases hnone
      refine ⟨hi.once, hi.authorized, hi.held, hi.guarded, ?_, ?_, ?_, ?_⟩
      · intro b' hb'
        rw [put_file] at hb'
        cases hb'
        exact ⟨by show s.committed ≠ []; rw [hc]; simp, hb⟩
      · intro b' hb'
        rw [put_other (by decide)] at hb'
        exact absurd hb' (hint b')
      · intro hg
        exact absurd (hi.gone hg) (hint _)
      · intro b' hb'
        rw [put_other (by decide)] at hb'
        exact absurd (hi.gone (.inl (hi.proved b' hb').1)) (hint _)
    have hm := immutableJson_meets (C := Keeps t p c) (f := .consumedExternal) (v := (consumption t p).doc) (s := s) hput
    refine .congr hx (hm.mono (fun _ _ h => h) (fun _ v hv => ?_) fun _ _ he => not_whole he.2)
    obtain ⟨h1, h2, h3⟩ := wrote hv
    refine ⟨?_, h1, h2, h3⟩
    rcases hv with ⟨-, he⟩ | ⟨hn, he⟩
    · rw [he]
      exact hi
    · rw [he]
      exact hput hn _ List.prefix_rfl

/-! ### Checkpoints -/

/-- A checkpoint that is passed leaves the state as it is. -/
theorem checkpoint_meets (hi : Inv t p c s) (name : String) :
    Meets (checkpoint c x name) s (Keeps t p c) (fun _ u => u = s ∧ (x.recover = false → name ≠ c.checkpointId))
      (fun _ _ => x.recover = false) := by
  unfold checkpoint
  split_ifs with h
  · refine (immutableJson_meets (C := Keeps t p c) (fun _ b _ => hi.put_checkpoint b)).mono (fun _ _ h => h)
      (fun _ _ h => h) (fun _ _ _ => h.1) |>.bind fun _ u _ => ?_
    exact .raise h.1
  · exact .ret ⟨rfl, fun hr hn => h ⟨hr, hn⟩⟩

/-! ### The intent -/

/-- The files and what was committed are as they were. -/
structure SameFiles (s u : Case) : Prop where
  files : u.files = s.files
  committed : u.committed = s.committed

theorem markRun_meets (hi : Inv t p c s) (hc : s.committed = [consumption t p])
    (hf : s.files .intent = some p.intent.doc.bytes) :
    Meets markRun s (Keeps t p c)
      (fun _ u => Inv t p c u ∧ u.browser = s.browser ∧ SameFiles s u) (fun _ _ => False) := by
  cases hd : s.database with
  | none =>
    have hx : markRun s = ⟨[], .ok ()⟩ := by simp only [markRun, hd]
    refine .of_ok hx ?_ ⟨hi, rfl, rfl, rfl⟩
    intro w hw
    cases hw
  | some d =>
    obtain ⟨hrun, hheld⟩ := hi.held d hd
    by_cases hs : d.runStatus = .closed
    · have hg : d.authorizationConsumptions.any (fun r => r.guards d.runId) = true := by
        rw [hheld, hc, hrun]
        simpa using hi.guarded (by rw [hc]; simp)
      have hx : markRun s = ⟨[(.marked, { s with database := some { d with runStatus := .destructionPending } })], .ok ()⟩ := by
        simp only [markRun, hd, hs, hg, if_true]
      have hnew : Inv t p c { s with database := some { d with runStatus := .destructionPending } } := by
        refine ⟨hi.once, hi.authorized, ?_, hi.guarded, hi.copied, hi.intended, fun _ => hf, ?_⟩
        · intro e he
          cases he
          exact ⟨hrun, hheld⟩
        · intro b hb
          rw [(hi.proved b hb).1] at hd
          cases hd
      refine .of_ok hx ?_ ⟨hnew, rfl, rfl, rfl⟩
      intro w hw
      cases List.mem_singleton.mp hw
      exact hnew
    · have hx : markRun s = ⟨[], .ok ()⟩ := by simp only [markRun, hd, hs, if_false]
      refine .of_ok hx ?_ ⟨hi, rfl, rfl, rfl⟩
      intro w hw
      cases hw


theorem Inv.put_intent (hi : Inv t p c s) (hf : s.files .consumedExternal = some (consumption t p).doc.bytes)
    (hnone : s.files .intent = none) {b : List UInt8} (hb : b <+: p.intent.doc.bytes) : Inv t p c (s.put .intent b) := by
  have hno : ¬(s.database = none ∨ s.browser = none) := fun hg => by
    rw [hi.gone hg] at hnone
    cases hnone
  refine ⟨hi.once, hi.authorized, hi.held, hi.guarded, ?_, ?_, fun hg => absurd hg hno, ?_⟩
  · intro b' hb'
    rw [put_other (by decide)] at hb'
    exact hi.copied b' hb'
  · intro b' hb'
    rw [put_file] at hb'
    cases hb'
    exact ⟨by rw [put_other (by decide)]; exact hf, hb⟩
  · intro b' hb'
    rw [put_other (by decide)] at hb'
    exact absurd (.inl (hi.proved b' hb').1) hno

theorem persistIntent_meets (hi : Inv t p c s) (hc : s.committed = [consumption t p])
    (hf : s.files .consumedExternal = some (consumption t p).doc.bytes) :
    Meets (persistIntent t p) s (Keeps t p c)
      (fun _ u => Inv t p c u ∧ u.files .intent = some p.intent.doc.bytes ∧ u.committed = [consumption t p] ∧
        u.files .deletionProof = s.files .deletionProof ∧ Whole s .intent p.intent.doc)
      (fun _ _ => ¬Whole s .intent p.intent.doc) := by
  have hne : s.committed ≠ [] := by rw [hc]; simp
  have ha := hi.authorized hne
  refine ((validateConsumed_meets hi).mono (fun _ _ h => h) (fun _ _ h => h) fun _ _ h => absurd h hne).bind fun _ u hu => ?_
  obtain ⟨rfl, -⟩ := hu
  refine ((immutableJson_meets (C := Keeps t p c) fun hn b hb => hi.put_intent hf hn hb).mono (fun _ _ h => h)
    (fun _ _ h => h) fun _ _ h => not_whole h.2).bind fun _ v hv => ?_
  obtain ⟨h1, h2, h3⟩ := wrote hv
  have hiv : Inv t p c v := by
    rcases hv with ⟨-, he⟩ | ⟨hn, he⟩
    · rw [he]
      exact hi
    · rw [he]
      exact hi.put_intent hf hn List.prefix_rfl
  have hcv : v.committed = [consumption t p] := by rw [h3.committed, hc]
  refine ((ownedCase_meets p.runId).mono (fun _ _ h => h) (fun _ _ h => h) fun _ _ h => ?_).bind fun _ w hw => ?_
  · exact absurd ⟨by rw [ha.plan]; exact ha.uuid, by rw [h3.owner, ha.plan]⟩ h
  obtain ⟨rfl, -⟩ := hw
  refine (markRun_meets hiv hcv h1).mono (fun _ _ h => h) (fun _ z hz => ?_) fun _ _ h => h.elim
  obtain ⟨hiz, -, hs⟩ := hz
  exact ⟨hiz, by rw [hs.files, h1], by rw [hs.committed, hcv], by rw [hs.files, h3.files _ (by decide)], h2⟩

theorem validateExternal_meets {C : Place → Case → Prop} (hi : Inv t p c s) :
    Meets (validateExternal t p) s C
      (fun _ u => u = s ∧ s.committed = [consumption t p] ∧ s.files .intent = some p.intent.doc.bytes)
      (fun _ _ => s.committed = [] ∨ s.files .intent ≠ some p.intent.doc.bytes) := by
  refine ((validateConsumed_meets hi).mono (fun _ _ h => h) (fun _ _ h => h) fun _ _ h => .inl h).bind fun _ u hu => ?_
  obtain ⟨rfl, hc⟩ := hu
  refine .read ?_ ?_
  · intro a h
    split_ifs at h with hn
    exact ⟨rfl, hc, not_not.mp hn⟩
  · intro e h
    split_ifs at h with hn
    exact .inr hn

/-! ### The deletions -/

theorem Inv.without_database (hi : Inv t p c s) (hf : s.files .intent = some p.intent.doc.bytes) :
    Inv t p c { s with database := none } := by
  refine ⟨hi.once, hi.authorized, ?_, hi.guarded, hi.copied, hi.intended, fun _ => hf, ?_⟩
  · intro d hd
    cases hd
  · intro b hb
    exact ⟨rfl, (hi.proved b hb).2⟩

theorem Inv.without_browser (hi : Inv t p c s) (hf : s.files .intent = some p.intent.doc.bytes) :
    Inv t p c { s with browser := none } := by
  refine ⟨hi.once, hi.authorized, hi.held, hi.guarded, hi.copied, hi.intended, fun _ => hf, ?_⟩
  intro b hb
  exact ⟨(hi.proved b hb).1, rfl, (hi.proved b hb).2.2⟩

theorem Inv.with_sidecars (hi : Inv t p c s) (l : List Suffix) : Inv t p c { s with sidecars := l } :=
  ⟨hi.once, hi.authorized, hi.held, hi.guarded, hi.copied, hi.intended, hi.gone, hi.proved⟩

theorem unlinkSidecar_meets (hi : Inv t p c s) (y : Suffix) : Meets (unlinkSidecar y) s (Keeps t p c)
    (fun _ u => Inv t p c u ∧ u.database = s.database ∧ u.browser = s.browser ∧ SameFiles s u) (fun _ _ => False) := by
  by_cases hy : y ∈ s.sidecars
  · have hx : unlinkSidecar y s = ⟨[(.sidecar y, { s with sidecars := s.sidecars.filter (· ≠ y) })], .ok ()⟩ := by
      simp only [unlinkSidecar, Prog.write, hy, if_true]
    refine .of_ok hx ?_ ⟨hi.with_sidecars _, rfl, rfl, rfl, rfl⟩
    intro w hw
    cases List.mem_singleton.mp hw
    exact hi.with_sidecars _
  · have hx : unlinkSidecar y s = ⟨[], .ok ()⟩ := by simp only [unlinkSidecar, Prog.write, hy, if_false]
    refine .of_ok hx ?_ ⟨hi, rfl, rfl, rfl, rfl⟩
    intro w hw
    cases hw

theorem deleteBackend_meets (hi : Inv t p c s) : Meets (deleteBackend t p) s (Keeps t p c)
    (fun _ u => Inv t p c u ∧ u.database = none ∧ u.browser = s.browser ∧ SameFiles s u)
    (fun _ _ => s.committed = [] ∨ s.files .intent ≠ some p.intent.doc.bytes) := by
  refine (validateExternal_meets hi).bind fun _ u hu => ?_
  obtain ⟨rfl, hc, hf⟩ := hu
  have ha := hi.authorized (by rw [hc]; simp)
  refine ((ownedCase_meets p.runId).mono (fun _ _ h => h) (fun _ _ h => h) fun _ _ h => ?_).bind fun _ v hv => ?_
  · exact absurd ⟨by rw [ha.plan]; exact ha.uuid, ha.plan⟩ h
  obtain ⟨rfl, -⟩ := hv
  have hdb : Meets unlinkDatabase v (Keeps t p c)
      (fun _ w => Inv t p c w ∧ w.database = none ∧ w.browser = v.browser ∧ SameFiles v w) (fun _ _ => False) := by
    cases hd : v.database with
    | none =>
      have hx : unlinkDatabase v = ⟨[], .ok ()⟩ := by simp [unlinkDatabase, Prog.write, hd]
      refine .of_ok hx ?_ ⟨hi, hd, rfl, rfl, rfl⟩
      intro w hw
      cases hw
    | some d =>
      have hx : unlinkDatabase v = ⟨[(.database, { v with database := none })], .ok ()⟩ := by
        simp [unlinkDatabase, Prog.write, hd]
      refine .of_ok hx ?_ ⟨hi.without_database hf, rfl, rfl, rfl, rfl⟩
      intro w hw
      cases List.mem_singleton.mp hw
      exact hi.without_database hf
  -- the sidecars after it change nothing else
  have hside : ∀ (y : Suffix) (w : Case), (Inv t p c w ∧ w.database = none ∧ w.browser = v.browser ∧ SameFiles v w) →
      Meets (unlinkSidecar y) w (Keeps t p c)
        (fun _ z => Inv t p c z ∧ z.database = none ∧ z.browser = v.browser ∧ SameFiles v z)
        (fun _ _ => v.committed = [] ∨ v.files .intent ≠ some p.intent.doc.bytes) := by
    intro y w ⟨hw, hd, hb, hs⟩
    refine (unlinkSidecar_meets hw y).mono (fun _ _ h => h) (fun _ z hz => ?_) fun _ _ h => h.elim
    obtain ⟨hz, hzd, hzb, hzs⟩ := hz
    exact ⟨hz, by rw [hzd, hd], by rw [hzb, hb], by rw [hzs.files, hs.files], by rw [hzs.committed, hs.committed]⟩
  refine (hdb.mono (fun _ _ h => h) (fun _ _ h => h) fun _ _ h => h.elim).bind fun _ w hw => ?_
  refine (hside .journal w hw).bind fun _ w hw => ?_
  exact (hside .wal w hw).bind fun _ w hw => hside .shm w hw

theorem deleteBrowser_meets (hi : Inv t p c s) (hf : s.files .intent = some p.intent.doc.bytes) :
    Meets deleteBrowser s (Keeps t p c)
      (fun _ u => Inv t p c u ∧ u.browser = none ∧ u.database = s.database ∧ SameFiles s u) (fun _ _ => False) := by
  cases hb : s.browser with
  | none =>
    have hx : deleteBrowser s = ⟨[], .ok ()⟩ := by simp [deleteBrowser, Prog.write, hb]
    refine .of_ok hx ?_ ⟨hi, hb, rfl, rfl, rfl⟩
    intro w hw
    cases hw
  | some d =>
    have hx : deleteBrowser s = ⟨[(.browser, { s with browser := none })], .ok ()⟩ := by
      simp [deleteBrowser, Prog.write, hb]
    refine .of_ok hx ?_ ⟨hi.without_browser hf, rfl, rfl, rfl, rfl⟩
    intro w hw
    cases List.mem_singleton.mp hw
    exact hi.without_browser hf

/-- Whatever the order, both stores are gone at the end. -/
theorem deleteStores_meets (hi : Inv t p c s) : Meets (deleteStores t p c x) s (Keeps t p c)
    (fun _ u => Inv t p c u ∧ u.database = none ∧ u.browser = none ∧ SameFiles s u)
    (fun _ _ => x.recover = false ∨ s.committed = [] ∨ s.files .intent ≠ some p.intent.doc.bytes) := by
  unfold deleteStores
  split_ifs with h
  · refine ((deleteBackend_meets hi).mono (fun _ _ h => h) (fun _ _ h => h) fun _ _ h => .inr h).bind fun _ u hu => ?_
    obtain ⟨hiu, hdu, -, hsu⟩ := hu
    refine ((checkpoint_meets hiu _).mono (fun _ _ h => h) (fun _ _ h => h) fun _ _ h => .inl h).bind fun _ v hv => ?_
    obtain ⟨rfl, -⟩ := hv
    refine ((validateExternal_meets hiu).mono (fun _ _ h => h) (fun _ _ h => h) fun _ _ h => ?_).bind fun _ w hw => ?_
    · rw [hsu.committed, hsu.files] at h
      exact .inr h
    obtain ⟨rfl, -, hf⟩ := hw
    refine (deleteBrowser_meets hiu hf).mono (fun _ _ h => h) (fun _ z hz => ?_) fun _ _ h => h.elim
    obtain ⟨hz, hzb, hzd, hzs⟩ := hz
    exact ⟨hz, by rw [hzd, hdu], hzb, by rw [hzs.files, hsu.files], by rw [hzs.committed, hsu.committed]⟩
  · refine ((validateExternal_meets hi).mono (fun _ _ h => h) (fun _ _ h => h) fun _ _ h => .inr h).bind fun _ u hu => ?_
    obtain ⟨rfl, hc, hf⟩ := hu
    refine ((deleteBrowser_meets hi hf).mono (fun _ _ h => h) (fun _ _ h => h) fun _ _ h => h.elim).bind fun _ v hv => ?_
    obtain ⟨hiv, hbv, -, hsv⟩ := hv
    refine ((checkpoint_meets hiv _).mono (fun _ _ h => h) (fun _ _ h => h) fun _ _ h => .inl h).bind fun _ w hw => ?_
    obtain ⟨rfl, -⟩ := hw
    refine (deleteBackend_meets hiv).mono (fun _ _ h => h) (fun _ z hz => ?_) fun _ _ h => ?_
    · obtain ⟨hz, hzd, hzb, hzs⟩ := hz
      exact ⟨hz, hzd, by rw [hzb, hbv], by rw [hzs.files, hsv.files], by rw [hzs.committed, hsv.committed]⟩
    · rw [hsv.committed, hsv.files] at h
      exact .inr h

/-! ### The deletion proof -/

/-- The deletion proof is not begun, or is all there. -/
def WholeProof (t : Trust) (p : Plan) (s : Case) : Prop :=
  ∀ b, s.files .deletionProof = some b → ∃ id, b = (deletionProof t p id).doc.bytes

theorem Inv.put_proof (hi : Inv t p c s) (hd : s.database = none) (hb : s.browser = none) {b : List UInt8}
    {id : BitVec 256} (hp : b <+: (deletionProof t p id).doc.bytes) : Inv t p c (s.put .deletionProof b) := by
  refine ⟨hi.once, hi.authorized, hi.held, hi.guarded, ?_, ?_, ?_, ?_⟩
  · intro b' hb'
    rw [put_other (by decide)] at hb'
    exact hi.copied b' hb'
  · intro b' hb'
    rw [put_other (by decide)] at hb' ⊢
    exact hi.intended b' hb'
  · intro hg
    rw [put_other (by decide)]
    exact hi.gone hg
  · intro b' hb'
    rw [put_file] at hb'
    cases hb'
    exact ⟨hd, hb, id, hp⟩

theorem checkProof_ok (hv : p.Valid t) (id : BitVec 256) : checkProof t p (deletionProof t p id).doc = .ok () := by
  have hs : (deletionProof t p id).conforms ≠ false := by simp [proof_conforms hv id]
  rw [checkProof, readProof_doc]
  dsimp only
  rw [if_neg hs, if_neg]
  simp only [deletionProof_hash id, ne_eq, not_true_eq_false, false_or]
  simp [deletionProof]

/-- A deletion proof that is read was written to its end. -/
theorem readProof_whole {id : BitVec 256} {b : List UInt8} {d : Doc} (hp : b <+: (deletionProof t p id).doc.bytes)
    (hr : readDoc b = some d) : b = (deletionProof t p id).doc.bytes := by
  refine Classical.byContradiction fun hne => ?_
  have hpl := (deletionProof t p id).doc_plain
  have hn : readDoc b = none := readDoc_torn (l := dict _) hpl hp hne
  rw [hn] at hr
  cases hr

theorem writeProof_meets (hi : Inv t p c s) (hd : s.database = none) (hb : s.browser = none) :
    Meets (writeProof t p c x) s (Keeps t p c)
      (fun _ u => Inv t p c u ∧ WholeProof t p s ∧ SameBut .deletionProof s u ∧
        ∃ id, u.files .deletionProof = some (deletionProof t p id).doc.bytes)
      (fun _ _ => ¬WholeProof t p s) := by
  have hne := hi.committed_of_gone (.inl hd)
  have hint := hi.gone (.inl hd)
  have ha := hi.authorized hne
  have hv := validatePlan_ok ha.valid
  refine ((validateExternal_meets hi).mono (fun _ _ h => h) (fun _ _ h => h) fun _ _ h => ?_).bind fun _ u hu => ?_
  · exact absurd h (by simp [hne, hint])
  obtain ⟨rfl, -, -⟩ := hu
  have hload : loadFile u .intent = .ok (some p.intent.doc) := by
    simp only [loadFile, hint, readDoc_bytes p.intent.doc_plain]
  refine (readActual_meets.mono (fun _ _ h => h) (fun _ _ h => h) fun e v he => ?_).bind fun a v hv' => ?_
  · rcases he with he | he | he
    · exact absurd ⟨by rw [ha.config]; exact ha.uuid, ha.config⟩ he
    · rw [hload] at he
      cases he
    · -- a proof that is all there is read
      intro hw
      cases hf : u.files .deletionProof with
      | none =>
        simp only [loadFile, hf] at he
        cases he
      | some b =>
        obtain ⟨id, rfl⟩ := hw b hf
        simp only [loadFile, hf, readDoc_bytes (DeletionProof.doc_plain _)] at he
        cases he
  obtain ⟨rfl, -, hbp, hdp, hproof⟩ := hv'
  rw [hb] at hbp
  rw [hd] at hdp
  rw [if_neg (by simp [hbp, hdp])]
  cases hf : v.files .deletionProof with
  | none =>
    have hnone : a.proof = none := by
      simp only [loadFile, hf] at hproof
      exact (Except.ok.inj hproof).symm
    have hs : (deletionProof t p x.proofId).conforms ≠ false := by simp [proof_conforms hv x.proofId]
    rw [hnone]
    dsimp only
    rw [if_neg hs]
    have hput : v.files .deletionProof = none → ∀ b, b <+: (deletionProof t p x.proofId).doc.bytes →
        Inv t p c (v.put .deletionProof b) := fun _ b hb' => hi.put_proof hd hb hb'
    refine (immutableJson_meets (C := Keeps t p c) hput).mono (fun _ _ h => h) (fun _ w hw => ?_) fun _ w he => ?_
    · obtain ⟨h1, -, h3⟩ := wrote hw
      refine ⟨?_, ?_, h3, _, h1⟩
      · rcases hw with ⟨hw, -⟩ | ⟨-, hw⟩
        · rw [hf] at hw
          cases hw
        · rw [hw]
          exact hi.put_proof hd hb List.prefix_rfl
      · intro b hb'
        rw [hf] at hb'
        cases hb'
    · obtain ⟨-, b, hb', -⟩ := he
      rw [hf] at hb'
      cases hb'
  | some b =>
    obtain ⟨-, -, id, hp⟩ := hi.proved b hf
    cases hr : readDoc b with
    | none =>
      simp only [loadFile, hf, hr] at hproof
      cases hproof
    | some d =>
      have hwhole := readProof_whole hp hr
      have hdoc : d = (deletionProof t p id).doc := by
        rw [hwhole, readDoc_bytes (DeletionProof.doc_plain _)] at hr
        exact (Option.some.inj hr).symm
      have hsome : a.proof = some d := by
        simp only [loadFile, hf, hr] at hproof
        exact (Except.ok.inj hproof).symm
      rw [hsome]
      dsimp only
      refine .read (fun _ _ => ⟨hi, ?_, .refl, id, by rw [hf, hwhole]⟩) fun e he => ?_
      · intro b' hb'
        rw [hf] at hb'
        cases hb'
        exact ⟨id, hwhole⟩
      · rw [hdoc, checkProof_ok hv id] at he
        cases he

/-! ### A whole call -/

/-- None of the files was left torn. -/
structure Untorn (t : Trust) (p : Plan) (s : Case) : Prop where
  consumed : Whole s .consumedExternal (consumption t p).doc
  intent : Whole s .intent p.intent.doc
  proof : WholeProof t p s

/-- Both stores are gone, with the plan's consumption and intent and a proof of it. -/
structure Destroyed (t : Trust) (p : Plan) (s : Case) : Prop where
  database : s.database = none
  browser : s.browser = none
  committed : s.committed = [consumption t p]
  intent : s.files .intent = some p.intent.doc.bytes
  proof : ∃ id, s.files .deletionProof = some (deletionProof t p id).doc.bytes

/-- What both a run and a recovery do once the consumption is committed. -/
theorem proceed_meets (hi : Inv t p c s) :
    Meets (do
      validateConsumed t p
      copyConsumption
      checkpoint c x "destroy_01a_after_consumption_before_intent"
      persistIntent t p
      checkpoint c x "destroy_02_after_intent_before_deletion"
      deleteStores t p c x
      checkpoint c x "destroy_05_after_both_deletions_before_proof"
      writeProof t p c x
      checkpoint c x "destroy_06_after_proof") s (Keeps t p c)
      (fun _ u => Untorn t p s ∧ Destroyed t p u)
      (fun _ _ => x.recover = false ∨ s.committed = [] ∨ ¬Untorn t p s) := by
  have hpass : ∀ {v : Case} (_ : Inv t p c v) (name : String), Meets (checkpoint c x name) v (Keeps t p c)
      (fun _ u => u = v) (fun _ _ => x.recover = false ∨ s.committed = [] ∨ ¬Untorn t p s) := fun hv name =>
    (checkpoint_meets hv name).mono (fun _ _ h => h) (fun _ _ h => h.1) fun _ _ h => .inl h
  refine ((validateConsumed_meets hi).mono (fun _ _ h => h) (fun _ _ h => h) fun _ _ h => .inr (.inl h)).bind
    fun _ u hu => ?_
  obtain ⟨rfl, hc⟩ := hu
  refine ((copyConsumption_meets hi hc).mono (fun _ _ h => h) (fun _ _ h => h) fun _ _ h =>
    .inr (.inr fun hw => h hw.consumed)).bind fun _ v hv => ?_
  obtain ⟨hiv, hfv, hwhole, hsv⟩ := hv
  have hcv : v.committed = [consumption t p] := by rw [hsv.committed, hc]
  have hintent : v.files .intent = u.files .intent := hsv.files _ (by decide)
  refine (hpass hiv _).bind fun _ w hw => ?_
  subst hw
  refine ((persistIntent_meets hiv hcv hfv).mono (fun _ _ h => h) (fun _ _ h => h) fun _ _ h => ?_).bind fun _ w hw => ?_
  · refine .inr (.inr fun hw => h fun b hb => ?_)
    rw [hintent] at hb
    exact hw.intent b hb
  obtain ⟨hiw, hfw, hcw, hpw, hiwhole⟩ := hw
  refine (hpass hiw _).bind fun _ y hy => ?_
  subst hy
  refine ((deleteStores_meets hiw).mono (fun _ _ h => h) (fun _ _ h => h) fun _ _ h => ?_).bind fun _ y hy => ?_
  · rcases h with h | h | h
    · exact .inl h
    · rw [hcw] at h
      cases h
    · exact absurd hfw h
  obtain ⟨hiy, hdy, hby, hsy⟩ := hy
  have hproof : y.files .deletionProof = u.files .deletionProof := by
    rw [hsy.files, hpw, hsv.files _ (by decide)]
  refine (hpass hiy _).bind fun _ z hz => ?_
  subst hz
  refine ((writeProof_meets hiy hdy hby).mono (fun _ _ h => h) (fun _ _ h => h) fun _ _ h => ?_).bind fun _ z hz => ?_
  · refine .inr (.inr fun hw => h fun b hb => ?_)
    rw [hproof] at hb
    exact hw.proof b hb
  obtain ⟨hiz, hwp, hsz, hpz⟩ := hz
  refine (hpass hiz _).mono (fun _ _ h => h) (fun _ a ha => ?_) fun _ _ h => h
  subst ha
  refine ⟨⟨hwhole, ?_, ?_⟩, ?_⟩
  · intro b hb
    rw [← hintent] at hb
    exact hiwhole b hb
  · intro b hb
    rw [← hproof] at hb
    exact hwp b hb
  · refine ⟨by rw [hsz.database, hdy], by rw [hsz.browser, hby], by rw [hsz.committed, hsy.committed, hcw], ?_, hpz⟩
    rw [hsz.files _ (by decide), hsy.files, hfw]

theorem execute_meets (hi : Inv t p c s) :
    Meets (execute t p c x) s (Keeps t p c)
      (fun _ u => x.recover = true → s.committed ≠ [] → Untorn t p s ∧ Destroyed t p u)
      (fun _ _ => x.recover = true → s.committed ≠ [] → ¬Untorn t p s) := by
  have ha : s.committed ≠ [] → Authorized t p c s.owner := hi.authorized
  refine ((ownedCase_meets c.runId).mono (fun _ _ h => h) (fun _ _ h => h) fun _ _ h _ hn => ?_).bind fun _ u hu => ?_
  · exact absurd ⟨by rw [(ha hn).config]; exact (ha hn).uuid, (ha hn).config⟩ h
  obtain ⟨rfl, -⟩ := hu
  refine (Meets.read (Q := fun _ v => v = u ∧ validatePlan t p = .ok ()) (fun _ h => ⟨rfl, h⟩) fun _ h _ hn => ?_).bind
    fun _ v hv => ?_
  · rw [(ha hn).valid] at h
    cases h
  obtain ⟨rfl, hvalid⟩ := hv
  refine ((checkpoint_meets hi _).mono (fun _ _ h => h) (fun _ _ h => h) fun _ _ h hr => ?_).bind fun _ u hu => ?_
  · rw [hr] at h
    cases h
  obtain ⟨rfl, hfirst⟩ := hu
  split_ifs with hstop hrec
  · refine .ret fun _ hn => ?_
    exact absurd hstop.2 (ha hn).boundary
  · refine (proceed_meets hi).mono (fun _ _ h => h) (fun _ _ h _ _ => h) fun _ _ h _ hn => ?_
    rcases h with h | h | h
    · rw [hrec] at h
      cases h
    · exact absurd h hn
    · exact h
  · have hb : c.checkpointId ≠ "destroy_01_before_authority" := (hfirst (by simpa using hrec)).symm
    refine ((authorize_meets hi hvalid hb).mono (fun _ _ h => h) (fun _ _ h => h) fun _ _ _ h => absurd h hrec).bind
      fun _ v hv => ?_
    exact (proceed_meets hv).mono (fun _ _ h => h) (fun _ _ _ h => absurd h hrec) fun _ _ _ h => absurd h hrec

/-! ## Any number of calls -/

theorem reach_inv (h : Reach t p c s) : Inv t p c s := by
  induction h with
  | prepared h => exact prepared_inv h
  | call x _ hs ih => exact ((execute_meets ih).mono (fun _ _ h => h) (fun _ _ h => h) fun _ _ h => h).crash ih hs

/-! ## A destruction that starts -/

/-- What a first call asks for before it commits the consumption. -/
structure Startable (t : Trust) (p : Plan) (c : Config) (s : Case) (d : Database) : Prop where
  prepared : Prepared s
  uuid : isUuid4 s.owner
  config : c.runId = s.owner
  plan : p.runId = s.owner
  valid : validatePlan t p = .ok ()
  boundary : c.checkpointId ≠ "destroy_01_before_authority"
  database : s.database = some d
  accepted : d.accepts t (consumption t p)
  inventory : p.exported.inventory = record [("browser", browserReport c s.browser),
    ("backend", record [("present", .bool true), ("state", d.report)])]

/-- The case once the consumption is committed. -/
def Case.consumed (s : Case) (d : Database) (r : Row) : Case :=
  { s with
    database := some { d with authorizationConsumptions := d.authorizationConsumptions ++ [r] }
    committed := s.committed ++ [r] }

theorem ownedCase_ok {r : String} (hu : isUuid4 r) (ho : r = s.owner) : ownedCase r s = ⟨[], .ok ()⟩ := by
  subst ho
  simp only [ownedCase, Prog.read, hu, Bool.true_eq_false, if_false, ne_eq, not_true_eq_false]

theorem checkpoint_ok {name : String} (hn : x.recover = false → name ≠ c.checkpointId) :
    checkpoint c x name s = ⟨[], .ok ()⟩ := by
  unfold checkpoint
  rw [if_neg fun h => hn h.1 h.2]
  rfl

variable {d : Database}

theorem Startable.rows (h : Startable t p c s d) : d.authorizationConsumptions = [] := by
  obtain ⟨e, he, -, -, hrows⟩ := h.prepared.database
  rw [h.database] at he
  cases he
  exact hrows

theorem Startable.readActual_ok (h : Startable t p c s d) : readActual c s = ⟨[], .ok
    { browserPresent := s.browser.isSome
      browser := browserReport c s.browser
      backendPresent := true
      backendState := d.report
      intent := none
      proof := none }⟩ := by
  have ho : ownedCase c.runId s = ⟨[], .ok ()⟩ := ownedCase_ok (by rw [h.config]; exact h.uuid) h.config
  have hi : loadFile s .intent = .ok none := by simp only [loadFile, h.prepared.files.2.1]
  have hp : loadFile s .deletionProof = .ok none := by simp only [loadFile, h.prepared.files.2.2]
  show Prog.andThen (ownedCase c.runId) _ s = _
  simp only [Prog.andThen, ho, Exec.final_nil, Prog.read, hi, hp, h.database]
  rfl

theorem Startable.authorize_ok (h : Startable t p c s d) : authorize t p c s =
    ⟨[(.consumption, s.consumed d (consumption t p))], .ok ()⟩ := by
  show Prog.andThen (readActual c) _ s = _
  simp only [Prog.andThen, h.readActual_ok, Exec.final_nil]
  rw [if_neg (by rw [h.inventory]; exact not_not.mpr rfl)]
  simp only [insertConsumption, h.database, h.accepted, if_true]
  rfl

theorem Startable.validateConsumed_ok (h : Startable t p c s d) :
    validateConsumed t p (s.consumed d (consumption t p)) = ⟨[], .ok ()⟩ := by
  have ho : ownedCase p.runId (s.consumed d (consumption t p)) = ⟨[], .ok ()⟩ :=
    ownedCase_ok (by rw [h.plan]; exact h.uuid) h.plan
  show Prog.andThen (ownedCase p.runId) _ _ = _
  simp only [Prog.andThen, ho, Exec.final_nil]
  show Prog.andThen (Prog.read _) _ _ = _
  simp only [Prog.andThen, Prog.read, h.valid, Exec.final_nil, consumed, Case.consumed, h.rows, List.nil_append, ne_eq,
    not_true_eq_false, if_false]

/-- A first call commits the consumption, and then creates the file of its copy. -/
theorem Startable.writes (h : Startable t p c s d) (hx : x.recover = false) {w : Place × Case}
    (hw : w = (.consumption, s.consumed d (consumption t p)) ∨
      w = (.file .consumedExternal, (s.consumed d (consumption t p)).put .consumedExternal [])) :
    w ∈ (execute t p c x s).writes := by
  have hfirst : checkpoint c x "destroy_01_before_authority" s = ⟨[], .ok ()⟩ := checkpoint_ok fun _ => h.boundary.symm
  have hvalid : (Prog.read fun _ => validatePlan t p : Action Unit) s = ⟨[], .ok ()⟩ := by rw [← h.valid]; rfl
  have hstop : ¬(x.recover = true ∧ c.checkpointId = "destroy_01_before_authority") := fun hs => h.boundary hs.2
  refine mem_writes_right (ownedCase_ok (by rw [h.config]; exact h.uuid) h.config) (mem_writes_right hvalid
    (mem_writes_right hfirst ?_))
  dsimp only
  rw [if_neg hstop, if_neg (by rw [hx]; decide)]
  rcases hw with rfl | rfl
  · refine mem_writes_left ?_
    show _ ∈ (authorize t p c s).writes
    rw [h.authorize_ok]
    exact List.mem_cons_self
  · refine mem_writes_right h.authorize_ok (mem_writes_right h.validateConsumed_ok (mem_writes_left ?_))
    have hnone : (s.consumed d (consumption t p)).files .consumedExternal = none := h.prepared.files.1
    have hx : copyConsumption (s.consumed d (consumption t p)) = immutableJson .consumedExternal (consumption t p).doc
        (s.consumed d (consumption t p)) := by
      simp only [copyConsumption, Case.consumed, h.rows, List.nil_append]
    show _ ∈ (copyConsumption (s.consumed d (consumption t p))).writes
    rw [hx]
    simp only [immutableJson, hnone]
    exact List.mem_map.mpr ⟨0, List.mem_range.mpr (Nat.succ_pos _), rfl⟩

/-- Killed right after its commit, it leaves a case that nothing keeps from being
destroyed. -/
theorem Startable.reach_committed (h : Startable t p c s d) : Reach t p c (s.consumed d (consumption t p)) :=
  .call ⟨false, 0, 0⟩ (.prepared h.prepared) (mem_crashes (h.writes rfl (.inl rfl)))

theorem Startable.reach_torn (h : Startable t p c s d) :
    Reach t p c ((s.consumed d (consumption t p)).put .consumedExternal []) :=
  .call ⟨false, 0, 0⟩ (.prepared h.prepared) (mem_crashes (h.writes rfl (.inr rfl)))

theorem Startable.untorn (h : Startable t p c s d) : Untorn t p (s.consumed d (consumption t p)) := by
  obtain ⟨h1, h2, h3⟩ := h.prepared.files
  refine ⟨fun b hb => ?_, fun b hb => ?_, fun b hb => ?_⟩
  · cases h1.symm.trans hb
  · cases h2.symm.trans hb
  · cases h3.symm.trans hb

theorem Startable.reach_destroyed (h : Startable t p c s d) : ∃ u, Reach t p c u ∧ Destroyed t p u := by
  have hr := h.reach_committed
  have hm := execute_meets (x := ⟨true, 0, 0⟩) (reach_inv hr)
  have hne : (s.consumed d (consumption t p)).committed ≠ [] := by simp [Case.consumed]
  refine ⟨_, .call ⟨true, 0, 0⟩ hr (final_mem_crashes _ _), ?_⟩
  cases hres : (execute t p c ⟨true, 0, 0⟩ (s.consumed d (consumption t p))).result with
  | ok a => exact (hm.returns a hres rfl hne).2
  | error e => exact absurd h.untorn (hm.raises e hres rfl hne)

/-! A small run, with a hash and a signature check nothing depends on. -/

def smallHash : String := String.ofList (List.replicate 64 '0')

def smallTrust : Trust := ⟨fun _ => 0, fun _ _ => true, fun _ => true, fun _ => true⟩

def smallRun : String := "00000000-0000-4000-8000-000000000028"

def smallConfig : Config := ⟨smallRun, "destroy_05_after_both_deletions_before_proof", [], "moj-discovery"⟩

def smallBrowser : BrowserStore := ⟨.arr [], .arr [], .arr []⟩

def smallDatabase : Database := ⟨smallRun, .closed, [], []⟩

def smallCase : Case := ⟨smallRun, some smallDatabase, [.wal, .shm], some smallBrowser, fun _ => none, []⟩

def smallReceipt : Receipt :=
  { schemaVersion := "gate-receipt/v1"
    recordType := "GateReceipt"
    recordId := "00000000-0000-4000-8000-000000000027"
    issuer := "issuer:rfc8032-test-vector-1"
    issuerRole := "PACK_REVIEWER"
    issuerKeyId := testKeyId
    signatureAlgorithm := "Ed25519"
    audience := "hybrid-discovery:bootstrap-gate:v1"
    packBindings := []
    implementationBindings := []
    scope := "WHOLE_RUN_DESTRUCTION_AFTER_ACCEPTED_EXPORT"
    serial := "TEST-EXPORT-GATE-0001"
    nonce := "GGGGGGGGGGGGGGGGGGGGGGGGGGGGGGGGGGGGGGGGGGG"
    issuedAt := "2030-01-01T00:00:00Z"
    notBefore := "2030-01-01T00:00:00Z"
    expiresAt := "2030-01-01T00:30:00Z"
    revocationCheckpoint := []
    oneUse := true
    consumedBefore := "ATOMIC_LEDGER_COMMIT_BEFORE_WHOLE_RUN_DESTRUCTION"
    productionAuthority := "NONE"
    contentHash := smallHash
    signature := ""
    gateKind := "EVIDENCE_EXPORT_ACCEPTED"
    gateResult := "PASS"
    prerequisiteReceiptHashes := []
    criteriaEvidenceHashes := []
    declaredUseSemantics := "SINGLE_USE"
    boundRunId := smallRun
    acceptedSanitizedExportManifestHash := smallHash }

def smallIntent : Intent :=
  { recordType := "RunDestructionIntent"
    schemaVersion := "1"
    destructionIntentId := "DESTRUCTION_INTENT:" ++ smallHash
    contentHashAlgorithm := "HD-JCS-SHA256-v1"
    contentHashDomain := "HYBRID-DISCOVERY/v6.2/RunDestructionIntent/v1\x00"
    contentHash := smallHash
    runId := smallRun
    runState := "RUN_CLOSED"
    writerCount := "0"
    exportStatus := "VALIDATED_REPLAYED_SECRET_SCANNED_ACCEPTED"
    acceptedSanitizedExportManifestHash := smallHash
    accountingStatus := "ALL_ROWS_ACK_CHAIN_OR_EXPLICIT_GAP_EXPORT_ACCOUNTED"
    requiredArtifactsIncluded := artifacts
    destructionAuthorizationId := smallReceipt.recordId
    destructionGateReceiptContentHash := smallHash
    destructionGateReceipt := smallReceipt
    destructionGateReceiptVerification :=
      "CANONICAL_BYTES_CONTENT_HASH_AND_ED25519_SIGNATURE_VERIFIED_BEFORE_CONSUMPTION"
    destructionAuthorizationConsumptionId := "AUTHORIZATION_CONSUMPTION:" ++ smallHash
    destructionAuthorityConsumptionState := "COMMITTED_BEFORE_WHOLE_RUN_DESTRUCTION"
    humanInvocation := true
    humanInvocationMode := "EXPLICIT_HUMAN_INVOCATION"
    preDeleteInventoryHash := smallHash
    externalIntentPath := intentPath smallRun
    createdAt := createdAt
    immutable := true }

def smallPlan : Plan :=
  { testScope := testScope
    runId := smallRun
    exported :=
      { testScope := testScope
        runId := smallRun
        inventory := record [("browser", browserReport smallConfig (some smallBrowser)),
          ("backend", record [("present", .bool true), ("state", smallDatabase.report)])]
        requiredArtifacts := artifacts }
    intent := smallIntent }

theorem small_startable : Startable smallTrust smallPlan smallConfig smallCase smallDatabase where
  prepared := ⟨⟨smallDatabase, rfl, rfl, rfl, rfl⟩, by rintro ⟨⟩, ⟨rfl, rfl, rfl⟩, rfl⟩
  uuid := by decide +kernel
  config := rfl
  plan := rfl
  valid := by decide +kernel
  boundary := by decide
  database := rfl
  accepted := by decide +kernel
  inventory := rfl

/-! ## Safety -/

/-- Whatever is killed and wherever: a store is gone only after the plan's consumption was
committed, copied and its intent persisted; nothing else is ever committed; and a deletion
proof, torn or complete, is there only when both stores are gone. -/
theorem destruction_safe (h : Reach t p c s) :
    (s.database = none ∨ s.browser = none → s.committed = [consumption t p] ∧
      s.files .consumedExternal = some (consumption t p).doc.bytes ∧ s.files .intent = some p.intent.doc.bytes) ∧
    (s.committed = [] ∨ s.committed = [consumption t p]) ∧
    (∀ d, s.database = some d → d.authorizationConsumptions = s.committed) ∧
    (∀ b, s.files .deletionProof = some b → s.database = none ∧ s.browser = none) := by
  have hi := reach_inv h
  refine ⟨fun hg => ?_, hi.once, fun d hd => (hi.held d hd).2, fun b hb => ?_⟩
  · have hint := hi.gone hg
    exact ⟨hi.row (hi.committed_of_gone hg), (hi.intended _ hint).1, hint⟩
  · obtain ⟨hd, hbr, -⟩ := hi.proved b hb
    exact ⟨hd, hbr⟩

/-- The small run destroyed: what the stores' absence says. -/
theorem destruction_safe_small : ∃ s, Reach smallTrust smallPlan smallConfig s ∧ s.database = none ∧ s.browser = none ∧
    s.committed = [consumption smallTrust smallPlan] ∧
    s.files .intent = some smallPlan.intent.doc.bytes := by
  obtain ⟨s, hr, hd⟩ := small_startable.reach_destroyed
  obtain ⟨hc, -, hi⟩ := (destruction_safe hr).1 (.inl hd.database)
  exact ⟨s, hr, hd.database, hd.browser, hc, hi⟩

end BettingHelper.Destruction
