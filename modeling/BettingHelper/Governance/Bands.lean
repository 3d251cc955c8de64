/-
  BettingHelper.Governance.Bands — `_band_error` of `semantic_vectors.py`: the bands that a
  forecast is evaluated in, horizon by horizon.

  The order of the bands is checked against a sorted copy, and of the sorted live intervals
  only neighbours are compared. Proved (`bandError_none_iff`): nothing is wrong exactly when
  each band is in order by itself (`Admitted`), each comes before the later ones (`Before`),
  and no two share a minute (`Apart`).

  `str` of a number that is no integer and of a list or a dictionary is a parameter: it is
  no phase, and which text it is does not matter.
-/

import BettingHelper.Lib.Checked
import BettingHelper.Lib.PyInt
import BettingHelper.Lib.PyValue

namespace BettingHelper.Governance

open BettingHelper.Lib
open BettingHelper.Lib.Json

inductive BandError where
  /-- `E_SCOPE_H1_PHASE` -/
  | h1Phase
  /-- `E_SCOPE_BAND_STATE` -/
  | bandState
  /-- `E_SCOPE_NONLIVE_MINUTE` -/
  | nonliveMinute
  /-- `E_SCOPE_MINUTE_RANGE` -/
  | minuteRange
  /-- `E_SCOPE_MINUTE_ORDER` -/
  | minuteOrder
  /-- `E_SCOPE_BAND_ORDER` -/
  | bandOrder
  /-- `E_SCOPE_BAND_OVERLAP` -/
  | bandOverlap
  deriving DecidableEq, Repr

/-- How the loop is left: with what is wrong, or by an exception. -/
inductive Stop where
  | returned (e : BandError)
  | raised
  deriving DecidableEq, Repr

/-! ## Phases and minutes -/

def phaseOrder (phase : Text) : Option Int :=
  [(text "PRE_MATCH", 0), (text "FIRST_HALF", 1), (text "HALFTIME", 2), (text "SECOND_HALF", 3), (text "EXTRA_TIME", 4)].lookup phase

def admissionByState (phase : Text) : Option Text :=
  [(text "PRE_MATCH", text "ADMITTED_PRE_MATCH"), (text "FIRST_HALF", text "ADMITTED_FIRST_HALF"),
    (text "HALFTIME", text "ADMITTED_HALFTIME"), (text "SECOND_HALF", text "ADMITTED_SECOND_HALF"),
    (text "EXTRA_TIME", text "ADMITTED_EXTRA_TIME")].lookup phase

def isLive (phase : Text) : Bool := phase ∈ [text "FIRST_HALF", text "SECOND_HALF", text "EXTRA_TIME"]

/-- `int(s)`, of no more digits than it takes. -/
def intOfText (s : Text) : Option Int := if 4300 < s.countP fun c => (decimalDigit c).isSome then none else pyInt s

section Bands

variable {F : Type} [DecidableEq F] (repr : Value F → Text)

/-- `str(v)` -/
def pyStr (v : Value F) : Text :=
  match v with
  | .str s => s
  | .null => text "None"
  | .bool true => text "True"
  | .bool false => text "False"
  | .int n => decimal n
  | v => repr v

def phaseOf (band : Value F) : Text := pyStr repr (dictGet band "fixture_phase")

/-- `int(str(band[k]))` -/
def minuteOf (band : Value F) (k : String) : Option Int := (item band k).bind fun v => intOfText (pyStr repr v)

/-- `admission_by_state.get(phase)` -/
def admissionCode (phase : Text) : Value F :=
  match admissionByState phase with
  | some code => .str code
  | none => .null

/-- The place of a band in time, and its minutes when it is live. -/
abbrev Row := (Int × Int) × Option (Int × Int)

/-- One band. -/
def readBand (horizon : Text) (eligibleStates : List Text) (band : Value F) : Except Stop Row :=
  match band with
  | .obj _ =>
    let phase := phaseOf repr band
    if horizon = text "H1" ∧ phase ∉ [text "PRE_MATCH", text "FIRST_HALF"] then .error (.returned .h1Phase)
    else if phase ∉ eligibleStates ∨ dictGet band "admission_code" ≠ admissionCode phase then .error (.returned .bandState)
    else if !isLive phase then
      if (item band "start_minute").isSome ∨ (item band "end_minute").isSome then .error (.returned .nonliveMinute)
      else
        match phaseOrder phase with
        | some n => .ok ((n, -1), none)
        | none => .error .raised
    else
      match minuteOf repr band "start_minute", minuteOf repr band "end_minute" with
      | some start, some stop =>
        if start < 0 ∨ start > 180 ∨ stop < 0 ∨ stop > 180 then .error (.returned .minuteRange)
        else if start ≥ stop then .error (.returned .minuteOrder)
        else
          match phaseOrder phase with
          | some n => .ok ((n, start), some (start, stop))
          | none => .error .raised
      | _, _ => .error (.returned .minuteRange)
  | _ => .error .raised

/-- `<=` of pairs -/
def pairLe (a b : Int × Int) : Bool := a.1 < b.1 || (a.1 = b.1 && a.2 ≤ b.2)

/-- Of the intervals in order, one starts before the one before it ends. -/
def neighboursOverlap : List (Int × Int) → Bool
  | a :: b :: l => b.1 < a.2 || neighboursOverlap (b :: l)
  | _ => false

/-- The bands of one horizon. -/
def readHorizon (eligibleStates : List Text) (horizon : Text) (bands : Value F) : Except Stop Unit :=
  match bands with
  | .arr l =>
    match l.mapM (readBand repr horizon eligibleStates) with
    | .error e => .error e
    | .ok rows =>
      let chronology := rows.map (·.1)
      if chronology ≠ chronology.mergeSort pairLe then .error (.returned .bandOrder)
      else if neighboursOverlap ((rows.filterMap (·.2)).mergeSort pairLe) then .error (.returned .bandOverlap)
      else .ok ()
  | _ => .error .raised

/-- `_band_error`; what it raises apart. -/
def bandError (evaluationBands : List (Text × Value F)) (eligibleStates : List Text) : Except Unit (Option BandError) :=
  match evaluationBands.forM fun m => readHorizon repr eligibleStates m.1 m.2 with
  | .ok () => .ok none
  | .error (.returned e) => .ok (some e)
  | .error .raised => .error ()

/-! ## What is to hold -/

/-- The minutes of a live band, from the first on and up to the last. -/
def interval (band : Value F) : Option (Int × Int) :=
  if isLive (phaseOf repr band) then
    match minuteOf repr band "start_minute", minuteOf repr band "end_minute" with
    | some start, some stop => some (start, stop)
    | _, _ => none
  else none

/-- A band that is in order by itself. -/
structure Admitted (horizon : Text) (eligibleStates : List Text) (band : Value F) : Prop where
  object : ∃ l, band = .obj l
  eligible : phaseOf repr band ∈ eligibleStates
  admitted : ∃ code, admissionByState (phaseOf repr band) = some code ∧ dictGet band "admission_code" = .str code
  h1 : horizon = text "H1" → phaseOf repr band = text "PRE_MATCH" ∨ phaseOf repr band = text "FIRST_HALF"
  nonlive : isLive (phaseOf repr band) = false → item band "start_minute" = none ∧ item band "end_minute" = none
  live : isLive (phaseOf repr band) = true → ∃ start stop, minuteOf repr band "start_minute" = some start ∧
    minuteOf repr band "end_minute" = some stop ∧ 0 ≤ start ∧ start < stop ∧ stop ≤ 180

/-- An earlier phase, or the same and no later start. -/
def Before (a b : Value F) : Prop :=
  ∃ m n, phaseOrder (phaseOf repr a) = some m ∧ phaseOrder (phaseOf repr b) = some n ∧
    (m < n ∨ m = n ∧ ∀ s ∈ interval repr a, ∀ t ∈ interval repr b, s.1 ≤ t.1)

/-- No minute is in both. -/
def Apart (a b : Value F) : Prop :=
  ∀ s ∈ interval repr a, ∀ t ∈ interval repr b, ∀ minute, ¬(s.1 ≤ minute ∧ minute < s.2 ∧ t.1 ≤ minute ∧ minute < t.2)

/-- The bands of a horizon are as they are to be. -/
structure Sound (eligibleStates : List Text) (horizon : Text) (l : List (Value F)) : Prop where
  admitted : ∀ band ∈ l, Admitted repr horizon eligibleStates band
  ordered : l.Pairwise (Before repr)
  apart : l.Pairwise (Apart repr)

/-! ## Sorted intervals -/

theorem pairLe_iff {a b : Int × Int} : pairLe a b = true ↔ a.1 < b.1 ∨ a.1 = b.1 ∧ a.2 ≤ b.2 := by simp [pairLe]

theorem pairLe_trans (a b c : Int × Int) (hab : pairLe a b = true) (hbc : pairLe b c = true) : pairLe a c = true := by
  rw [pairLe_iff] at *
  omega

theorem pairLe_total (a b : Int × Int) : (pairLe a b || pairLe b a) = true := by
  rw [Bool.or_eq_true, pairLe_iff, pairLe_iff]
  omega

theorem sorted_iff (l : List (Int × Int)) : l = l.mergeSort pairLe ↔ l.Pairwise fun a b => pairLe a b = true := by
  constructor
  · intro h
    rw [h]
    exact List.pairwise_mergeSort pairLe_trans pairLe_total l
  · intro h
    exact (List.mergeSort_of_pairwise h).symm

/-- No number is in both. -/
def Disjoint (a b : Int × Int) : Prop := ∀ minute, ¬(a.1 ≤ minute ∧ minute < a.2 ∧ b.1 ≤ minute ∧ minute < b.2)

theorem Disjoint.symm {a b : Int × Int} (h : Disjoint a b) : Disjoint b a := fun m hm => h m ⟨hm.2.2.1, hm.2.2.2, hm.1, hm.2.1⟩

theorem disjoint_of_le {a b : Int × Int} (h : a.2 ≤ b.1) : Disjoint a b := by
  intro m hm
  omega

/-- Neighbours that do not overlap leave each interval behind all the later ones. -/
theorem neighbours_apart {l : List (Int × Int)} (hl : ∀ a ∈ l, a.1 < a.2) (h : neighboursOverlap l = false) :
    l.Pairwise fun a b => a.2 ≤ b.1 := by
  induction l with
  | nil => exact .nil
  | cons a l ih =>
    cases l with
    | nil => exact List.pairwise_singleton _ _
    | cons b l =>
      rw [neighboursOverlap, Bool.or_eq_false_iff, decide_eq_false_iff_not] at h
      have hrest := ih (fun c hc => hl c (List.mem_cons_of_mem _ hc)) h.2
      refine List.pairwise_cons.mpr ⟨fun c hc => ?_, hrest⟩
      rcases List.mem_cons.mp hc with rfl | hc
      · omega
      · have hbc := List.rel_of_pairwise_cons hrest hc
        have hb := hl b (List.mem_cons_of_mem _ List.mem_cons_self)
        omega

theorem apart_neighbours {l : List (Int × Int)} (hl : ∀ a ∈ l, a.1 < a.2) (hs : l.Pairwise fun a b => pairLe a b = true)
    (h : l.Pairwise Disjoint) : neighboursOverlap l = false := by
  induction l with
  | nil => rfl
  | cons a l ih =>
    cases l with
    | nil => rfl
    | cons b l =>
      have hab := pairLe_iff.mp (List.rel_of_pairwise_cons hs List.mem_cons_self)
      have hd := List.rel_of_pairwise_cons h List.mem_cons_self b.1
      have hb := hl b (List.mem_cons_of_mem _ List.mem_cons_self)
      rw [neighboursOverlap, Bool.or_eq_false_iff, decide_eq_false_iff_not]
      refine ⟨by omega, ih (fun c hc => hl c (List.mem_cons_of_mem _ hc)) (List.Pairwise.of_cons hs) (List.Pairwise.of_cons h)⟩

/-- Sorted intervals whose neighbours do not overlap are apart, all of them and in any order. -/
theorem overlap_iff {l : List (Int × Int)} (hl : ∀ a ∈ l, a.1 < a.2) :
    neighboursOverlap (l.mergeSort pairLe) = false ↔ l.Pairwise Disjoint := by
  have hperm := List.mergeSort_perm l pairLe
  have hlen : ∀ a ∈ l.mergeSort pairLe, a.1 < a.2 := fun a ha => hl a (hperm.mem_iff.mp ha)
  rw [← hperm.pairwise_iff Disjoint.symm]
  constructor
  · intro h
    exact (neighbours_apart hlen h).imp disjoint_of_le
  · intro h
    exact apart_neighbours hlen (List.pairwise_mergeSort pairLe_trans pairLe_total l) h

/-! ## One band -/

theorem phaseOrder_cases {phase : Text} {n : Int} (h : phaseOrder phase = some n) :
    (phase, n) ∈ [(text "PRE_MATCH", 0), (text "FIRST_HALF", 1), (text "HALFTIME", 2), (text "SECOND_HALF", 3), (text "EXTRA_TIME", 4)] := by
  obtain ⟨l₁, l₂, hl, -⟩ := List.lookup_eq_some_iff.mp h
  rw [hl]
  simp

theorem live_order {phase : Text} {n : Int} (h : phaseOrder phase = some n) : isLive phase = decide (n = 1 ∨ n = 3 ∨ n = 4) := by
  have hcases := phaseOrder_cases h
  simp only [List.mem_cons, List.not_mem_nil, or_false, Prod.mk.injEq] at hcases
  rcases hcases with ⟨rfl, rfl⟩ | ⟨rfl, rfl⟩ | ⟨rfl, rfl⟩ | ⟨rfl, rfl⟩ | ⟨rfl, rfl⟩ <;> decide

theorem lookup_keys {β : Type} {l : List (Text × β)} {k : Text} : (∃ v, l.lookup k = some v) ↔ k ∈ l.map (·.1) := by
  constructor
  · intro ⟨v, h⟩
    obtain ⟨l₁, l₂, rfl, -⟩ := List.lookup_eq_some_iff.mp h
    simp
  · intro h
    by_contra hn
    have hnone : l.lookup k = none := Option.eq_none_iff_forall_ne_some.mpr fun v hv => hn ⟨v, hv⟩
    obtain ⟨m, hm, rfl⟩ := List.mem_map.mp h
    simpa using List.lookup_eq_none_iff.mp hnone m hm

/-- The phases that are admitted are those that have a place. -/
theorem admission_order {phase : Text} : (∃ code, admissionByState phase = some code) ↔ ∃ n, phaseOrder phase = some n := by
  rw [admissionByState, phaseOrder, lookup_keys, lookup_keys]
  rfl

variable {repr} in
theorem Admitted.place {horizon : Text} {eligibleStates : List Text} {band : Value F} (h : Admitted repr horizon eligibleStates band) :
    ∃ n, phaseOrder (phaseOf repr band) = some n := by
  obtain ⟨code, hcode, -⟩ := h.admitted
  exact admission_order.mp ⟨code, hcode⟩

/-- What is read of a band. -/
def row (band : Value F) : Row :=
  (((phaseOrder (phaseOf repr band)).getD 0, ((interval repr band).map (·.1)).getD (-1)), interval repr band)

variable {repr}

theorem live_phase {phase : Text} (h : isLive phase = true) : ∃ n, phaseOrder phase = some n := by
  rw [isLive, decide_eq_true_eq] at h
  simp only [List.mem_cons, List.not_mem_nil, or_false] at h
  rcases h with rfl | rfl | rfl
  · exact ⟨1, by decide⟩
  · exact ⟨3, by decide⟩
  · exact ⟨4, by decide⟩

theorem code_iff {phase : Text} {v : Value F} (hp : ∃ n, phaseOrder phase = some n) :
    v = admissionCode phase ↔ ∃ code, admissionByState phase = some code ∧ v = .str code := by
  obtain ⟨code, hcode⟩ := admission_order.mpr hp
  simp [admissionCode, hcode]

theorem error_iff {p : Prop} {e : Stop} {r r' : Row} (hp : ¬p) : (Except.error e : Except Stop Row) = .ok r ↔ p ∧ r = r' :=
  ⟨fun h => (nomatch h), fun h => absurd h.1 hp⟩

theorem ok_iff {p : Prop} {r r' : Row} (hp : p) : (Except.ok r' : Except Stop Row) = .ok r ↔ p ∧ r = r' := by
  rw [Except.ok.injEq]
  exact ⟨fun h => ⟨hp, h.symm⟩, fun h => h.2.symm⟩

section Object

variable {horizon : Text} {eligibleStates : List Text} {l : List (Text × Value F)} {r : Row}

/-- The checks that every band passes first. -/
structure Fits (repr : Value F → Text) (horizon : Text) (eligibleStates : List Text) (band : Value F) : Prop where
  h1 : ¬(horizon = text "H1" ∧ phaseOf repr band ∉ [text "PRE_MATCH", text "FIRST_HALF"])
  state : ¬(phaseOf repr band ∉ eligibleStates ∨ dictGet band "admission_code" ≠ admissionCode (phaseOf repr band))

theorem Admitted.fits {band : Value F} (h : Admitted repr horizon eligibleStates band) : Fits repr horizon eligibleStates band := by
  constructor
  · intro ⟨hh, hp⟩
    exact hp (by simpa using h.h1 hh)
  · intro hs
    rcases hs with hs | hs
    · exact hs h.eligible
    · exact hs ((code_iff h.place).mpr h.admitted)

theorem Fits.first {band : Value F} (h : Fits repr horizon eligibleStates band) (hh : horizon = text "H1") :
    phaseOf repr band = text "PRE_MATCH" ∨ phaseOf repr band = text "FIRST_HALF" := by
  by_contra hne
  exact h.h1 ⟨hh, by simpa using hne⟩

theorem Fits.eligible {band : Value F} (h : Fits repr horizon eligibleStates band) : phaseOf repr band ∈ eligibleStates := by
  by_contra hne
  exact h.state (.inl hne)

theorem Fits.code {band : Value F} (h : Fits repr horizon eligibleStates band) (hp : ∃ n, phaseOrder (phaseOf repr band) = some n) :
    ∃ code, admissionByState (phaseOf repr band) = some code ∧ dictGet band "admission_code" = .str code := by
  by_contra hne
  exact h.state (.inr fun he => hne ((code_iff hp).mp he))

theorem readBand_nonlive (hf : Fits repr horizon eligibleStates (.obj l)) (hlive : isLive (phaseOf repr (.obj l)) = false) :
    readBand repr horizon eligibleStates (.obj l) = .ok r ↔
      Admitted repr horizon eligibleStates (.obj l) ∧ r = row repr (.obj l) := by
  rw [readBand, if_neg hf.h1, if_neg hf.state]
  simp only [hlive, Bool.not_false, if_true]
  by_cases hm : (item (.obj l) "start_minute").isSome ∨ (item (.obj l) "end_minute").isSome
  · rw [if_pos hm]
    refine error_iff fun ha => ?_
    obtain ⟨hstart, hend⟩ := ha.nonlive hlive
    simp [hstart, hend] at hm
  rw [if_neg hm]
  push Not at hm
  cases hplace : phaseOrder (phaseOf repr (.obj l)) with
  | none =>
    refine error_iff fun ha => ?_
    obtain ⟨n, hn⟩ := ha.place
    rw [hplace] at hn
    cases hn
  | some n =>
    have hrow : row repr (.obj l) = ((n, -1), none) := by simp [row, interval, hplace, hlive]
    rw [hrow]
    refine ok_iff ⟨⟨l, rfl⟩, hf.eligible, hf.code ⟨n, hplace⟩, hf.first, fun _ => ⟨by simpa using hm.1, by simpa using hm.2⟩, fun h => ?_⟩
    rw [hlive] at h
    cases h

theorem readBand_live (hf : Fits repr horizon eligibleStates (.obj l)) (hlive : isLive (phaseOf repr (.obj l)) = true) :
    readBand repr horizon eligibleStates (.obj l) = .ok r ↔
      Admitted repr horizon eligibleStates (.obj l) ∧ r = row repr (.obj l) := by
  obtain ⟨n, hn⟩ := live_phase hlive
  rw [readBand, if_neg hf.h1, if_neg hf.state]
  simp only [hlive, Bool.not_true, Bool.false_eq_true, if_false, hn]
  cases hstart : minuteOf repr (.obj l) "start_minute" with
  | none =>
    refine error_iff fun ha => ?_
    obtain ⟨start, stop, h, -⟩ := ha.live hlive
    rw [hstart] at h
    cases h
  | some start =>
    cases hend : minuteOf repr (.obj l) "end_minute" with
    | none =>
      refine error_iff fun ha => ?_
      obtain ⟨start, stop, -, h, -⟩ := ha.live hlive
      rw [hend] at h
      cases h
    | some stop =>
      have hrange : Admitted repr horizon eligibleStates (.obj l) → 0 ≤ start ∧ start < stop ∧ stop ≤ 180 := by
        intro ha
        obtain ⟨x, y, hx, hy, hxy⟩ := ha.live hlive
        rw [hstart] at hx
        rw [hend] at hy
        cases hx
        cases hy
        exact hxy
      by_cases hr : start < 0 ∨ start > 180 ∨ stop < 0 ∨ stop > 180
      · simp only [if_pos hr]
        refine error_iff fun ha => ?_
        have := hrange ha
        omega
      by_cases ho : start ≥ stop
      · simp only [if_neg hr, if_pos ho]
        refine error_iff fun ha => ?_
        have := hrange ha
        omega
      have hrow : row repr (.obj l) = ((n, start), some (start, stop)) := by simp [row, interval, hn, hlive, hstart, hend]
      simp only [if_neg hr, if_neg ho, hrow]
      refine ok_iff ⟨⟨l, rfl⟩, hf.eligible, hf.code ⟨n, hn⟩, hf.first, fun h => ?_, fun _ => ⟨start, stop, hstart, hend, ?_⟩⟩
      · rw [hlive] at h
        cases h
      · omega

end Object

/-- A band is read exactly when it is in order by itself. -/
theorem readBand_ok {horizon : Text} {eligibleStates : List Text} {band : Value F} {r : Row} :
    readBand repr horizon eligibleStates band = .ok r ↔ Admitted repr horizon eligibleStates band ∧ r = row repr band := by
  cases band with
  | obj l =>
    by_cases hf : Fits repr horizon eligibleStates (.obj l)
    · cases hlive : isLive (phaseOf repr (.obj l)) with
      | false => exact readBand_nonlive hf hlive
      | true => exact readBand_live hf hlive
    · have hno : ¬Admitted repr horizon eligibleStates (.obj l) := fun ha => hf ha.fits
      rw [readBand]
      split
      · exact error_iff hno
      split
      · exact error_iff hno
      · next h1 hstate => exact absurd ⟨h1, hstate⟩ hf
  | _ =>
    refine error_iff fun ha => ?_
    obtain ⟨l, hl⟩ := ha.object
    cases hl

/-! ## The bands of a horizon -/

theorem Admitted.before_iff {horizon : Text} {eligibleStates : List Text} {a b : Value F} (ha : Admitted repr horizon eligibleStates a)
    (hb : Admitted repr horizon eligibleStates b) : pairLe (row repr a).1 (row repr b).1 = true ↔ Before repr a b := by
  obtain ⟨m, hm⟩ := ha.place
  obtain ⟨n, hn⟩ := hb.place
  have hplaces : Before repr a b ↔ m < n ∨ m = n ∧ ∀ s ∈ interval repr a, ∀ t ∈ interval repr b, s.1 ≤ t.1 := by
    simp [Before, hm, hn]
  rw [hplaces, pairLe_iff]
  simp only [row, hm, hn, Option.getD_some]
  refine or_congr_right (and_congr_right fun hmn => ?_)
  have hlive := live_order hm
  rw [hmn, ← live_order hn] at hlive
  cases hl : isLive (phaseOf repr b) with
  | false =>
    rw [hl] at hlive
    simp [interval, hlive, hl]
  | true =>
    rw [hl] at hlive
    obtain ⟨x, y, hx, hy, -⟩ := ha.live hlive
    obtain ⟨u, v, hu, hv, -⟩ := hb.live hl
    simp [interval, hlive, hl, hx, hy, hu, hv]

theorem Admitted.interval_lt {horizon : Text} {eligibleStates : List Text} {band : Value F} (h : Admitted repr horizon eligibleStates band)
    {s : Int × Int} (hs : interval repr band = some s) : s.1 < s.2 := by
  cases hl : isLive (phaseOf repr band) with
  | false =>
    rw [interval, hl] at hs
    cases hs
  | true =>
    obtain ⟨x, y, hx, hy, -, hxy, -⟩ := h.live hl
    rw [interval, if_pos hl, hx, hy] at hs
    cases hs
    exact hxy

theorem readBands_ok {horizon : Text} {eligibleStates : List Text} {l : List (Value F)} {rows : List Row} :
    l.mapM (readBand repr horizon eligibleStates) = .ok rows ↔
      (∀ band ∈ l, Admitted repr horizon eligibleStates band) ∧ rows = l.map (row repr) := by
  induction l generalizing rows with
  | nil =>
    simp only [List.mapM_nil, List.not_mem_nil, false_implies, implies_true, true_and, List.map_nil]
    exact ⟨fun h => by cases h; rfl, fun h => by rw [h]; rfl⟩
  | cons band l ih =>
    rw [List.mapM_cons, bind_ok]
    constructor
    · intro ⟨r, hr, h⟩
      obtain ⟨rest, hrest, h⟩ := bind_ok.mp h
      obtain ⟨hband, rfl⟩ := readBand_ok.mp hr
      obtain ⟨hall, rfl⟩ := ih.mp hrest
      cases h
      exact ⟨List.forall_mem_cons.mpr ⟨hband, hall⟩, rfl⟩
    · intro ⟨hall, hrows⟩
      obtain ⟨hband, hall⟩ := List.forall_mem_cons.mp hall
      refine ⟨_, readBand_ok.mpr ⟨hband, rfl⟩, bind_ok.mpr ⟨_, ih.mpr ⟨hall, rfl⟩, ?_⟩⟩
      rw [hrows]
      rfl

/-- A horizon passes exactly when its value is a list of bands as they are to be. -/
theorem readHorizon_ok {eligibleStates : List Text} {horizon : Text} {bands : Value F} :
    readHorizon repr eligibleStates horizon bands = .ok () ↔ ∃ l, bands = .arr l ∧ Sound repr eligibleStates horizon l := by
  cases bands with
  | arr l =>
    rw [readHorizon]
    by_cases hall : ∀ band ∈ l, Admitted repr horizon eligibleStates band
    · have hrows := (@readBands_ok F _ repr horizon eligibleStates l _).mpr ⟨hall, rfl⟩
      have hchronology : (l.map (row repr)).map (·.1) = ((l.map (row repr)).map (·.1)).mergeSort pairLe ↔ l.Pairwise (Before repr) := by
        rw [sorted_iff, List.pairwise_map, List.pairwise_map]
        exact List.Pairwise.iff_of_mem fun ha hb => (hall _ ha).before_iff (hall _ hb)
      have hintervals : ∀ s ∈ (l.map (row repr)).filterMap (·.2), s.1 < s.2 := by
        intro s hs
        obtain ⟨r, hr, hs⟩ := List.mem_filterMap.mp hs
        obtain ⟨band, hband, rfl⟩ := List.mem_map.mp hr
        exact (hall band hband).interval_lt hs
      have hoverlap : neighboursOverlap (((l.map (row repr)).filterMap (·.2)).mergeSort pairLe) = false ↔ l.Pairwise (Apart repr) := by
        rw [overlap_iff hintervals, List.filterMap_map, List.pairwise_filterMap]
        rfl
      rw [hrows]
      simp only []
      by_cases hc : (l.map (row repr)).map (·.1) = ((l.map (row repr)).map (·.1)).mergeSort pairLe
      · rw [if_neg (not_not.mpr hc)]
        cases ho : neighboursOverlap (((l.map (row repr)).filterMap (·.2)).mergeSort pairLe) with
        | false => exact ⟨fun _ => ⟨l, rfl, hall, hchronology.mp hc, hoverlap.mp ho⟩, fun _ => rfl⟩
        | true =>
          refine ⟨fun h => (nomatch h), fun ⟨m, hm, hsound⟩ => ?_⟩
          cases hm
          rw [hoverlap.mpr hsound.apart] at ho
          cases ho
      · rw [if_pos hc]
        refine ⟨fun h => (nomatch h), fun ⟨m, hm, hsound⟩ => ?_⟩
        cases hm
        exact absurd (hchronology.mpr hsound.ordered) hc
    · cases hrows : l.mapM (readBand repr horizon eligibleStates) with
      | ok rows => exact absurd (readBands_ok.mp hrows).1 hall
      | error e =>
        refine ⟨fun h => (nomatch h), fun ⟨m, hm, hsound⟩ => ?_⟩
        cases hm
        exact absurd hsound.admitted hall
  | _ =>
    refine ⟨fun h => (nomatch h), fun ⟨l, hl, _⟩ => ?_⟩
    cases hl

theorem readHorizons_ok {eligibleStates : List Text} {evaluationBands : List (Text × Value F)} :
    (evaluationBands.forM fun m => readHorizon repr eligibleStates m.1 m.2) = .ok () ↔
      ∀ m ∈ evaluationBands, ∃ l, m.2 = .arr l ∧ Sound repr eligibleStates m.1 l := by
  induction evaluationBands with
  | nil => exact ⟨fun _ => by simp, fun _ => rfl⟩
  | cons m ms ih =>
    have hcons : ((m :: ms).forM fun m => readHorizon repr eligibleStates m.1 m.2) =
        (readHorizon repr eligibleStates m.1 m.2 >>= fun _ => ms.forM fun m => readHorizon repr eligibleStates m.1 m.2) := rfl
    rw [hcons, bind_ok, List.forall_mem_cons, ← ih, ← readHorizon_ok]
    exact ⟨fun ⟨_, h, hms⟩ => ⟨h, hms⟩, fun ⟨h, hms⟩ => ⟨(), h, hms⟩⟩

/-- Nothing is wrong exactly when the bands of every horizon are as they are to be. -/
theorem bandError_none_iff (repr : Value F → Text) (evaluationBands : List (Text × Value F)) (eligibleStates : List Text) :
    bandError repr evaluationBands eligibleStates = .ok none ↔
      ∀ m ∈ evaluationBands, ∃ l, m.2 = .arr l ∧ Sound repr eligibleStates m.1 l := by
  rw [← readHorizons_ok, bandError]
  cases evaluationBands.forM fun m => readHorizon repr eligibleStates m.1 m.2 with
  | ok _ => simp
  | error e => cases e <;> simp

end Bands

end BettingHelper.Governance
