/-
  BettingHelper.Clock.Validators — the clock validators of `clock_vectors.py` and of
  `clock-vectors.ts`, on input of any types.

  Both check the types of the input, derive a mapping, and compare a stored mapping with it.
  TypeScript rounds the midpoint down by a truncating division, takes the larger half by
  hand, and folds the intervals; its integers are bigints and the doubles up to 2 ^ 53 - 1.

  Proved (`validators_agree`): on the same input, their integers such as both take for
  integers, the validators give one evaluation. An integer that is given as a double beyond
  that range Python accepts and TypeScript refuses (`validators_disagree`).
-/

import BettingHelper.Clock.Raw

namespace BettingHelper.Clock

/-! ## Numbers -/

/-- No rational is an infinity or a NaN. -/
inductive PyNumber where
  | int (n : Int)
  | float (x : Option Rat)

inductive TsNumber where
  | bigint (n : Int)
  | double (x : Option Rat)

/-- `type(x) is int` -/
def PyNumber.int? : PyNumber → Option Int
  | int n => some n
  | float _ => none

/-- `isInteger`, of a bigint or a safe integer, and its `BigInt`. -/
def TsNumber.int? : TsNumber → Option Int
  | bigint n => some n
  | double (some x) => if x.den = 1 ∧ x.num.natAbs ≤ 9007199254740991 then some x.num else none
  | double none => none

def PyNumber.value : PyNumber → Option Rat
  | int n => some n
  | float x => x

def TsNumber.value : TsNumber → Option Rat
  | bigint n => some n
  | double x => x

/-! ## Types -/

def identityFields : List String := ["clock_domain_id", "boot_id", "unit", "owner"]

def timestamps : List String := ["t1", "t2", "t3", "t4"]

def endpointFields : List String := "resolution_us" :: identityFields

def endpointOverrides : List String := timestamps.flatMap fun t => identityFields.map fun field => t ++ "_" ++ field

def countFields : List String := ["valid_sample_count", "mapping_segment_age_us", "wall_step_us"]

def rawFields : List String :=
  ["source", "target"] ++ timestamps ++ countFields ++ ["eligible_target_intervals", "proven_mapping"] ++ endpointOverrides

def guardrailFields : List String :=
  ["max_network_rtt_us", "max_base_uncertainty_us", "minimum_valid_samples", "max_mapping_segment_age_us", "wall_step_tolerance_us"]

section Types

variable {N : Type} (int? : N → Option Int)

def nonempty (v : Option (Raw N)) : Bool :=
  match textOf v with
  | some s => s ≠ ""
  | none => false

def natural (v : Option (Raw N)) : Bool :=
  match intOf int? v with
  | some n => 0 ≤ n
  | none => false

/-- A count is a natural number, the wall step any. -/
def countValid (k : String) (v : Option (Raw N)) : Bool := (intOf int? v).isSome && (k = "wall_step_us" || natural int? v)

/-- `None`, or a value the check allows. -/
def absentOr (p : Raw N → Bool) : Option (Raw N) → Bool
  | none => true
  | some v => p v

def pyEndpointValid (v : Option (Raw N)) : Bool :=
  match v with
  | some (.dict e) =>
    (e.all fun m => m.1 ∈ endpointFields) && (endpointFields.all fun k => (e.lookup k).isSome) &&
      (identityFields.all fun k => nonempty (e.lookup k)) && natural int? (e.lookup "resolution_us")
  | _ => false

/-- `_valid_input` -/
def pyValidInput (raw guardrails : Raw N) : Bool :=
  match raw, guardrails with
  | .dict l, .dict g =>
    (l.all fun m => m.1 ∈ rawFields) && (timestamps.all fun k => (intOf int? (l.lookup k)).isSome) &&
      (["source", "target"].all fun side => pyEndpointValid int? (l.lookup side)) &&
      (endpointOverrides.all fun k => absentOr (fun v => nonempty (some v)) (l.lookup k)) &&
      (guardrailFields.all fun k => natural int? (g.lookup k)) &&
      (countFields.all fun k => absentOr (fun v => countValid int? k (some v)) (l.lookup k)) &&
      absentOr (fun v => (boolOf (some v)).isSome) (l.lookup "proven_mapping") &&
      absentOr (fun v => (intervalsOf int? (some v)).isSome) (l.lookup "eligible_target_intervals")
  | _, _ => false

def tsEndpointValid (v : Option (Raw N)) : Bool :=
  match v with
  | some (.dict e) =>
    e.length = 5 && (identityFields.all fun k => nonempty (e.lookup k)) && natural int? (e.lookup "resolution_us")
  | _ => false

/-- `validInput` -/
def tsValidInput (raw guards : Raw N) : Bool :=
  match raw, guards with
  | .dict l, .dict g =>
    (l.all fun m => m.1 ∈ rawFields) && (timestamps.all fun t => (intOf int? (l.lookup t)).isSome) &&
      (["source", "target"].all fun side => tsEndpointValid int? (l.lookup side)) &&
      (l.all fun m => (m.1 ∉ endpointOverrides || nonempty (some m.2)) && (m.1 ∉ countFields || countValid int? m.1 (some m.2))) &&
      (guardrailFields.all fun k => natural int? (g.lookup k)) &&
      absentOr (fun v => (boolOf (some v)).isSome) (l.lookup "proven_mapping") &&
      absentOr (fun v => (intervalsOf int? (some v)).isSome) (l.lookup "eligible_target_intervals")
  | _, _ => false

end Types

/-! ## Derivation -/

/-- `derive_clock_mapping` -/
def pyDeriveClockMapping (raw guardrails : Raw PyNumber) : ClockEvaluation :=
  if !pyValidInput PyNumber.int? raw guardrails then result .invalidRawClockInput 0 0 0 0 0 0
  else deriveClockMapping (sampleOf PyNumber.int? raw) (limitsOf PyNumber.int? guardrails)

/-- `result` of `clock-vectors.ts`; `/` and `%` truncate. -/
def tsResult (error : ClockError) (rawLower rawUpper rtt padding lower upper : Int) : ClockEvaluation :=
  let sum := lower + upper
  let midpoint := sum.tdiv 2 - (if sum < 0 ∧ sum.tmod 2 ≠ 0 then 1 else 0)
  let left := midpoint - lower
  let right := upper - midpoint
  { accepted := error = .accept
    error := error
    rawLowerUs := rawLower
    rawUpperUs := rawUpper
    networkRttUs := rtt
    paddingUs := padding
    offsetIntervalUs := (lower, upper)
    offsetMidpointUs := midpoint
    baseUncertaintyUs := if left > right then left else right }

/-- The loop over the intervals, from the first: the highest lower end and the lowest upper end. -/
def tsOverlap : Int × Int → List (Int × Int) → Int × Int
  | best, [] => best
  | best, i :: l => tsOverlap (if i.1 > best.1 then i.1 else best.1, if i.2 < best.2 then i.2 else best.2) l

def tsInconsistent (intervals : Option (List (Int × Int))) : Bool :=
  match intervals with
  | some (first :: l) => (tsOverlap first (first :: l)).1 > (tsOverlap first (first :: l)).2
  | _ => false

/-- What the first check that fails says, from the round trip on. -/
def tsRefusal (raw : RawClockInput) (guards : ClockGuardrails) (rtt baseUncertainty : Int) : Option ClockError :=
  let endpoints := [(raw.t1, raw.source), (raw.t4, raw.source), (raw.t2, raw.target), (raw.t3, raw.target)]
  let wallStep := raw.wallStepUs.getD 0
  if rtt < 0 then some .negativeNetworkRtt
  else if [raw.t1, raw.t4].any fun t => t.clockDomainId.getD raw.source.clockDomainId ≠ raw.source.clockDomainId then
    some .sourceDomainMismatch
  else if [raw.t2, raw.t3].any fun t => t.clockDomainId.getD raw.target.clockDomainId ≠ raw.target.clockDomainId then
    some .targetDomainMismatch
  else if endpoints.any fun (t, e) => t.bootId.getD e.bootId ≠ e.bootId then some .bootMismatch
  else if endpoints.any fun (t, e) => e.unit ≠ "MICROSECOND" || t.unit.getD e.unit ≠ "MICROSECOND" then some .unitNotMicrosecond
  else if endpoints.any fun (t, e) => t.owner.getD e.owner ≠ e.owner then some .timestampOwnerMismatch
  else if rtt > guards.maxNetworkRttUs then some .maxNetworkRttExceeded
  else if baseUncertainty > guards.maxBaseUncertaintyUs then some .maxBaseUncertaintyExceeded
  else if raw.validSampleCount.getD guards.minimumValidSamples < guards.minimumValidSamples then some .minimumValidSamples
  else if raw.mappingSegmentAgeUs.getD 0 > guards.maxMappingSegmentAgeUs then some .maxMappingSegmentAge
  else if (if wallStep < 0 then -wallStep else wallStep) > guards.wallStepToleranceUs then some .wallStepTolerance
  else if tsInconsistent raw.eligibleTargetIntervals then some .inconsistentMapping
  else if raw.provenMapping = some false ∨ raw.source.owner = "CDP_BROWSER" ∧ raw.provenMapping ≠ some true then
    some .sourceAgeUnknown
  else none

/-- `deriveClockMapping`, of an input that is valid. -/
def tsDerive (raw : RawClockInput) (guards : ClockGuardrails) : ClockEvaluation :=
  if raw.t3.us < raw.t2.us then tsResult .negativeTargetOrder 0 0 0 0 0 0
  else if raw.t4.us < raw.t1.us then tsResult .negativeSourceOrder 0 0 0 0 0 0
  else
    let rawLower := raw.t3.us - raw.t4.us
    let rawUpper := raw.t2.us - raw.t1.us
    let rtt := (raw.t4.us - raw.t1.us) - (raw.t3.us - raw.t2.us)
    let padding := raw.source.resolutionUs + raw.target.resolutionUs
    let actual := tsResult .accept rawLower rawUpper rtt padding (rawLower - padding) (rawUpper + padding)
    match tsRefusal raw guards rtt actual.baseUncertaintyUs with
    | some e => reject actual e
    | none => actual

/-- `deriveClockMapping` -/
def tsDeriveClockMapping (raw guards : Raw TsNumber) : ClockEvaluation :=
  if !tsValidInput TsNumber.int? raw guards then tsResult .invalidRawClockInput 0 0 0 0 0 0
  else tsDerive (sampleOf TsNumber.int? raw) (limitsOf TsNumber.int? guards)

/-! ## Stored mappings -/

def ClockError.code : ClockError → String
  | accept => "ACCEPT"
  | invalidRawClockInput => "E_INVALID_RAW_CLOCK_INPUT"
  | negativeTargetOrder => "E_NEGATIVE_TARGET_ORDER"
  | negativeSourceOrder => "E_NEGATIVE_SOURCE_ORDER"
  | negativeNetworkRtt => "E_NEGATIVE_NETWORK_RTT"
  | sourceDomainMismatch => "E_SOURCE_DOMAIN_MISMATCH"
  | targetDomainMismatch => "E_TARGET_DOMAIN_MISMATCH"
  | bootMismatch => "E_BOOT_MISMATCH"
  | unitNotMicrosecond => "E_UNIT_NOT_MICROSECOND"
  | timestampOwnerMismatch => "E_TIMESTAMP_OWNER_MISMATCH"
  | maxNetworkRttExceeded => "E_MAX_NETWORK_RTT_EXCEEDED"
  | maxBaseUncertaintyExceeded => "E_MAX_BASE_UNCERTAINTY_EXCEEDED"
  | minimumValidSamples => "E_MINIMUM_VALID_SAMPLES"
  | maxMappingSegmentAge => "E_MAX_MAPPING_SEGMENT_AGE"
  | wallStepTolerance => "E_WALL_STEP_TOLERANCE"
  | inconsistentMapping => "E_INCONSISTENT_MAPPING"
  | sourceAgeUnknown => "SOURCE_AGE_UNKNOWN"

inductive StoredError where
  /-- `E_STORED_MAPPING_MISMATCH` -/
  | storedMappingMismatch
  /-- `E_INVERTED_OFFSET_INTERVAL` -/
  | invertedOffsetInterval
  /-- `E_MAX_NETWORK_RTT_EXCEEDED` -/
  | maxNetworkRttExceeded
  /-- `E_MAX_BASE_UNCERTAINTY_EXCEEDED` -/
  | maxBaseUncertaintyExceeded
  deriving DecidableEq, Repr

/-- What is derived, and the error it is rejected with after all. -/
structure StoredEvaluation where
  actual : ClockEvaluation
  refused : Option StoredError
  deriving DecidableEq, Repr

/-- A value a stored mapping asserts. -/
inductive Assertion where
  | flag (b : Bool)
  | code (s : String)
  | number (n : Int)
  | interval (i : Int × Int)
  deriving DecidableEq, Repr

def storedFields : List String :=
  ["accepted", "error", "raw_lower_us", "raw_upper_us", "network_rtt_us", "padding_us", "offset_interval_us", "offset_midpoint_us",
    "base_uncertainty_us", "offset_lower_us", "offset_upper_us"]

/-- What the fields of a stored mapping are to be. -/
def expected (actual : ClockEvaluation) : List (String × Assertion) :=
  [("accepted", .flag actual.accepted), ("error", .code actual.error.code), ("raw_lower_us", .number actual.rawLowerUs),
    ("raw_upper_us", .number actual.rawUpperUs), ("network_rtt_us", .number actual.networkRttUs),
    ("padding_us", .number actual.paddingUs), ("offset_interval_us", .interval actual.offsetIntervalUs),
    ("offset_midpoint_us", .number actual.offsetMidpointUs), ("base_uncertainty_us", .number actual.baseUncertaintyUs),
    ("offset_lower_us", .number actual.offsetIntervalUs.1), ("offset_upper_us", .number actual.offsetIntervalUs.2)]

section Stored

variable {N : Type} (int? : N → Option Int)

/-- The value, if it is of the type of the one expected. -/
def asserted (v : Raw N) : Assertion → Option Assertion
  | .flag _ => (boolOf (some v)).map .flag
  | .code _ => (textOf (some v)).map .code
  | .number _ => (intOf int? (some v)).map .number
  | .interval _ => (pairOf int? v).map .interval

/-- `validate_stored_mapping`, of what is derived. -/
def storedMapping (actual : ClockEvaluation) (stored : List (String × Raw N)) (limits : ClockGuardrails) : StoredEvaluation :=
  let read (k : String) (v : Raw N) : Option Assertion := ((expected actual).lookup k).bind (asserted int? v)
  let lower := (intOf int? (stored.lookup "offset_lower_us")).getD actual.offsetIntervalUs.1
  let upper := (intOf int? (stored.lookup "offset_upper_us")).getD actual.offsetIntervalUs.2
  let interval := ((stored.lookup "offset_interval_us").bind (pairOf int?)).getD (lower, upper)
  if !actual.accepted then ⟨actual, none⟩
  else if stored.isEmpty || !(stored.all fun m => m.1 ∈ storedFields) then ⟨actual, some .storedMappingMismatch⟩
  else if !(stored.all fun m => (read m.1 m.2).isSome) then ⟨actual, some .storedMappingMismatch⟩
  else if lower > upper ∨ interval.1 > interval.2 then ⟨actual, some .invertedOffsetInterval⟩
  else if (intOf int? (stored.lookup "network_rtt_us")).getD 0 > limits.maxNetworkRttUs then ⟨actual, some .maxNetworkRttExceeded⟩
  else if (intOf int? (stored.lookup "base_uncertainty_us")).getD 0 > limits.maxBaseUncertaintyUs then
    ⟨actual, some .maxBaseUncertaintyExceeded⟩
  else if !(stored.all fun m => read m.1 m.2 = (expected actual).lookup m.1) then ⟨actual, some .storedMappingMismatch⟩
  else ⟨actual, none⟩

def Assertion.number? : Assertion → Option Int
  | number n => some n
  | _ => none

def Assertion.interval? : Assertion → Option (Int × Int)
  | interval i => some i
  | _ => none

/-- `normalized`, unless a value is not of the type expected. -/
def tsNormalized (actual : ClockEvaluation) (stored : List (String × Raw N)) : Option (List (String × Assertion)) :=
  stored.mapM fun m => (((expected actual).lookup m.1).bind (asserted int? m.2)).map fun a => (m.1, a)

/-- `validateStoredMapping`, of what is derived. -/
def tsStoredMapping (actual : ClockEvaluation) (stored : List (String × Raw N)) (guards : ClockGuardrails) : StoredEvaluation :=
  if !actual.accepted then ⟨actual, none⟩
  else if stored.isEmpty || stored.any fun m => m.1 ∉ storedFields then ⟨actual, some .storedMappingMismatch⟩
  else
    match tsNormalized int? actual stored with
    | none => ⟨actual, some .storedMappingMismatch⟩
    | some normalized =>
      let number (k : String) : Option Int := (normalized.lookup k).bind (·.number?)
      let lower := (number "offset_lower_us").getD actual.offsetIntervalUs.1
      let upper := (number "offset_upper_us").getD actual.offsetIntervalUs.2
      let interval := ((normalized.lookup "offset_interval_us").bind (·.interval?)).getD (lower, upper)
      if lower > upper ∨ interval.1 > interval.2 then ⟨actual, some .invertedOffsetInterval⟩
      else if (number "network_rtt_us").getD 0 > guards.maxNetworkRttUs then ⟨actual, some .maxNetworkRttExceeded⟩
      else if (number "base_uncertainty_us").getD 0 > guards.maxBaseUncertaintyUs then
        ⟨actual, some .maxBaseUncertaintyExceeded⟩
      else if normalized.any fun m => some m.2 ≠ (expected actual).lookup m.1 then ⟨actual, some .storedMappingMismatch⟩
      else ⟨actual, none⟩

end Stored

/-- `validate_stored_mapping` -/
def pyValidateStoredMapping (stored : List (String × Raw PyNumber)) (raw guardrails : Raw PyNumber) : StoredEvaluation :=
  storedMapping PyNumber.int? (pyDeriveClockMapping raw guardrails) stored (limitsOf PyNumber.int? guardrails)

/-- `validateStoredMapping` -/
def tsValidateStoredMapping (stored : List (String × Raw TsNumber)) (raw guards : Raw TsNumber) : StoredEvaluation :=
  tsStoredMapping TsNumber.int? (tsDeriveClockMapping raw guards) stored (limitsOf TsNumber.int? guards)

/-! ## Types checked alike -/

section Alike

variable {M N : Type} {f : M → Option Int} {g : N → Option Int}

theorem nonempty_same {v : Option (Raw M)} {w : Option (Raw N)} (hs : Option.Rel (Same f g) v w) : nonempty v = nonempty w := by
  rw [nonempty, nonempty, textOf_same hs]

theorem natural_same {v : Option (Raw M)} {w : Option (Raw N)} (hs : Option.Rel (Same f g) v w) : natural f v = natural g w := by
  rw [natural, natural, intOf_same hs]

theorem absentOr_same {p : Raw M → Bool} {q : Raw N → Bool} (hpq : ∀ v w, Same f g v w → p v = q w) {v : Option (Raw M)}
    {w : Option (Raw N)} (hs : Option.Rel (Same f g) v w) : absentOr p v = absentOr q w := by
  cases hs with
  | none => rfl
  | some h => exact hpq _ _ h

/-- Five members are those five, when those five are there. -/
theorem endpoint_fields {α : Type} {e : List (String × α)} (hn : (e.map (·.1)).Nodup) (hf : ∀ k ∈ endpointFields, (e.lookup k).isSome) :
    (∀ m ∈ e, m.1 ∈ endpointFields) ↔ e.length = 5 := by
  have hsub : endpointFields ⊆ e.map (·.1) := by
    intro k hk
    obtain ⟨v, hv⟩ := Option.isSome_iff_exists.mp (hf k hk)
    exact List.mem_map_of_mem (lookup_mem hv)
  have hnodup : endpointFields.Nodup := by decide
  have hsubperm := List.subperm_of_subset hnodup hsub
  have hlen : (e.map (·.1)).length = e.length := List.length_map _
  constructor
  · intro h
    have hsup : e.map (·.1) ⊆ endpointFields := by
      intro k hk
      obtain ⟨m, hm, rfl⟩ := List.mem_map.mp hk
      exact h m hm
    have hle := (List.subperm_of_subset hn hsup).length_le
    have hge := hsubperm.length_le
    have : endpointFields.length = 5 := rfl
    omega
  · intro h m hm
    have hperm := hsubperm.perm_of_length_le (by rw [hlen, h]; exact Nat.le_refl _)
    exact hperm.mem_iff.mpr (List.mem_map_of_mem hm)

theorem endpointValid_same {v : Option (Raw M)} {w : Option (Raw N)} (hs : Option.Rel (Same f g) v w) :
    pyEndpointValid f v = tsEndpointValid g w := by
  cases hs with
  | none => rfl
  | @some v w h =>
    cases v with
    | dict e =>
      cases w with
      | dict e' =>
        have hd := same_dict h
        have hids : (identityFields.all fun k => nonempty (e.lookup k)) = identityFields.all fun k => nonempty (e'.lookup k) := by
          simp only [nonempty_same (hd.lookup _)]
        have hres := natural_same (hd.lookup "resolution_us")
        rw [pyEndpointValid, tsEndpointValid, ← hids, ← hres, ← hd.length]
        cases hi : identityFields.all fun k => nonempty (e.lookup k) with
        | false => simp only [Bool.and_false, Bool.false_and]
        | true =>
          cases hr : natural f (e.lookup "resolution_us") with
          | false => simp only [Bool.and_false]
          | true =>
            have hf : ∀ k ∈ endpointFields, (e.lookup k).isSome := by
              intro k hk
              cases hl : e.lookup k with
              | some x => rfl
              | none =>
                rcases List.mem_cons.mp hk with rfl | hk
                · rw [hl] at hr
                  cases hr
                · have := List.all_eq_true.mp hi k hk
                  rw [hl] at this
                  cases this
            have hall : (endpointFields.all fun k => (e.lookup k).isSome) = true := List.all_eq_true.mpr hf
            rw [hall, Bool.and_true, Bool.and_true, Bool.and_true, Bool.and_true, Bool.and_true, Bool.eq_iff_iff, decide_eq_true_eq,
              ← endpoint_fields hd.left hf, List.all_eq_true]
            simp only [decide_eq_true_eq]
      | _ => cases h
    | _ =>
      cases w with
      | dict e' => cases h
      | _ => rfl

/-- A check of some names, looked up or met among the members. -/
theorem all_lookup {l : List (String × Raw N)} (hn : (l.map (·.1)).Nodup) (ks : List String) (p : String → Raw N → Bool) :
    (ks.all fun k => absentOr (p k) (l.lookup k)) = l.all fun m => m.1 ∉ ks || p m.1 m.2 := by
  rw [Bool.eq_iff_iff, List.all_eq_true, List.all_eq_true]
  constructor
  · intro h m hm
    by_cases hk : m.1 ∈ ks
    · have := h m.1 hk
      rw [lookup_of_mem hn hm] at this
      simpa [hk, absentOr] using this
    · simp [hk]
  · intro h k hk
    cases hl : l.lookup k with
    | none => rfl
    | some v =>
      have := h (k, v) (lookup_mem hl)
      simpa [hk, absentOr] using this

/-- The two checks of the one loop over the members. -/
theorem members_checked {l : List (String × Raw N)} (hn : (l.map (·.1)).Nodup) :
    (l.all fun m => (m.1 ∉ endpointOverrides || nonempty (some m.2)) && (m.1 ∉ countFields || countValid g m.1 (some m.2))) =
      ((endpointOverrides.all fun k => absentOr (fun v => nonempty (some v)) (l.lookup k)) &&
        countFields.all fun k => absentOr (fun v => countValid g k (some v)) (l.lookup k)) := by
  rw [all_lookup hn endpointOverrides fun _ v => nonempty (some v), all_lookup hn countFields fun k v => countValid g k (some v)]
  rw [Bool.eq_iff_iff, Bool.and_eq_true, List.all_eq_true, List.all_eq_true, List.all_eq_true]
  simp only [Bool.and_eq_true]
  exact ⟨fun h => ⟨fun m hm => (h m hm).1, fun m hm => (h m hm).2⟩, fun h m hm => ⟨h.1 m hm, h.2 m hm⟩⟩

/-- The same input is valid to both. -/
theorem validInput_same {raw guardrails : Raw M} {raw' guards : Raw N} (hs : Same f g raw raw') (hg : Same f g guardrails guards) :
    pyValidInput f raw guardrails = tsValidInput g raw' guards := by
  cases raw with
  | dict l =>
    cases raw' with
    | dict m =>
      cases guardrails with
      | dict a =>
        cases guards with
        | dict b =>
          have hl := same_dict hs
          have ha := same_dict hg
          have hnames : (l.all fun x => x.1 ∈ rawFields) = m.all fun x => x.1 ∈ rawFields :=
            hl.all (p := fun k _ => k ∈ rawFields) (q := fun k _ => k ∈ rawFields) fun _ _ _ _ => rfl
          have hoverride : ∀ v w, Same f g v w → nonempty (some v) = nonempty (some w) := fun v w h => nonempty_same (.some h)
          have hcount : ∀ k v w, Same f g v w → countValid f k (some v) = countValid g k (some w) := by
            intro k v w h
            rw [countValid, countValid, intOf_same (.some h), natural_same (.some h)]
          have hproven : ∀ v w, Same f g v w → (boolOf (some v)).isSome = (boolOf (some w)).isSome := by
            intro v w h
            rw [boolOf_same (.some h)]
          have hintervals : ∀ v w, Same f g v w → (intervalsOf f (some v)).isSome = (intervalsOf g (some w)).isSome := by
            intro v w h
            rw [intervalsOf_same (.some h)]
          rw [pyValidInput, tsValidInput, members_checked hl.right, hnames, absentOr_same hproven (hl.lookup _),
            absentOr_same hintervals (hl.lookup _)]
          simp only [intOf_same (hl.lookup _), endpointValid_same (hl.lookup _), absentOr_same hoverride (hl.lookup _),
            absentOr_same (hcount _) (hl.lookup _), natural_same (ha.lookup _)]
          ac_rfl
        | _ => cases hg
      | _ =>
        cases guards with
        | dict b => cases hg
        | _ => rfl
    | _ => cases hs
  | _ =>
    cases raw' with
    | dict m => cases hs
    | _ => rfl

end Alike

/-! ## Numbers derived alike -/

/-- A division that truncates, corrected where the sum is odd and negative, rounds down. -/
theorem midpoint_floor (sum : Int) : sum.tdiv 2 - (if sum < 0 ∧ sum.tmod 2 ≠ 0 then 1 else 0) = sum.fdiv 2 := by
  have hsign : Int.sign 2 = 1 := rfl
  rw [Int.fdiv_eq_ediv_of_nonneg sum (by decide), Int.tdiv_eq_ediv, Int.tmod_eq_emod, hsign]
  by_cases hneg : sum < 0
  · split <;> split <;> omega
  · split <;> split <;> omega

theorem tsResult_eq (error : ClockError) (rawLower rawUpper rtt padding lower upper : Int) :
    tsResult error rawLower rawUpper rtt padding lower upper = result error rawLower rawUpper rtt padding lower upper := by
  have hmax : ∀ a b : Int, (if a > b then a else b) = max a b := by omega
  rw [tsResult, result]
  simp only [midpoint_floor, hmax]

theorem tsOverlap_eq (best : Int × Int) (l : List (Int × Int)) :
    tsOverlap best l = (l.foldl (fun m j => max m j.1) best.1, l.foldl (fun m j => min m j.2) best.2) := by
  induction l generalizing best with
  | nil => rfl
  | cons i l ih =>
    have hmax : (if i.1 > best.1 then i.1 else best.1) = max best.1 i.1 := by omega
    have hmin : (if i.2 < best.2 then i.2 else best.2) = min best.2 i.2 := by omega
    rw [tsOverlap, ih, hmax, hmin, List.foldl_cons, List.foldl_cons]

theorem tsInconsistent_eq (intervals : Option (List (Int × Int))) : tsInconsistent intervals = inconsistent (intervals.getD []) := by
  match intervals with
  | none => rfl
  | some [] => rfl
  | some (i :: l) =>
    rw [tsInconsistent, tsOverlap_eq, List.foldl_cons, List.foldl_cons, Int.max_self, Int.min_self, Option.getD_some, inconsistent]

theorem tsRefusal_eq (raw : RawClockInput) (limits : ClockGuardrails) (rtt baseUncertainty : Int) :
    tsRefusal raw limits rtt baseUncertainty = refusal raw limits rtt baseUncertainty := by
  have habs : ∀ n : Int, (if n < 0 then -n else n) = n.natAbs := by omega
  rw [tsRefusal, refusal]
  simp only [habs, tsInconsistent_eq, RawClockInput.endpoints]
  rfl

/-! ## Valid input -/

section Valid

variable {N : Type} {int? : N → Option Int}

theorem nonempty_text {v : Option (Raw N)} (h : nonempty v = true) : (textOf v).getD "" ≠ "" := by
  rw [nonempty] at h
  cases ht : textOf v with
  | none =>
    rw [ht] at h
    cases h
  | some s =>
    rw [ht] at h
    exact of_decide_eq_true h

theorem natural_int {v : Option (Raw N)} (h : natural int? v = true) : 0 ≤ (intOf int? v).getD 0 := by
  rw [natural] at h
  cases hn : intOf int? v with
  | none =>
    rw [hn] at h
    cases h
  | some n =>
    rw [hn] at h
    exact of_decide_eq_true h

theorem endpoint_valid {v : Option (Raw N)} (h : pyEndpointValid int? v = true) :
    (endpointOf int? (v.getD .null)).valid = true := by
  match v, h with
  | some (.dict e), h =>
    rw [pyEndpointValid, Bool.and_eq_true, Bool.and_eq_true] at h
    have hid := List.all_eq_true.mp h.1.2
    have hne : ∀ k ∈ identityFields, (textOf ((Raw.dict e).get k)).getD "" ≠ "" := fun k hk => nonempty_text (hid k hk)
    have hres : 0 ≤ (intOf int? ((Raw.dict e).get "resolution_us")).getD 0 := natural_int h.2
    simp only [ClockEndpoint.valid, endpointOf, Option.getD_some, Bool.and_eq_true]
    refine ⟨⟨⟨⟨decide_eq_true (hne _ ?_), decide_eq_true (hne _ ?_)⟩, decide_eq_true (hne _ ?_)⟩, decide_eq_true (hne _ ?_)⟩,
      decide_eq_true hres⟩
    all_goals decide

theorem override_text {v : Option (Raw N)} (h : absentOr (fun v => nonempty (some v)) v = true) : textOf v ≠ some "" := by
  cases v with
  | none => simp [textOf]
  | some v =>
    intro ht
    have := nonempty_text h
    rw [ht] at this
    exact this rfl

theorem count_natural {k : String} {v : Option (Raw N)} (hk : k ≠ "wall_step_us")
    (h : absentOr (fun v => countValid int? k (some v)) v = true) : 0 ≤ (intOf int? v).getD 0 := by
  cases v with
  | none => exact Int.le_refl 0
  | some v =>
    have h : countValid int? k (some v) = true := h
    rw [countValid, Bool.and_eq_true, Bool.or_eq_true] at h
    rcases h.2 with h | h
    · exact absurd (of_decide_eq_true h) hk
    · exact natural_int h

theorem intervals_some {v : Option (Raw N)} : intervalsOf int? v ≠ some [] := by
  intro h
  match v, h with
  | some (.list (v :: l)), h =>
    rw [intervalsOf, List.mapM_cons] at h
    cases hp : pairOf int? v with
    | none =>
      rw [hp] at h
      cases h
    | some p =>
      rw [hp] at h
      cases hl : l.mapM (pairOf int?) with
      | none =>
        rw [hl] at h
        cases h
      | some ps =>
        rw [hl] at h
        cases h

/-- What is read of a valid input is valid. -/
theorem sample_valid {raw guardrails : Raw N} (h : pyValidInput int? raw guardrails = true) :
    validInput (sampleOf int? raw) (limitsOf int? guardrails) = true := by
  match raw, guardrails, h with
  | .dict l, .dict g, h =>
    simp only [pyValidInput, Bool.and_eq_true] at h
    obtain ⟨⟨⟨⟨⟨⟨⟨-, -⟩, hsides⟩, hover⟩, hlimits⟩, hcounts⟩, -⟩, -⟩ := h
    have hside : ∀ k ∈ ["source", "target"], (endpointOf int? (((Raw.dict l).get k).getD .null)).valid = true :=
      fun k hk => endpoint_valid (List.all_eq_true.mp hsides k hk)
    have hname : ∀ t ∈ timestamps, ∀ field ∈ ["_clock_domain_id", "_boot_id", "_unit", "_owner"], t ++ field ∈ endpointOverrides := by
      decide
    have hstamp : ∀ t ∈ timestamps, (timestampOf int? (.dict l) t).valid = true := by
      intro t ht
      have hne : ∀ field ∈ ["_clock_domain_id", "_boot_id", "_unit", "_owner"], textOf ((Raw.dict l).get (t ++ field)) ≠ some "" :=
        fun field hf => override_text (List.all_eq_true.mp hover _ (hname t ht field hf))
      simp only [Timestamp.valid, timestampOf, Bool.and_eq_true]
      refine ⟨⟨⟨decide_eq_true (hne _ ?_), decide_eq_true (hne _ ?_)⟩, decide_eq_true (hne _ ?_)⟩, decide_eq_true (hne _ ?_)⟩
      all_goals decide
    have hlimit : ∀ k ∈ guardrailFields, 0 ≤ (intOf int? ((Raw.dict g).get k)).getD 0 :=
      fun k hk => natural_int (List.all_eq_true.mp hlimits k hk)
    have hcount : ∀ k ∈ countFields, k ≠ "wall_step_us" → 0 ≤ (intOf int? ((Raw.dict l).get k)).getD 0 :=
      fun k hk hne => count_natural hne (List.all_eq_true.mp hcounts k hk)
    simp only [validInput, sampleOf, limitsOf, Bool.and_eq_true]
    refine ⟨⟨⟨⟨⟨⟨⟨⟨⟨⟨⟨⟨⟨hside _ ?_, hside _ ?_⟩, hstamp _ ?_⟩, hstamp _ ?_⟩, hstamp _ ?_⟩, hstamp _ ?_⟩, decide_eq_true (hlimit _ ?_)⟩,
      decide_eq_true (hlimit _ ?_)⟩, decide_eq_true (hlimit _ ?_)⟩, decide_eq_true (hlimit _ ?_)⟩, decide_eq_true (hlimit _ ?_)⟩,
      decide_eq_true (hcount _ ?_ ?_)⟩, decide_eq_true (hcount _ ?_ ?_)⟩, decide_eq_true intervals_some⟩
    all_goals decide

end Valid

/-! ## Stored mappings checked alike -/

section StoredAlike

variable {M N : Type} {f : M → Option Int} {g : N → Option Int}

theorem asserted_same {v : Raw M} {w : Raw N} (hs : Same f g v w) (a : Assertion) : asserted f v a = asserted g w a := by
  cases a with
  | flag b => rw [asserted, asserted, boolOf_same (.some hs)]
  | code s => rw [asserted, asserted, textOf_same (.some hs)]
  | number n => rw [asserted, asserted, intOf_same (.some hs)]
  | interval i => rw [asserted, asserted, pairOf_same hs]

theorem storedMapping_same (actual : ClockEvaluation) {stored : List (String × Raw M)} {stored' : List (String × Raw N)}
    (hs : SameDict f g stored stored') (limits : ClockGuardrails) :
    storedMapping f actual stored limits = storedMapping g actual stored' limits := by
  have hread : ∀ k v w, Same f g v w → ((expected actual).lookup k).bind (asserted f v) = ((expected actual).lookup k).bind (asserted g w) := by
    intro k v w h
    cases (expected actual).lookup k with
    | none => rfl
    | some a => exact asserted_same h a
  have hempty : stored.isEmpty = stored'.isEmpty := by
    rw [Bool.eq_iff_iff, List.isEmpty_iff_length_eq_zero, List.isEmpty_iff_length_eq_zero, hs.length]
  have hpair : (stored.lookup "offset_interval_us").bind (pairOf f) = (stored'.lookup "offset_interval_us").bind (pairOf g) := by
    have hrel := hs.lookup "offset_interval_us"
    generalize stored.lookup "offset_interval_us" = v at hrel ⊢
    generalize stored'.lookup "offset_interval_us" = w at hrel ⊢
    cases hrel with
    | none => rfl
    | some h => exact pairOf_same h
  have hfields : (stored.all fun m => m.1 ∈ storedFields) = stored'.all fun m => m.1 ∈ storedFields :=
    hs.all (p := fun k _ => k ∈ storedFields) (q := fun k _ => k ∈ storedFields) fun _ _ _ _ => rfl
  have htypes := hs.all (p := fun k v => (((expected actual).lookup k).bind (asserted f v)).isSome)
    (q := fun k w => (((expected actual).lookup k).bind (asserted g w)).isSome) fun k v w h => congrArg Option.isSome (hread k v w h)
  have hvalues := hs.all (p := fun k v => ((expected actual).lookup k).bind (asserted f v) = (expected actual).lookup k)
    (q := fun k w => ((expected actual).lookup k).bind (asserted g w) = (expected actual).lookup k)
    fun k v w h => by rw [hread k v w h]
  simp only [storedMapping, intOf_same (hs.lookup _), hempty, hpair, hfields, htypes, hvalues]

/-- What is normalized is what is asserted, under the same names. -/
theorem normalized_some {read : String → Raw N → Option Assertion} {stored : List (String × Raw N)} {normalized : List (String × Assertion)}
    (hn : (stored.mapM fun m => (read m.1 m.2).map fun a => (m.1, a)) = some normalized) :
    (stored.all fun m => (read m.1 m.2).isSome) = true ∧ (∀ k, normalized.lookup k = (stored.lookup k).bind (read k)) ∧
      ∀ want : String → Option Assertion,
        (normalized.any fun m => some m.2 ≠ want m.1) = !(stored.all fun m => read m.1 m.2 = want m.1) := by
  induction stored generalizing normalized with
  | nil =>
    cases hn
    exact ⟨rfl, fun _ => rfl, fun _ => rfl⟩
  | cons m l ih =>
    obtain ⟨k, v⟩ := m
    rw [List.mapM_cons] at hn
    cases hr : read k v with
    | none =>
      rw [hr] at hn
      cases hn
    | some a =>
      rw [hr] at hn
      cases hl : l.mapM fun m => (read m.1 m.2).map fun a => (m.1, a) with
      | none =>
        rw [hl] at hn
        cases hn
      | some rest =>
        rw [hl] at hn
        cases hn
        obtain ⟨hall, hlook, hany⟩ := ih hl
        refine ⟨?_, fun k' => ?_, fun want => ?_⟩
        · rw [List.all_cons, hr, hall]
          rfl
        · rw [List.lookup_cons, List.lookup_cons]
          cases hk : k' == k with
          | true =>
            have hk : k' = k := by simpa using hk
            rw [hk]
            exact hr.symm
          | false => exact hlook k'
        · rw [List.any_cons, List.all_cons, hany want, hr]
          simp [Bool.not_and]

theorem normalized_none {read : String → Raw N → Option Assertion} {stored : List (String × Raw N)}
    (hn : (stored.mapM fun m => (read m.1 m.2).map fun a => (m.1, a)) = none) : (stored.all fun m => (read m.1 m.2).isSome) = false := by
  induction stored with
  | nil => cases hn
  | cons m l ih =>
    obtain ⟨k, v⟩ := m
    rw [List.mapM_cons] at hn
    cases hr : read k v with
    | none =>
      rw [List.all_cons, hr]
      rfl
    | some a =>
      rw [hr] at hn
      cases hl : l.mapM fun m => (read m.1 m.2).map fun a => (m.1, a) with
      | none => rw [List.all_cons, ih hl, Bool.and_false]
      | some rest =>
        rw [hl] at hn
        cases hn

theorem tsStoredMapping_eq (actual : ClockEvaluation) (stored : List (String × Raw N)) (limits : ClockGuardrails) :
    tsStoredMapping g actual stored limits = storedMapping g actual stored limits := by
  have hfields : (stored.any fun m => m.1 ∉ storedFields) = !(stored.all fun m => m.1 ∈ storedFields) := by
    rw [List.not_all_eq_any_not]
    simp only [decide_not]
  rw [tsStoredMapping, storedMapping, hfields, tsNormalized]
  cases hn : stored.mapM fun m => (((expected actual).lookup m.1).bind (asserted g m.2)).map fun a => (m.1, a) with
  | none =>
    have htypes := @normalized_none _ (fun k v => ((expected actual).lookup k).bind (asserted g v)) _ hn
    simp only [htypes, Bool.not_false, if_true]
  | some normalized =>
    obtain ⟨htypes, hlook, hany⟩ := @normalized_some _ (fun k v => ((expected actual).lookup k).bind (asserted g v)) _ _ hn
    have hnumber : ∀ k n, (expected actual).lookup k = some (.number n) →
        (normalized.lookup k).bind (·.number?) = intOf g (stored.lookup k) := by
      intro k n hk
      rw [hlook k, hk]
      cases stored.lookup k with
      | none => rfl
      | some v =>
        show ((intOf g (some v)).map Assertion.number).bind (·.number?) = intOf g (some v)
        cases intOf g (some v) <;> rfl
    have hinterval : (normalized.lookup "offset_interval_us").bind (·.interval?) = (stored.lookup "offset_interval_us").bind (pairOf g) := by
      rw [hlook]
      cases stored.lookup "offset_interval_us" with
      | none => rfl
      | some v =>
        show ((pairOf g v).map Assertion.interval).bind (·.interval?) = pairOf g v
        cases pairOf g v <;> rfl
    have hvalues := hany fun k => (expected actual).lookup k
    simp only [htypes, hinterval, hvalues, hnumber "offset_lower_us" _ rfl, hnumber "offset_upper_us" _ rfl,
      hnumber "network_rtt_us" _ rfl, hnumber "base_uncertainty_us" _ rfl, Bool.not_true, Bool.false_eq_true, if_false]

end StoredAlike

theorem tsDerive_eq {raw : RawClockInput} {limits : ClockGuardrails} (h : validInput raw limits = true) :
    tsDerive raw limits = deriveClockMapping raw limits := by
  simp only [tsDerive, deriveClockMapping, h, not_true, if_false, tsResult_eq, tsRefusal_eq] <;> rfl

theorem derive_same {raw guardrails : Raw PyNumber} {raw' guards : Raw TsNumber} (hs : Same PyNumber.int? TsNumber.int? raw raw')
    (hg : Same PyNumber.int? TsNumber.int? guardrails guards) :
    pyDeriveClockMapping raw guardrails = tsDeriveClockMapping raw' guards := by
  rw [pyDeriveClockMapping, tsDeriveClockMapping, ← validInput_same hs hg, ← sampleOf_same hs, ← limitsOf_same hg, tsResult_eq]
  cases hv : pyValidInput PyNumber.int? raw guardrails with
  | false => rfl
  | true => exact (tsDerive_eq (sample_valid hv)).symm

/-- On the same input, its integers such as both take for integers, both validators derive the
same evaluation, and a stored mapping is accepted by both or refused by both with one error. -/
theorem validators_agree {raw guardrails : Raw PyNumber} {raw' guards : Raw TsNumber} {stored : List (String × Raw PyNumber)}
    {stored' : List (String × Raw TsNumber)} (hs : Same PyNumber.int? TsNumber.int? raw raw')
    (hg : Same PyNumber.int? TsNumber.int? guardrails guards) (hm : SameDict PyNumber.int? TsNumber.int? stored stored') :
    pyDeriveClockMapping raw guardrails = tsDeriveClockMapping raw' guards ∧
      pyValidateStoredMapping stored raw guardrails = tsValidateStoredMapping stored' raw' guards := by
  have hderive := derive_same hs hg
  refine ⟨hderive, ?_⟩
  rw [pyValidateStoredMapping, tsValidateStoredMapping, tsStoredMapping_eq, ← hderive, ← limitsOf_same hg]
  exact storedMapping_same _ hm _

/-- A sample that reads `t` off every clock. -/
def stillSample {N : Type} (t zero : N) : Raw N :=
  let endpoint (owner : String) : Raw N :=
    .dict [("clock_domain_id", .text owner), ("boot_id", .text "boot"), ("owner", .text owner), ("unit", .text "MICROSECOND"),
      ("resolution_us", .number zero)]
  .dict [("source", endpoint "source"), ("target", endpoint "target"), ("t1", .number t), ("t2", .number t), ("t3", .number t),
    ("t4", .number t)]

def stillLimits {N : Type} (zero : N) : Raw N := .dict (guardrailFields.map fun k => (k, .number zero))

theorem still_same {M N α : Type} {f : M → α} {g : N → α} {t zero : M} {t' zero' : N} (ht : f t = g t') (hz : f zero = g zero') :
    Same f g (stillSample t zero) (stillSample t' zero') ∧ Same f g (stillLimits zero) (stillLimits zero') := by
  have htext : ∀ s, Same f g (.text s) (.text s) := fun _ => rfl
  have hendpoint : ∀ owner : String, Same f g
      (.dict [("clock_domain_id", .text owner), ("boot_id", .text "boot"), ("owner", .text owner), ("unit", .text "MICROSECOND"),
        ("resolution_us", .number zero)])
      (.dict [("clock_domain_id", .text owner), ("boot_id", .text "boot"), ("owner", .text owner), ("unit", .text "MICROSECOND"),
        ("resolution_us", .number zero')]) := by
    intro owner
    exact .dict (by simp only [List.map]; decide) (.cons ⟨rfl, htext _⟩ (.cons ⟨rfl, htext _⟩ (.cons ⟨rfl, htext _⟩ (.cons ⟨rfl, htext _⟩ (.cons ⟨rfl, hz⟩ .nil)))))
  constructor
  · refine .dict (by simp only [List.map]; decide) (.cons ⟨rfl, hendpoint _⟩ (.cons ⟨rfl, hendpoint _⟩ ?_))
    exact .cons ⟨rfl, ht⟩ (.cons ⟨rfl, ht⟩ (.cons ⟨rfl, ht⟩ (.cons ⟨rfl, ht⟩ .nil)))
  · refine .dict (by simp only [guardrailFields, List.map]; decide) ?_
    exact .cons ⟨rfl, hz⟩ (.cons ⟨rfl, hz⟩ (.cons ⟨rfl, hz⟩ (.cons ⟨rfl, hz⟩ (.cons ⟨rfl, hz⟩ .nil))))

/-- A clock read as a bigint and its midpoint stored as a number. -/
theorem validators_agree_still :
    pyDeriveClockMapping (stillSample (.int 7) (.int 0)) (stillLimits (.int 0)) =
        tsDeriveClockMapping (stillSample (.bigint 7) (.double (some 0))) (stillLimits (.double (some 0))) ∧
      pyValidateStoredMapping [("offset_midpoint_us", .number (.int 0))] (stillSample (.int 7) (.int 0)) (stillLimits (.int 0)) =
        tsValidateStoredMapping [("offset_midpoint_us", .number (.double (some 0)))]
          (stillSample (.bigint 7) (.double (some 0))) (stillLimits (.double (some 0))) := by
  have hs := @still_same _ _ _ PyNumber.int? TsNumber.int? (.int 7) (.int 0) (.bigint 7) (.double (some 0)) rfl (by decide)
  have hm : Same PyNumber.int? TsNumber.int? (.dict [("offset_midpoint_us", .number (.int 0))])
      (.dict [("offset_midpoint_us", .number (.double (some 0)))]) := by
    have hone : PyNumber.int? (.int 0) = TsNumber.int? (.double (some 0)) := by decide
    exact .dict (by decide) (.cons ⟨rfl, hone⟩ .nil)
  exact validators_agree hs.1 hs.2 (same_dict hm)

/-- A clock past the safe integers, given as a double: Python accepts the sample and TypeScript refuses it. -/
theorem validators_disagree :
    Same PyNumber.value TsNumber.value (stillSample (.int 9007199254740992) (.int 0))
        (stillSample (.double (some 9007199254740992)) (.double (some 0))) ∧
      Same PyNumber.value TsNumber.value (stillLimits (.int 0)) (stillLimits (.double (some 0))) ∧
      (pyDeriveClockMapping (stillSample (.int 9007199254740992) (.int 0)) (stillLimits (.int 0))).error = .accept ∧
      (tsDeriveClockMapping (stillSample (.double (some 9007199254740992)) (.double (some 0)))
        (stillLimits (.double (some 0)))).error = .invalidRawClockInput := by
  have hs := @still_same _ _ _ PyNumber.value TsNumber.value (.int 9007199254740992) (.int 0) (.double (some 9007199254740992))
    (.double (some 0)) (by decide) (by decide)
  exact ⟨hs.1, hs.2, by decide +kernel, by decide +kernel⟩

end BettingHelper.Clock
