/-
  BettingHelper.Clock.Mapping — the clock arithmetic of `clock_vectors` and the CHECKs of
  the clock_mappings table.

  A sample is four timestamps of a round trip (t1 and t4 by the source's clock, t2 and t3
  by the target's). Python checks the types of the members first; an input they reject is
  refused with `E_INVALID_RAW_CLOCK_INPUT`, and only the others are modelled, absent members
  as `none`.

  The offset interval has the width `rtt + 2 * padding`. Its midpoint is rounded down and
  its uncertainty is the larger half: the store wants them exact, so what is derived is
  stored exactly when the round trip is even (`derived_storable_iff`).
-/

import Mathlib

namespace BettingHelper.Clock

def int64Max : Int := 9223372036854775807
def int64Min : Int := -9223372036854775808

structure ClockEndpoint where
  clockDomainId : String
  bootId : String
  owner : String
  unit : String
  resolutionUs : Int
  deriving DecidableEq, Repr

/-- `t1` with `t1_clock_domain_id`, `t1_boot_id`, `t1_owner` and `t1_unit`, and so on. -/
structure Timestamp where
  us : Int
  clockDomainId : Option String
  bootId : Option String
  owner : Option String
  unit : Option String
  deriving DecidableEq, Repr

structure RawClockInput where
  source : ClockEndpoint
  target : ClockEndpoint
  t1 : Timestamp
  t2 : Timestamp
  t3 : Timestamp
  t4 : Timestamp
  validSampleCount : Option Int
  mappingSegmentAgeUs : Option Int
  wallStepUs : Option Int
  eligibleTargetIntervals : Option (List (Int × Int))
  provenMapping : Option Bool
  deriving DecidableEq, Repr

structure ClockGuardrails where
  maxNetworkRttUs : Int
  maxBaseUncertaintyUs : Int
  minimumValidSamples : Int
  maxMappingSegmentAgeUs : Int
  wallStepToleranceUs : Int
  deriving DecidableEq, Repr

inductive ClockError where
  /-- `ACCEPT` -/
  | accept
  /-- `E_INVALID_RAW_CLOCK_INPUT` -/
  | invalidRawClockInput
  /-- `E_NEGATIVE_TARGET_ORDER` -/
  | negativeTargetOrder
  /-- `E_NEGATIVE_SOURCE_ORDER` -/
  | negativeSourceOrder
  /-- `E_NEGATIVE_NETWORK_RTT` -/
  | negativeNetworkRtt
  /-- `E_SOURCE_DOMAIN_MISMATCH` -/
  | sourceDomainMismatch
  /-- `E_TARGET_DOMAIN_MISMATCH` -/
  | targetDomainMismatch
  /-- `E_BOOT_MISMATCH` -/
  | bootMismatch
  /-- `E_UNIT_NOT_MICROSECOND` -/
  | unitNotMicrosecond
  /-- `E_TIMESTAMP_OWNER_MISMATCH` -/
  | timestampOwnerMismatch
  /-- `E_MAX_NETWORK_RTT_EXCEEDED` -/
  | maxNetworkRttExceeded
  /-- `E_MAX_BASE_UNCERTAINTY_EXCEEDED` -/
  | maxBaseUncertaintyExceeded
  /-- `E_MINIMUM_VALID_SAMPLES` -/
  | minimumValidSamples
  /-- `E_MAX_MAPPING_SEGMENT_AGE` -/
  | maxMappingSegmentAge
  /-- `E_WALL_STEP_TOLERANCE` -/
  | wallStepTolerance
  /-- `E_INCONSISTENT_MAPPING` -/
  | inconsistentMapping
  /-- `SOURCE_AGE_UNKNOWN` -/
  | sourceAgeUnknown
  deriving DecidableEq, Repr

structure ClockEvaluation where
  accepted : Bool
  error : ClockError
  rawLowerUs : Int
  rawUpperUs : Int
  networkRttUs : Int
  paddingUs : Int
  offsetIntervalUs : Int × Int
  offsetMidpointUs : Int
  baseUncertaintyUs : Int
  deriving DecidableEq, Repr

/-- `_result`; `//` rounds down. -/
def result (error : ClockError) (rawLower rawUpper rtt padding lower upper : Int) : ClockEvaluation :=
  let midpoint := (lower + upper).fdiv 2
  { accepted := error = .accept
    error := error
    rawLowerUs := rawLower
    rawUpperUs := rawUpper
    networkRttUs := rtt
    paddingUs := padding
    offsetIntervalUs := (lower, upper)
    offsetMidpointUs := midpoint
    baseUncertaintyUs := max (midpoint - lower) (upper - midpoint) }

def reject (actual : ClockEvaluation) (error : ClockError) : ClockEvaluation :=
  { actual with accepted := false, error := error }

def ClockEndpoint.valid (e : ClockEndpoint) : Bool :=
  e.clockDomainId ≠ "" && e.bootId ≠ "" && e.unit ≠ "" && e.owner ≠ "" && 0 ≤ e.resolutionUs

def Timestamp.valid (t : Timestamp) : Bool :=
  t.clockDomainId ≠ some "" && t.bootId ≠ some "" && t.unit ≠ some "" && t.owner ≠ some ""

/-- `_valid_input`, of members of the right types. -/
def validInput (raw : RawClockInput) (guardrails : ClockGuardrails) : Bool :=
  raw.source.valid && raw.target.valid &&
  raw.t1.valid && raw.t2.valid && raw.t3.valid && raw.t4.valid &&
  0 ≤ guardrails.maxNetworkRttUs && 0 ≤ guardrails.maxBaseUncertaintyUs && 0 ≤ guardrails.minimumValidSamples &&
  0 ≤ guardrails.maxMappingSegmentAgeUs && 0 ≤ guardrails.wallStepToleranceUs &&
  0 ≤ raw.validSampleCount.getD 0 && 0 ≤ raw.mappingSegmentAgeUs.getD 0 &&
  raw.eligibleTargetIntervals ≠ some []

/-- The timestamps that are to carry one endpoint's identity. -/
def RawClockInput.endpoints (raw : RawClockInput) : List (Timestamp × ClockEndpoint) :=
  [(raw.t1, raw.source), (raw.t4, raw.source), (raw.t2, raw.target), (raw.t3, raw.target)]

/-- No target time is in all the intervals. -/
def inconsistent : List (Int × Int) → Bool
  | [] => false
  | i :: is => is.foldl (fun m j => min m j.2) i.2 < is.foldl (fun m j => max m j.1) i.1

/-- The checks on a sample in order, from the round trip on: what the first that fails says. -/
def refusal (raw : RawClockInput) (limits : ClockGuardrails) (rtt baseUncertainty : Int) : Option ClockError :=
  if rtt < 0 then some .negativeNetworkRtt
  else if [raw.t1, raw.t4].any fun t => t.clockDomainId.getD raw.source.clockDomainId ≠ raw.source.clockDomainId then
    some .sourceDomainMismatch
  else if [raw.t2, raw.t3].any fun t => t.clockDomainId.getD raw.target.clockDomainId ≠ raw.target.clockDomainId then
    some .targetDomainMismatch
  else if raw.endpoints.any fun (t, e) => t.bootId.getD e.bootId ≠ e.bootId then some .bootMismatch
  else if raw.endpoints.any fun (t, e) => e.unit ≠ "MICROSECOND" || t.unit.getD e.unit ≠ "MICROSECOND" then
    some .unitNotMicrosecond
  else if raw.endpoints.any fun (t, e) => t.owner.getD e.owner ≠ e.owner then some .timestampOwnerMismatch
  else if rtt > limits.maxNetworkRttUs then some .maxNetworkRttExceeded
  else if baseUncertainty > limits.maxBaseUncertaintyUs then some .maxBaseUncertaintyExceeded
  else if raw.validSampleCount.getD limits.minimumValidSamples < limits.minimumValidSamples then
    some .minimumValidSamples
  else if raw.mappingSegmentAgeUs.getD 0 > limits.maxMappingSegmentAgeUs then some .maxMappingSegmentAge
  else if (raw.wallStepUs.getD 0).natAbs > limits.wallStepToleranceUs then some .wallStepTolerance
  else if inconsistent (raw.eligibleTargetIntervals.getD []) then some .inconsistentMapping
  else if raw.provenMapping = some false ∨ raw.source.owner = "CDP_BROWSER" ∧ raw.provenMapping ≠ some true then
    some .sourceAgeUnknown
  else none

def deriveClockMapping (raw : RawClockInput) (limits : ClockGuardrails) : ClockEvaluation :=
  if ¬validInput raw limits then result .invalidRawClockInput 0 0 0 0 0 0
  else if raw.t3.us < raw.t2.us then result .negativeTargetOrder 0 0 0 0 0 0
  else if raw.t4.us < raw.t1.us then result .negativeSourceOrder 0 0 0 0 0 0
  else
    let rawLower := raw.t3.us - raw.t4.us
    let rawUpper := raw.t2.us - raw.t1.us
    let rtt := (raw.t4.us - raw.t1.us) - (raw.t3.us - raw.t2.us)
    let padding := raw.source.resolutionUs + raw.target.resolutionUs
    let actual := result .accept rawLower rawUpper rtt padding (rawLower - padding) (rawUpper + padding)
    match refusal raw limits rtt actual.baseUncertaintyUs with
    | some e => reject actual e
    | none => actual

/-! ## Storing a mapping -/

/-- The four numbers `validate_midpoint` and the table look at. -/
structure Offsets where
  offsetLowerUs : Int
  offsetUpperUs : Int
  baseUncertaintyUs : Int
  offsetMidpointUs : Int
  deriving DecidableEq, Repr

inductive MidpointError where
  /-- `REJECT_OVERFLOW_GUARD` -/
  | rejectOverflowGuard
  /-- `REJECT_CHECK_CONSTRAINT` -/
  | rejectCheckConstraint
  /-- `ACCEPT_OVERFLOW_SAFE` -/
  | acceptOverflowSafe
  /-- `ACCEPT` -/
  | accept
  deriving DecidableEq, Repr

/-- `validate_midpoint` of four ints: whether it accepts, and what it says. -/
def validateMidpoint (v : Offsets) : Bool × MidpointError :=
  if [v.offsetLowerUs, v.offsetUpperUs, v.offsetMidpointUs].any fun n => n < int64Min || n > int64Max then
    (false, .rejectOverflowGuard)
  else if v.baseUncertaintyUs < 0 ∨ v.baseUncertaintyUs > 125000 ∨
      v.offsetLowerUs > int64Max - v.baseUncertaintyUs * 2 then
    (false, .rejectOverflowGuard)
  else if v.offsetLowerUs > v.offsetMidpointUs ∨ v.offsetMidpointUs > v.offsetUpperUs ∨
      v.offsetUpperUs ≠ v.offsetLowerUs + v.baseUncertaintyUs * 2 ∨
      v.offsetMidpointUs ≠ v.offsetLowerUs + v.baseUncertaintyUs then
    (false, .rejectCheckConstraint)
  else (true, if v.offsetUpperUs = int64Max then .acceptOverflowSafe else .accept)

/-- The CHECKs of clock_mappings on its offset columns, of 64-bit integers. -/
structure Offsets.Checked (v : Offsets) : Prop where
  lower : int64Min ≤ v.offsetLowerUs ∧ v.offsetLowerUs ≤ int64Max
  upper : int64Min ≤ v.offsetUpperUs ∧ v.offsetUpperUs ≤ int64Max
  midpoint : int64Min ≤ v.offsetMidpointUs ∧ v.offsetMidpointUs ≤ int64Max
  uncertainty : 0 ≤ v.baseUncertaintyUs ∧ v.baseUncertaintyUs ≤ 125000
  ordered : v.offsetLowerUs ≤ v.offsetMidpointUs ∧ v.offsetMidpointUs ≤ v.offsetUpperUs
  room : v.offsetLowerUs ≤ int64Max - v.baseUncertaintyUs * 2
  width : v.offsetUpperUs = v.offsetLowerUs + v.baseUncertaintyUs * 2
  middle : v.offsetMidpointUs = v.offsetLowerUs + v.baseUncertaintyUs

def ClockEvaluation.offsets (m : ClockEvaluation) : Offsets :=
  ⟨m.offsetIntervalUs.1, m.offsetIntervalUs.2, m.baseUncertaintyUs, m.offsetMidpointUs⟩

theorem validateMidpoint_iff (v : Offsets) : (validateMidpoint v).1 ↔ v.Checked := by
  unfold validateMidpoint
  constructor
  · intro h
    split at h
    · cases h
    rename_i h64
    simp only [List.any_cons, List.any_nil, Bool.or_false, Bool.or_eq_true, decide_eq_true_eq, not_or,
      Int.not_lt] at h64
    split at h
    · cases h
    split at h
    · cases h
    constructor <;> omega
  · intro h
    obtain ⟨hl, hu, hm, hb, ho, hr, hw, hc⟩ := h
    rw [if_neg, if_neg, if_neg]
    · omega
    · omega
    · simp only [List.any_cons, List.any_nil, Bool.or_false, Bool.or_eq_true, decide_eq_true_eq]
      omega

/-! ## What is accepted -/

theorem reject_accepted (m : ClockEvaluation) (e : ClockError) : (reject m e).accepted = false := rfl

theorem ClockEndpoint.valid_resolution {e : ClockEndpoint} (h : e.valid) : 0 ≤ e.resolutionUs := by
  simp only [ClockEndpoint.valid, Bool.and_eq_true, decide_eq_true_eq] at h
  exact h.2

theorem validInput_endpoints {raw : RawClockInput} {g : ClockGuardrails} (h : validInput raw g) :
    raw.source.valid ∧ raw.target.valid := by
  simp only [validInput, Bool.and_eq_true] at h
  tauto

/-- An accepted mapping is the arithmetic of its sample, whose round trip is not negative. -/
theorem derive_accepted {raw : RawClockInput} {g : ClockGuardrails} (h : (deriveClockMapping raw g).accepted) :
    ∃ lower rtt padding : Int, 0 ≤ rtt ∧ 0 ≤ padding ∧
      deriveClockMapping raw g =
        result .accept (lower + padding) (lower + rtt + padding) rtt padding lower (lower + rtt + 2 * padding) := by
  unfold deriveClockMapping at h ⊢
  split at h
  · cases h
  rename_i hvalid
  split at h
  · cases h
  split at h
  · cases h
  rename_i h23 h14
  rw [if_neg hvalid, if_neg h23, if_neg h14]
  obtain ⟨hs, ht⟩ := validInput_endpoints (not_not.mp hvalid)
  have hs := ClockEndpoint.valid_resolution hs
  have ht := ClockEndpoint.valid_resolution ht
  dsimp only at h ⊢
  split at h
  · rw [reject_accepted] at h
    cases h
  · rename_i hnone
    have hrtt : ¬(raw.t4.us - raw.t1.us) - (raw.t3.us - raw.t2.us) < 0 := by
      intro hneg
      rw [refusal, if_pos hneg] at hnone
      cases hnone
    refine ⟨raw.t3.us - raw.t4.us - (raw.source.resolutionUs + raw.target.resolutionUs),
      (raw.t4.us - raw.t1.us) - (raw.t3.us - raw.t2.us), raw.source.resolutionUs + raw.target.resolutionUs,
      by omega, by omega, ?_⟩
    congr 1 <;> omega

theorem result_offsets {e : ClockError} {rawLower rawUpper rtt padding lower width : Int} :
    (result e rawLower rawUpper rtt padding lower (lower + width)).offsets =
      ⟨lower, lower + width, width - width.fdiv 2, lower + width.fdiv 2⟩ := by
  have hmid : (lower + (lower + width)).fdiv 2 = lower + width.fdiv 2 := by
    rw [Int.fdiv_eq_ediv_of_nonneg _ (by decide), Int.fdiv_eq_ediv_of_nonneg _ (by decide)]
    omega
  have hhalf : width.fdiv 2 = width / 2 := Int.fdiv_eq_ediv_of_nonneg _ (by decide)
  have hmax : max (lower + width.fdiv 2 - lower) (lower + width - (lower + width.fdiv 2)) = width - width.fdiv 2 := by
    omega
  simp only [ClockEvaluation.offsets, result, hmid, hmax]

/-- An accepted mapping that fits is storable when its round trip is even. When it is odd
    the floored midpoint is half a microsecond low, and the interval one short of symmetric. -/
theorem derived_storable_iff {raw : RawClockInput} {limits : ClockGuardrails}
    (hacc : (deriveClockMapping raw limits).accepted)
    (hlower : int64Min ≤ (deriveClockMapping raw limits).offsetIntervalUs.1)
    (hupper : (deriveClockMapping raw limits).offsetIntervalUs.2 ≤ int64Max)
    (hbase : (deriveClockMapping raw limits).baseUncertaintyUs ≤ 125000) :
    let m := deriveClockMapping raw limits
    ((validateMidpoint m.offsets).1 ↔ m.networkRttUs % 2 = 0) ∧
    (m.offsets.Checked ↔ m.networkRttUs % 2 = 0) ∧
    (m.networkRttUs % 2 ≠ 0 → m.offsetIntervalUs.2 = m.offsetIntervalUs.1 + 2 * m.baseUncertaintyUs - 1 ∧
      m.offsetMidpointUs = m.offsetIntervalUs.1 + m.baseUncertaintyUs - 1) := by
  intro m
  obtain ⟨lower, rtt, padding, hrtt, hpadding, hm⟩ := derive_accepted hacc
  have hoffsets : m.offsets = ⟨lower, lower + (rtt + 2 * padding), rtt + 2 * padding - (rtt + 2 * padding).fdiv 2,
      lower + (rtt + 2 * padding).fdiv 2⟩ := by
    rw [show m = _ from hm, Int.add_assoc lower rtt (2 * padding)]
    exact result_offsets
  have hnet : m.networkRttUs = rtt := by rw [show m = _ from hm]; rfl
  have hlow : m.offsetIntervalUs.1 = lower := congrArg Offsets.offsetLowerUs hoffsets
  have hup : m.offsetIntervalUs.2 = lower + (rtt + 2 * padding) := congrArg Offsets.offsetUpperUs hoffsets
  have hunc : m.baseUncertaintyUs = rtt + 2 * padding - (rtt + 2 * padding).fdiv 2 :=
    congrArg Offsets.baseUncertaintyUs hoffsets
  have hmid : m.offsetMidpointUs = lower + (rtt + 2 * padding).fdiv 2 := congrArg Offsets.offsetMidpointUs hoffsets
  have hhalf : (rtt + 2 * padding).fdiv 2 = (rtt + 2 * padding) / 2 := Int.fdiv_eq_ediv_of_nonneg _ (by decide)
  have hchecked : m.offsets.Checked ↔ m.networkRttUs % 2 = 0 := by
    rw [hoffsets, hnet]
    constructor
    · intro h
      have hw : lower + (rtt + 2 * padding) = lower + (rtt + 2 * padding - (rtt + 2 * padding).fdiv 2) * 2 := h.width
      omega
    · intro heven
      have h1 : int64Min ≤ lower := hlow ▸ hlower
      have h2 : lower + (rtt + 2 * padding) ≤ int64Max := hup ▸ hupper
      have h3 : rtt + 2 * padding - (rtt + 2 * padding).fdiv 2 ≤ 125000 := hunc ▸ hbase
      constructor <;> dsimp only <;> omega
  refine ⟨(validateMidpoint_iff _).trans hchecked, hchecked, ?_⟩
  intro hodd
  rw [hup, hlow, hunc, hmid]
  omega

/-! ## Two samples -/

def smallGuardrails : ClockGuardrails := ⟨250000, 125000, 8, 30000000, 1000000⟩

/-- A round trip of 400 + d microseconds. -/
def smallSample (d : Int) : RawClockInput where
  source := ⟨"source", "source-boot", "EXTENSION", "MICROSECOND", 10⟩
  target := ⟨"target", "target-boot", "BACKEND", "MICROSECOND", 20⟩
  t1 := ⟨1000000, none, none, none, none⟩
  t2 := ⟨1005200, none, none, none, none⟩
  t3 := ⟨1005300, none, none, none, none⟩
  t4 := ⟨1000500 + d, none, none, none, none⟩
  validSampleCount := none
  mappingSegmentAgeUs := none
  wallStepUs := none
  eligibleTargetIntervals := none
  provenMapping := none

theorem derived_storable_even :
    (deriveClockMapping (smallSample 0) smallGuardrails).offsets = ⟨4770, 5230, 230, 5000⟩ ∧
    (validateMidpoint (deriveClockMapping (smallSample 0) smallGuardrails).offsets).1 := by
  refine ⟨by decide, ?_⟩
  have h := @derived_storable_iff (smallSample 0) smallGuardrails (by decide) (by decide)
    (by decide) (by decide)
  exact h.1.mpr (by decide)

/-- One microsecond more, and the mapping is accepted but not storable. -/
theorem derived_not_storable :
    (deriveClockMapping (smallSample 1) smallGuardrails).accepted ∧
    (deriveClockMapping (smallSample 1) smallGuardrails).offsets = ⟨4769, 5230, 231, 4999⟩ ∧
    ¬(validateMidpoint (deriveClockMapping (smallSample 1) smallGuardrails).offsets).1 := by
  decide

end BettingHelper.Clock
