/-
  BettingHelper.Clock.Soundness — what an accepted mapping says of the clocks it was
  measured on.

  During one ping and pong the target's true clock is the source's with a constant added.
  Each reading is off the true value by its clock's resolution at most. Then the interval
  `derive_clock_mapping` accepts holds that constant (`derived_sound`).
-/

import Mathlib
import BettingHelper.Clock.Mapping

namespace BettingHelper.Clock

/-- One ping and pong as it was, with the readings of the sample: sent at the first instant
    and received at the last by the source, received and answered between by the target. -/
structure Exchange (raw : RawClockInput) where
  source : ℝ → ℝ
  target : ℝ → ℝ
  offset : ℝ
  ping : ℝ
  received : ℝ
  answered : ℝ
  pong : ℝ
  ordered : ping ≤ received ∧ received ≤ answered ∧ answered ≤ pong
  runs : MonotoneOn source (Set.Icc ping pong)
  constant : ∀ t ∈ Set.Icc ping pong, target t = source t + offset
  read1 : |(raw.t1.us : ℝ) - source ping| ≤ raw.source.resolutionUs
  read2 : |(raw.t2.us : ℝ) - target received| ≤ raw.target.resolutionUs
  read3 : |(raw.t3.us : ℝ) - target answered| ≤ raw.target.resolutionUs
  read4 : |(raw.t4.us : ℝ) - source pong| ≤ raw.source.resolutionUs

/-- The bounds an accepted mapping derives from the readings. -/
theorem derive_bounds {raw : RawClockInput} {g : ClockGuardrails} (h : (deriveClockMapping raw g).accepted) :
    (deriveClockMapping raw g).offsetIntervalUs =
      (raw.t3.us - raw.t4.us - (raw.source.resolutionUs + raw.target.resolutionUs),
        raw.t2.us - raw.t1.us + (raw.source.resolutionUs + raw.target.resolutionUs)) := by
  unfold deriveClockMapping at h ⊢
  split at h
  · cases h
  rename_i hvalid
  split at h
  · cases h
  split at h
  · cases h
  rename_i h23 h14
  rw [if_neg hvalid, if_neg h23, if_neg h14]
  dsimp only at h ⊢
  split at h
  · rw [reject_accepted] at h
    cases h
  · rfl

namespace Exchange

variable {raw : RawClockInput} (x : Exchange raw)

/-- The way back takes time: what the target reads at the answer and the source at the pong
    differ by the offset at most. -/
theorem lower_le : ((raw.t3.us - raw.t4.us - (raw.source.resolutionUs + raw.target.resolutionUs) : Int) : ℝ) ≤ x.offset := by
  obtain ⟨h12, h23, h34⟩ := x.ordered
  have hanswered : x.answered ∈ Set.Icc x.ping x.pong := ⟨h12.trans h23, h34⟩
  have hpong : x.pong ∈ Set.Icc x.ping x.pong := ⟨h12.trans (h23.trans h34), le_refl _⟩
  have hruns := x.runs hanswered hpong h34
  have hconst := x.constant x.answered hanswered
  have h3 := (abs_le.mp x.read3).2
  have h4 := (abs_le.mp x.read4).1
  push_cast
  linarith

theorem le_upper : x.offset ≤ ((raw.t2.us - raw.t1.us + (raw.source.resolutionUs + raw.target.resolutionUs) : Int) : ℝ) := by
  obtain ⟨h12, h23, h34⟩ := x.ordered
  have hping : x.ping ∈ Set.Icc x.ping x.pong := ⟨le_refl _, h12.trans (h23.trans h34)⟩
  have hreceived : x.received ∈ Set.Icc x.ping x.pong := ⟨h12, h23.trans h34⟩
  have hruns := x.runs hping hreceived h12
  have hconst := x.constant x.received hreceived
  have h2 := (abs_le.mp x.read2).1
  have h1 := (abs_le.mp x.read1).2
  push_cast
  linarith

end Exchange

/-- The midpoint of an interval is in it, and the uncertainty reaches both ends. -/
theorem result_reaches {e : ClockError} {rawLower rawUpper rtt padding lower upper : Int} (h : lower ≤ upper) :
    let m := result e rawLower rawUpper rtt padding lower upper
    lower ≤ m.offsetMidpointUs ∧ m.offsetMidpointUs ≤ upper ∧
      m.offsetMidpointUs - m.baseUncertaintyUs ≤ lower ∧ upper ≤ m.offsetMidpointUs + m.baseUncertaintyUs := by
  have hdiv : (lower + upper).fdiv 2 = (lower + upper) / 2 := Int.fdiv_eq_ediv_of_nonneg _ (by decide)
  dsimp only [result]
  rw [hdiv]
  omega

/-- An accepted interval holds the true offset and its own midpoint, and no point of it is
    further from the midpoint than the uncertainty. -/
theorem derived_sound {raw : RawClockInput} {limits : ClockGuardrails} (x : Exchange raw)
    (hacc : (deriveClockMapping raw limits).accepted) :
    let m := deriveClockMapping raw limits
    ((m.offsetIntervalUs.1 : ℝ) ≤ x.offset ∧ x.offset ≤ (m.offsetIntervalUs.2 : ℝ)) ∧
    (m.offsetIntervalUs.1 ≤ m.offsetMidpointUs ∧ m.offsetMidpointUs ≤ m.offsetIntervalUs.2) ∧
    ∀ p : ℝ, (m.offsetIntervalUs.1 : ℝ) ≤ p → p ≤ (m.offsetIntervalUs.2 : ℝ) → |p - m.offsetMidpointUs| ≤ m.baseUncertaintyUs := by
  intro m
  have hbounds : m.offsetIntervalUs = _ := derive_bounds hacc
  obtain ⟨lower, rtt, padding, hrtt, hpadding, hm⟩ := derive_accepted hacc
  obtain ⟨h1, h2, h3, h4⟩ : m.offsetIntervalUs.1 ≤ m.offsetMidpointUs ∧ m.offsetMidpointUs ≤ m.offsetIntervalUs.2 ∧
      m.offsetMidpointUs - m.baseUncertaintyUs ≤ m.offsetIntervalUs.1 ∧
      m.offsetIntervalUs.2 ≤ m.offsetMidpointUs + m.baseUncertaintyUs := by
    have hle : lower ≤ lower + rtt + 2 * padding := by omega
    rw [show m = _ from hm]
    exact result_reaches hle
  refine ⟨?_, ⟨h1, h2⟩, ?_⟩
  · rw [hbounds]
    exact ⟨x.lower_le, x.le_upper⟩
  · intro p hlow hup
    have h3 : (m.offsetMidpointUs : ℝ) - m.baseUncertaintyUs ≤ m.offsetIntervalUs.1 := by exact_mod_cast h3
    have h4 : (m.offsetIntervalUs.2 : ℝ) ≤ m.offsetMidpointUs + m.baseUncertaintyUs := by exact_mod_cast h4
    rw [abs_le]
    constructor <;> linarith

/-- Clocks 5000 microseconds apart, 200 each way, read exactly. -/
noncomputable def smallExchange : Exchange (smallSample 0) where
  source t := t
  target t := t + 5000
  offset := 5000
  ping := 1000000
  received := 1000200
  answered := 1000300
  pong := 1000500
  ordered := by norm_num
  runs := fun _ _ _ _ h => h
  constant := fun _ _ => rfl
  read1 := by norm_num [smallSample]
  read2 := by norm_num [smallSample]
  read3 := by norm_num [smallSample]
  read4 := by norm_num [smallSample]

theorem derived_sound_small : (deriveClockMapping (smallSample 0) smallGuardrails).offsetIntervalUs = (4770, 5230) ∧
    |(5000 : ℝ) - (deriveClockMapping (smallSample 0) smallGuardrails).offsetMidpointUs| ≤
      (deriveClockMapping (smallSample 0) smallGuardrails).baseUncertaintyUs := by
  refine ⟨by decide, ?_⟩
  obtain ⟨⟨h1, h2⟩, -, h⟩ := @derived_sound _ smallGuardrails smallExchange (by decide)
  exact h 5000 h1 h2

end BettingHelper.Clock
