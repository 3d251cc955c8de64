/-
  BettingHelper.Clock.Raw — clock input before its types are checked: a tree of values of
  whatever types. The two languages differ in their numbers (`N`), of which a function tells
  the integers: `type(x) is int` in Python, a bigint or a safe integer in TypeScript.

  `Same` relates the values of two languages member by member, in whatever order the members
  are; what is read of related values is the same (`sampleOf_same`).
-/

import Mathlib
import BettingHelper.Clock.Mapping

namespace BettingHelper.Clock

inductive Raw (N : Type) where
  /-- `None`; `null` or `undefined` -/
  | null
  | bool (b : Bool)
  | number (n : N)
  | text (s : String)
  | list (l : List (Raw N))
  | dict (l : List (String × Raw N))

section Reading

variable {N : Type} (int? : N → Option Int)

/-- `v.get(k)`, `v[k]` -/
def Raw.get (v : Raw N) (k : String) : Option (Raw N) :=
  match v with
  | .dict l => l.lookup k
  | _ => none

def intOf : Option (Raw N) → Option Int
  | some (.number n) => int? n
  | _ => none

def textOf : Option (Raw N) → Option String
  | some (.text s) => some s
  | _ => none

def boolOf : Option (Raw N) → Option Bool
  | some (.bool b) => some b
  | _ => none

/-- A list of two integers. -/
def pairOf : Raw N → Option (Int × Int)
  | .list [a, b] => do
    let a ← intOf int? (some a)
    let b ← intOf int? (some b)
    some (a, b)
  | _ => none

/-- A list of intervals, and not an empty one. -/
def intervalsOf : Option (Raw N) → Option (List (Int × Int))
  | some (.list (v :: l)) => (v :: l).mapM (pairOf int?)
  | _ => none

def endpointOf (v : Raw N) : ClockEndpoint where
  clockDomainId := (textOf (v.get "clock_domain_id")).getD ""
  bootId := (textOf (v.get "boot_id")).getD ""
  owner := (textOf (v.get "owner")).getD ""
  unit := (textOf (v.get "unit")).getD ""
  resolutionUs := (intOf int? (v.get "resolution_us")).getD 0

def timestampOf (raw : Raw N) (t : String) : Timestamp where
  us := (intOf int? (raw.get t)).getD 0
  clockDomainId := textOf (raw.get (t ++ "_clock_domain_id"))
  bootId := textOf (raw.get (t ++ "_boot_id"))
  owner := textOf (raw.get (t ++ "_owner"))
  unit := textOf (raw.get (t ++ "_unit"))

/-- The sample of a valid input. -/
def sampleOf (raw : Raw N) : RawClockInput where
  source := endpointOf int? ((raw.get "source").getD .null)
  target := endpointOf int? ((raw.get "target").getD .null)
  t1 := timestampOf int? raw "t1"
  t2 := timestampOf int? raw "t2"
  t3 := timestampOf int? raw "t3"
  t4 := timestampOf int? raw "t4"
  validSampleCount := intOf int? (raw.get "valid_sample_count")
  mappingSegmentAgeUs := intOf int? (raw.get "mapping_segment_age_us")
  wallStepUs := intOf int? (raw.get "wall_step_us")
  eligibleTargetIntervals := intervalsOf int? (raw.get "eligible_target_intervals")
  provenMapping := boolOf (raw.get "proven_mapping")

def limitsOf (guardrails : Raw N) : ClockGuardrails where
  maxNetworkRttUs := (intOf int? (guardrails.get "max_network_rtt_us")).getD 0
  maxBaseUncertaintyUs := (intOf int? (guardrails.get "max_base_uncertainty_us")).getD 0
  minimumValidSamples := (intOf int? (guardrails.get "minimum_valid_samples")).getD 0
  maxMappingSegmentAgeUs := (intOf int? (guardrails.get "max_mapping_segment_age_us")).getD 0
  wallStepToleranceUs := (intOf int? (guardrails.get "wall_step_tolerance_us")).getD 0

end Reading

/-! ## Values of two languages -/

section Same

variable {M N α : Type} (f : M → α) (g : N → α)

mutual

/-- The same value, of numbers that `f` and `g` take for the same. -/
def Same : Raw M → Raw N → Prop
  | .null, .null => True
  | .bool a, .bool b => a = b
  | .number a, .number b => f a = g b
  | .text s, .text t => s = t
  | .list l, .list m => SameItems l m
  | .dict l, .dict m => (l.map (·.1)).Nodup ∧ (m.map (·.1)).Nodup ∧ l.length = m.length ∧ SameMembers l m
  | _, _ => False

def SameItems : List (Raw M) → List (Raw N) → Prop
  | [], [] => True
  | v :: l, w :: m => Same v w ∧ SameItems l m
  | _, _ => False

def SameMembers : List (String × Raw M) → List (String × Raw N) → Prop
  | [], _ => True
  | (k, v) :: l, m => (∃ w, m.lookup k = some w ∧ Same v w) ∧ SameMembers l m

end

/-- The members of two dictionaries. -/
structure SameDict (l : List (String × Raw M)) (m : List (String × Raw N)) : Prop where
  left : (l.map (·.1)).Nodup
  right : (m.map (·.1)).Nodup
  lookup : ∀ k, Option.Rel (Same f g) (l.lookup k) (m.lookup k)

end Same

theorem lookup_mem {α : Type} {l : List (String × α)} {k : String} {v : α} (hl : l.lookup k = some v) : (k, v) ∈ l := by
  obtain ⟨l₁, l₂, rfl, -⟩ := List.lookup_eq_some_iff.mp hl
  simp

theorem lookup_of_mem {α : Type} {l : List (String × α)} {k : String} {v : α} (hn : (l.map (·.1)).Nodup) (hm : (k, v) ∈ l) :
    l.lookup k = some v := by
  obtain ⟨l₁, l₂, rfl⟩ := List.append_of_mem hm
  refine List.lookup_eq_some_iff.mpr ⟨l₁, l₂, rfl, fun m hm => ?_⟩
  rw [List.map_append, List.nodup_append] at hn
  have hne := hn.2.2 m.1 (List.mem_map_of_mem hm) k (by simp)
  simpa using fun he : k = m.1 => hne he.symm

theorem lookup_none {α : Type} {l : List (String × α)} {k : String} : l.lookup k = none ↔ k ∉ l.map (·.1) := by
  rw [List.lookup_eq_none_iff]
  constructor
  · intro h hk
    obtain ⟨m, hm, rfl⟩ := List.mem_map.mp hk
    simpa using h m hm
  · intro h m hm
    simpa using fun he : k = m.1 => h (he ▸ List.mem_map_of_mem hm)

section Related

variable {M N α : Type} {f : M → α} {g : N → α}

theorem sameMembers_iff {l : List (String × Raw M)} {m : List (String × Raw N)} :
    SameMembers f g l m ↔ ∀ a ∈ l, ∃ w, m.lookup a.1 = some w ∧ Same f g a.2 w := by
  induction l with
  | nil => simp [SameMembers]
  | cons a l ih =>
    obtain ⟨k, v⟩ := a
    rw [SameMembers, ih, List.forall_mem_cons]

/-- As many members, and each of the one in the other: no member of the other is left. -/
theorem same_dict {l : List (String × Raw M)} {m : List (String × Raw N)} (hs : Same f g (.dict l) (.dict m)) : SameDict f g l m := by
  obtain ⟨hl, hm, hlen, hmem⟩ := hs
  have hmem := sameMembers_iff.mp hmem
  have hsub : l.map (·.1) ⊆ m.map (·.1) := by
    intro k hk
    obtain ⟨a, ha, rfl⟩ := List.mem_map.mp hk
    obtain ⟨w, hw, -⟩ := hmem a ha
    exact List.mem_map_of_mem (lookup_mem hw)
  have hperm : (l.map (·.1)).Perm (m.map (·.1)) :=
    (List.subperm_of_subset hl hsub).perm_of_length_le (by simp [hlen])
  refine ⟨hl, hm, fun k => ?_⟩
  cases hk : l.lookup k with
  | some v =>
    obtain ⟨w, hw, hvw⟩ := hmem (k, v) (lookup_mem hk)
    rw [hw]
    exact .some hvw
  | none =>
    rw [lookup_none.mpr fun hin => lookup_none.mp hk (hperm.mem_iff.mpr hin)]
    exact .none

/-- Members of the same names, one by one. -/
theorem Same.dict {l : List (String × Raw M)} {m : List (String × Raw N)} (hm : (m.map (·.1)).Nodup)
    (hlm : List.Forall₂ (fun a b => a.1 = b.1 ∧ Same f g a.2 b.2) l m) : Same f g (.dict l) (.dict m) := by
  have hnames : l.map (·.1) = m.map (·.1) := by
    clear hm
    induction hlm with
    | nil => rfl
    | cons h _ ih => rw [List.map_cons, List.map_cons, h.1, ih]
  have hmember : ∀ a ∈ l, ∃ b ∈ m, a.1 = b.1 ∧ Same f g a.2 b.2 := by
    clear hm hnames
    induction hlm with
    | nil => simp
    | cons h _ ih =>
      intro a ha
      rcases List.mem_cons.mp ha with rfl | ha
      · exact ⟨_, List.mem_cons_self, h⟩
      · obtain ⟨b, hb, hab⟩ := ih a ha
        exact ⟨b, List.mem_cons_of_mem _ hb, hab⟩
  refine ⟨hnames ▸ hm, hm, hlm.length_eq, sameMembers_iff.mpr fun a ha => ?_⟩
  obtain ⟨b, hb, hk, hv⟩ := hmember a ha
  exact ⟨b.2, hk ▸ lookup_of_mem hm hb, hv⟩

theorem Same.get {v : Raw M} {w : Raw N} (hs : Same f g v w) (k : String) : Option.Rel (Same f g) (v.get k) (w.get k) := by
  cases v with
  | dict l =>
    cases w with
    | dict m => exact (same_dict hs).lookup k
    | _ => cases hs
  | _ =>
    cases w with
    | dict m => cases hs
    | _ => exact .none

/-- Checks of the members that agree on related values agree on the dictionaries. -/
theorem SameDict.all {l : List (String × Raw M)} {m : List (String × Raw N)} (hs : SameDict f g l m) {p : String → Raw M → Bool}
    {q : String → Raw N → Bool} (hpq : ∀ k v w, Same f g v w → p k v = q k w) :
    (l.all fun a => p a.1 a.2) = m.all fun a => q a.1 a.2 := by
  rw [Bool.eq_iff_iff, List.all_eq_true, List.all_eq_true]
  constructor
  · intro h b hb
    have hrel := hs.lookup b.1
    rw [lookup_of_mem hs.right hb] at hrel
    cases hv : l.lookup b.1 with
    | none =>
      rw [hv] at hrel
      cases hrel
    | some v =>
      rw [hv] at hrel
      cases hrel with
      | some hvw => exact hpq _ _ _ hvw ▸ h (b.1, v) (lookup_mem hv)
  · intro h a ha
    have hrel := hs.lookup a.1
    rw [lookup_of_mem hs.left ha] at hrel
    cases hw : m.lookup a.1 with
    | none =>
      rw [hw] at hrel
      cases hrel
    | some w =>
      rw [hw] at hrel
      cases hrel with
      | some hvw => exact (hpq _ _ _ hvw).symm ▸ h (a.1, w) (lookup_mem hw)

theorem SameDict.length {l : List (String × Raw M)} {m : List (String × Raw N)} (hs : SameDict f g l m) : l.length = m.length := by
  have hperm : (l.map (·.1)).Perm (m.map (·.1)) := by
    refine (List.perm_ext_iff_of_nodup hs.left hs.right).mpr fun k => ?_
    rw [← not_iff_not, ← lookup_none, ← lookup_none]
    have hrel := hs.lookup k
    constructor
    · intro h
      rw [h] at hrel
      cases hw : m.lookup k with
      | none => rfl
      | some w =>
        rw [hw] at hrel
        cases hrel
    · intro h
      rw [h] at hrel
      cases hv : l.lookup k with
      | none => rfl
      | some v =>
        rw [hv] at hrel
        cases hrel
  simpa using hperm.length_eq

end Related

/-! ## What is read is the same -/

section ReadSame

variable {M N : Type} {f : M → Option Int} {g : N → Option Int}

theorem intOf_same {v : Option (Raw M)} {w : Option (Raw N)} (hs : Option.Rel (Same f g) v w) : intOf f v = intOf g w := by
  cases hs with
  | none => rfl
  | @some v w h =>
    cases v <;> cases w <;> first | rfl | exact h | cases h

theorem textOf_same {v : Option (Raw M)} {w : Option (Raw N)} (hs : Option.Rel (Same f g) v w) : textOf v = textOf w := by
  cases hs with
  | none => rfl
  | @some v w h =>
    cases v <;> cases w <;> first | rfl | exact congrArg some h | cases h

theorem boolOf_same {v : Option (Raw M)} {w : Option (Raw N)} (hs : Option.Rel (Same f g) v w) : boolOf v = boolOf w := by
  cases hs with
  | none => rfl
  | @some v w h =>
    cases v <;> cases w <;> first | rfl | exact congrArg some h | cases h

theorem sameItems_length {l : List (Raw M)} {m : List (Raw N)} (hs : SameItems f g l m) : l.length = m.length := by
  induction l generalizing m with
  | nil =>
    cases m with
    | nil => rfl
    | cons w m => cases hs
  | cons v l ih =>
    cases m with
    | nil => cases hs
    | cons w m => rw [List.length_cons, List.length_cons, ih hs.2]

theorem pairOf_same {v : Raw M} {w : Raw N} (hs : Same f g v w) : pairOf f v = pairOf g w := by
  cases v with
  | list l =>
    cases w with
    | list m =>
      have hlen := sameItems_length hs
      match l, m, hlen with
      | [], [], _ => rfl
      | [_], [_], _ => rfl
      | [a, b], [c, d], _ =>
        obtain ⟨hac, hbd, -⟩ := hs
        rw [pairOf, pairOf, intOf_same (.some hac), intOf_same (.some hbd)]
      | _ :: _ :: _ :: _, _ :: _ :: _ :: _, _ => rfl
    | _ => cases hs
  | _ =>
    cases w with
    | list m => cases hs
    | _ => rfl

theorem intervalsOf_same {v : Option (Raw M)} {w : Option (Raw N)} (hs : Option.Rel (Same f g) v w) :
    intervalsOf f v = intervalsOf g w := by
  have hitems : ∀ (l : List (Raw M)) (m : List (Raw N)), SameItems f g l m → l.mapM (pairOf f) = m.mapM (pairOf g) := by
    intro l
    induction l with
    | nil =>
      intro m h
      cases m with
      | nil => rfl
      | cons w m => cases h
    | cons v l ih =>
      intro m h
      cases m with
      | nil => cases h
      | cons w m => rw [List.mapM_cons, List.mapM_cons, pairOf_same h.1, ih m h.2]
  cases hs with
  | none => rfl
  | @some v w h =>
    cases v with
    | list l =>
      cases w with
      | list m =>
        cases l with
        | nil =>
          cases m with
          | nil => rfl
          | cons w m => cases h
        | cons v l =>
          cases m with
          | nil => cases h
          | cons w m => exact hitems (v :: l) (w :: m) h
      | _ => cases h
    | _ =>
      cases w with
      | list m => cases h
      | _ => rfl

theorem endpointOf_same {v : Option (Raw M)} {w : Option (Raw N)} (hs : Option.Rel (Same f g) v w) :
    endpointOf f (v.getD .null) = endpointOf g (w.getD .null) := by
  have hv : Same f g (v.getD .null) (w.getD .null) := by
    cases hs with
    | none => trivial
    | some h => exact h
  simp only [endpointOf, textOf_same (hv.get _), intOf_same (hv.get _)]

theorem sampleOf_same {raw : Raw M} {raw' : Raw N} (hs : Same f g raw raw') : sampleOf f raw = sampleOf g raw' := by
  simp only [sampleOf, timestampOf, endpointOf_same (hs.get _), intOf_same (hs.get _), textOf_same (hs.get _), boolOf_same (hs.get _),
    intervalsOf_same (hs.get _)]

theorem limitsOf_same {guardrails : Raw M} {guardrails' : Raw N} (hs : Same f g guardrails guardrails') :
    limitsOf f guardrails = limitsOf g guardrails' := by
  simp only [limitsOf, intOf_same (hs.get _)]

end ReadSame

end BettingHelper.Clock
