/-
  BettingHelper.Clock.Select — the choice among clock mappings: `ClockMapper` (`clock.py`) and
  `selectClockMapping`, `closeClockMapping` and `reopenClockMapping` (`clock-vectors.ts`).

  Both take the narrowest open mapping, of these the one valid from the latest instant, and of
  these the one of the least identifier. Python orders texts by code points, JavaScript by
  UTF-16 units: a character from U+E000 to U+FFFF is before a supplementary one to the first,
  and after it to the second (`utf16_reorders_iff`).

  Proved: both choose the same mapping iff the orders agree on the least identifier
  (`select_agree_iff`), and no mapping that is closed is chosen again (`select_closed`).
-/

import Mathlib
import BettingHelper.Lib.FirstLeast
import BettingHelper.Lib.JsonText

namespace BettingHelper.Clock

open BettingHelper.Lib BettingHelper.Lib.Json

/-- A text both languages hold: none of its pairs of surrogates is spelled out. -/
structure Name where
  text : Text
  joined : joinPairs (utf16 text) = text
  deriving DecidableEq

/-- An integer in JavaScript. Python reads its value. -/
inductive Integer where
  | bigint (n : Int)
  | number (n : Int)
  deriving DecidableEq

def Integer.value : Integer → Int
  | .bigint n => n
  | .number n => n

def isInteger : Integer → Bool
  | .bigint _ => true
  | .number n => n.natAbs ≤ maxSafe

structure Candidate (α : Type) where
  mappingId : Name
  widthUs : Integer
  validFromUs : Integer
  /-- The other members. -/
  rest : α
  deriving DecidableEq

/-- `permanent` is true of every closure, and `reopen_permitted` false. -/
structure MappingClosure where
  mappingId : Name
  reason : String
  deriving DecidableEq

inductive SelectError where
  /-- `E_INVALID_MAPPING_CANDIDATE` -/
  | invalidMappingCandidate
  /-- `E_NO_VALID_MAPPING` -/
  | noValidMapping
  /-- `E_INVALID_MAPPING_CLOSURE` -/
  | invalidMappingClosure
  /-- `E_MAPPING_PERMANENTLY_CLOSED` -/
  | mappingPermanentlyClosed
  deriving DecidableEq, Repr

def closureReasons : List String :=
  ["DOMAIN_BOOT_CHANGED", "MONOTONIC_REGRESSION", "WALL_CLOCK_STEP", "SLEEP_RESUME", "MAX_DURATION", "RTT_EXCEEDED",
    "UNCERTAINTY_EXCEEDED", "INCONSISTENT_MAPPING", "LIFECYCLE_INVALIDATED", "RUN_CLOSED"]

variable {α : Type}

/-! ## Python -/

/-- The order of the tuples `(width_us, -valid_from_us, mapping_id)`. -/
def pyLess (a b : Candidate α) : Bool :=
  a.widthUs.value < b.widthUs.value || (a.widthUs.value = b.widthUs.value &&
    (-a.validFromUs.value < -b.validFromUs.value || (-a.validFromUs.value = -b.validFromUs.value &&
      a.mappingId.text < b.mappingId.text)))

/-- `ClockMapper.select` -/
def pySelect (candidates : List (Candidate α)) (history : List MappingClosure) : Except SelectError (Candidate α) :=
  let eligible := candidates.filter fun c => c.mappingId.text ∉ history.map (·.mappingId.text)
  if eligible.any fun c => c.mappingId.text = [] || c.widthUs.value < 0 || c.validFromUs.value < 0 then
    .error .invalidMappingCandidate
  else
    match eligible with
    | [] => .error .noValidMapping
    | c :: l => .ok (keepBest pyLess c l)

/-- `ClockMapper.close` -/
def pyClose (mappingId : Name) (reason : String) (history : List MappingClosure) : Except SelectError (List MappingClosure) :=
  if mappingId.text = [] ∨ reason ∉ closureReasons then .error .invalidMappingClosure
  else if history.any fun c => c.mappingId.text = mappingId.text then .error .mappingPermanentlyClosed
  else .ok (history ++ [⟨mappingId, reason⟩])

/-- `ClockMapper.reopen` -/
def pyReopen (mappingId : Name) (history : List MappingClosure) : SelectError :=
  if history.any fun c => c.mappingId.text = mappingId.text then .mappingPermanentlyClosed else .noValidMapping

/-! ## TypeScript -/

/-- The text as JavaScript has it. -/
def Name.units (s : Name) : Text := utf16 s.text

/-- `candidate` takes the place of `best`. -/
def tsLess (candidate best : Candidate α) : Bool :=
  candidate.widthUs.value < best.widthUs.value || (candidate.widthUs.value = best.widthUs.value &&
    (candidate.validFromUs.value > best.validFromUs.value || (candidate.validFromUs.value = best.validFromUs.value &&
      candidate.mappingId.units < best.mappingId.units)))

/-- `selectClockMapping` -/
def selectClockMapping (candidates : List (Candidate α)) (history : List MappingClosure) : Except SelectError (Candidate α) :=
  let eligible := candidates.filter fun c => c.mappingId.units ∉ history.map (·.mappingId.units)
  if eligible.any fun c => c.mappingId.units = [] || !isInteger c.widthUs || c.widthUs.value < 0 ||
      !isInteger c.validFromUs || c.validFromUs.value < 0 then
    .error .invalidMappingCandidate
  else
    match eligible with
    | [] => .error .noValidMapping
    | c :: l => .ok (keepBest tsLess c l)

def closeClockMapping (mappingId : Name) (reason : String) (history : List MappingClosure) :
    Except SelectError (List MappingClosure) :=
  if mappingId.units = [] ∨ reason ∉ closureReasons then .error .invalidMappingClosure
  else if history.any fun c => c.mappingId.units = mappingId.units then .error .mappingPermanentlyClosed
  else .ok (history ++ [⟨mappingId, reason⟩])

def reopenClockMapping (mappingId : Name) (history : List MappingClosure) : SelectError :=
  if history.any fun c => c.mappingId.units = mappingId.units then .mappingPermanentlyClosed else .noValidMapping

/-! ## Both -/

theorem units_inj {s t : Name} : s.units = t.units ↔ s.text = t.text := by
  constructor
  · intro h
    rw [← s.joined, ← t.joined]
    exact congrArg joinPairs h
  · intro h
    rw [Name.units, Name.units, h]

theorem units_nil {s : Name} : s.units = [] ↔ s.text = [] := by
  constructor
  · intro h
    rw [← s.joined, ← Name.units, h]
    rfl
  · intro h
    rw [Name.units, h]
    rfl

theorem close_eq (mappingId : Name) (reason : String) (history : List MappingClosure) :
    closeClockMapping mappingId reason history = pyClose mappingId reason history := by
  simp only [closeClockMapping, pyClose, units_nil, units_inj]

theorem reopen_eq (mappingId : Name) (history : List MappingClosure) :
    reopenClockMapping mappingId history = pyReopen mappingId history := by
  simp only [reopenClockMapping, pyReopen, units_inj]

/-- The candidates no closure names. -/
def openCandidates (candidates : List (Candidate α)) (history : List MappingClosure) : List (Candidate α) :=
  candidates.filter fun c => c.mappingId.text ∉ history.map (·.mappingId.text)

theorem open_units (candidates : List (Candidate α)) (history : List MappingClosure) :
    (candidates.filter fun c => c.mappingId.units ∉ history.map (·.mappingId.units)) = openCandidates candidates history := by
  refine List.filter_congr fun c _ => ?_
  simp [units_inj]

/-- A candidate with an identifier, and a width and a start of zero or more. -/
structure Candidate.Valid (c : Candidate α) : Prop where
  named : c.mappingId.text ≠ []
  width : isInteger c.widthUs ∧ 0 ≤ c.widthUs.value
  validFrom : isInteger c.validFromUs ∧ 0 ≤ c.validFromUs.value

/-- Narrowest first, then latest, then by the identifier in code points. -/
def pyKey (c : Candidate α) : Int ×ₗ Int ×ₗ List Nat := toLex (c.widthUs.value, toLex (-c.validFromUs.value, c.mappingId.text))

/-- The same, the identifier in UTF-16 units. -/
def tsKey (c : Candidate α) : Int ×ₗ Int ×ₗ List Nat := toLex (c.widthUs.value, toLex (-c.validFromUs.value, c.mappingId.units))

theorem pyLess_iff (a b : Candidate α) : pyLess a b = true ↔ pyKey a < pyKey b := by
  simp [pyLess, pyKey, Prod.Lex.toLex_lt_toLex]

theorem tsLess_iff (a b : Candidate α) : tsLess a b = true ↔ tsKey a < tsKey b := by
  simp [tsLess, tsKey, Prod.Lex.toLex_lt_toLex]

/-- Wherever the code points choose, no candidate as narrow and as late has an identifier before
the chosen one in UTF-16 units. -/
def OrdersAgree (l : List (Candidate α)) : Prop :=
  ∀ a ∈ l, (∀ b ∈ l, pyKey a ≤ pyKey b) → ∀ b ∈ l, b.widthUs.value = a.widthUs.value →
    b.validFromUs.value = a.validFromUs.value → ¬b.mappingId.units < a.mappingId.units

theorem pyKey_inj {a b : Candidate α} (h : pyKey a = pyKey b) :
    a.widthUs.value = b.widthUs.value ∧ a.validFromUs.value = b.validFromUs.value ∧ a.mappingId.text = b.mappingId.text := by
  have h1 := congrArg (fun k => (ofLex k).1) h
  have h2 := congrArg (fun k => (ofLex (ofLex k).2).1) h
  have h3 := congrArg (fun k => (ofLex (ofLex k).2).2) h
  exact ⟨h1, Int.neg_inj.mp h2, h3⟩

theorem tsKey_inj {a b : Candidate α} (h : tsKey a = tsKey b) : pyKey a = pyKey b := by
  have h1 : a.widthUs.value = b.widthUs.value := congrArg (fun k => (ofLex k).1) h
  have h2 : -a.validFromUs.value = -b.validFromUs.value := congrArg (fun k => (ofLex (ofLex k).2).1) h
  have h3 : a.mappingId.units = b.mappingId.units := congrArg (fun k => (ofLex (ofLex k).2).2) h
  rw [pyKey, pyKey, h1, h2, units_inj.mp h3]

theorem any_valid {l : List (Candidate α)} (hl : ∀ c ∈ l, c.Valid) :
    (l.any fun c => c.mappingId.text = [] || c.widthUs.value < 0 || c.validFromUs.value < 0) = false ∧
    (l.any fun c => c.mappingId.units = [] || !isInteger c.widthUs || c.widthUs.value < 0 ||
      !isInteger c.validFromUs || c.validFromUs.value < 0) = false := by
  simp only [List.any_eq_false]
  constructor
  · intro c hc
    have hv := hl c hc
    simp [hv.named, hv.width.2, hv.validFrom.2]
  · intro c hc
    have hv := hl c hc
    simp [units_nil, hv.named, hv.width.1, hv.width.2, hv.validFrom.1, hv.validFrom.2]

section Choice

variable {candidates : List (Candidate α)} {history : List MappingClosure}

theorem open_valid (hv : ∀ c ∈ candidates, c.Valid) : ∀ c ∈ openCandidates candidates history, c.Valid :=
  fun c hc => hv c (List.mem_filter.mp hc).1

/-- Python takes the first of the least by its key. -/
theorem pySelect_eq (hv : ∀ c ∈ candidates, c.Valid) :
    (openCandidates candidates history = [] ∧ pySelect candidates history = .error .noValidMapping) ∨
    ∃ m, FirstLeast pyKey (openCandidates candidates history) m ∧ pySelect candidates history = .ok m := by
  have hany := (any_valid (@open_valid _ _ history hv)).1
  unfold pySelect
  rw [← openCandidates, if_neg (by rw [hany]; exact Bool.false_ne_true)]
  cases openCandidates candidates history with
  | nil => exact .inl ⟨rfl, rfl⟩
  | cons c l => exact .inr ⟨_, keepBest_firstLeast pyLess_iff c l, rfl⟩

/-- TypeScript takes the first of the least by its own. -/
theorem selectClockMapping_eq (hv : ∀ c ∈ candidates, c.Valid) :
    (openCandidates candidates history = [] ∧ selectClockMapping candidates history = .error .noValidMapping) ∨
    ∃ m, FirstLeast tsKey (openCandidates candidates history) m ∧ selectClockMapping candidates history = .ok m := by
  have hany := (any_valid (@open_valid _ _ history hv)).2
  unfold selectClockMapping
  simp only [open_units]
  rw [if_neg (by rw [hany]; exact Bool.false_ne_true)]
  cases openCandidates candidates history with
  | nil => exact .inl ⟨rfl, rfl⟩
  | cons c l => exact .inr ⟨_, keepBest_firstLeast tsLess_iff c l, rfl⟩

/-- Where the orders agree, Python's choice is TypeScript's. -/
theorem firstLeast_ts {l : List (Candidate α)} {m : Candidate α} (ha : OrdersAgree l) (hm : FirstLeast pyKey l m) :
    FirstLeast tsKey l m := by
  have hle : ∀ y ∈ l, tsKey m ≤ tsKey y := by
    intro y hy
    have hk := hm.le y hy
    simp only [pyKey, tsKey, Prod.Lex.toLex_le_toLex] at hk ⊢
    rcases hk with hw | ⟨hw, hk⟩
    · exact .inl hw
    · refine .inr ⟨hw, ?_⟩
      rcases hk with hf | ⟨hf, -⟩
      · exact .inl hf
      · exact .inr ⟨hf, not_lt.mp (ha m hm.mem hm.le y hy hw.symm (Int.neg_inj.mp hf).symm)⟩
  refine hm.transfer hle fun y hy hy' => ?_
  exact (tsKey_inj (le_antisymm hy' (hle y hy))).le

/-- A choice both make shows that the orders agree. -/
theorem ordersAgree_of {l : List (Candidate α)} {m : Candidate α} (hp : FirstLeast pyKey l m) (ht : FirstLeast tsKey l m) :
    OrdersAgree l := by
  intro a ha hle b hb hw hf hlt
  obtain ⟨hmw, hmf, hmi⟩ := pyKey_inj (le_antisymm (hle m hp.mem) (hp.le a ha))
  have hk := ht.le b hb
  simp only [tsKey, Prod.Lex.toLex_le_toLex] at hk
  rcases hk with hk | ⟨-, hk⟩
  · omega
  · rcases hk with hk | ⟨-, hk⟩
    · omega
    · rw [units_inj.mpr hmi] at hlt
      exact absurd hlt (not_lt.mpr hk)

/-- Both return the same mapping or the same error, and the mapping is open and least, iff the
two orders of texts agree on the identifiers of the narrowest and latest. -/
theorem select_agree_iff (hv : ∀ c ∈ candidates, c.Valid) :
    (pySelect candidates history = selectClockMapping candidates history ∧
      ∀ m, pySelect candidates history = .ok m → m ∈ openCandidates candidates history ∧
        ∀ d ∈ openCandidates candidates history, pyKey m ≤ pyKey d) ↔
    OrdersAgree (openCandidates candidates history) := by
  rcases @pySelect_eq _ _ history hv with ⟨he, hp⟩ | ⟨m, hm, hp⟩
  · rcases @selectClockMapping_eq _ _ history hv with ⟨-, ht⟩ | ⟨n, hn, -⟩
    · simp [hp, ht, he, OrdersAgree]
    · have := hn.mem
      simp [he] at this
  · rcases @selectClockMapping_eq _ _ history hv with ⟨he, -⟩ | ⟨n, hn, ht⟩
    · have := hm.mem
      simp [he] at this
    · rw [hp, ht]
      constructor
      · intro h
        cases h.1
        exact ordersAgree_of hm hn
      · intro ha
        have hmn := (firstLeast_ts ha hm).unique hn
        subst hmn
        refine ⟨rfl, fun k hk => ?_⟩
        cases hk
        exact ⟨hm.mem, hm.le⟩

/-- What is closed stays in every history that goes on from its closure. -/
theorem closed_listed {mappingId : Name} {reason : String} {closed : List MappingClosure}
    (hc : pyClose mappingId reason history = .ok closed) (more : List MappingClosure) :
    mappingId.text ∈ (closed ++ more).map (·.mappingId.text) := by
  unfold pyClose at hc
  split_ifs at hc
  cases hc
  simp

/-- A closed mapping is chosen under no history that goes on from its closure. -/
theorem select_closed {mappingId : Name} {reason : String} {closed more : List MappingClosure} {m : Candidate α}
    (hc : pyClose mappingId reason history = .ok closed) (hm : pySelect candidates (closed ++ more) = .ok m) :
    m.mappingId.text ≠ mappingId.text := by
  intro he
  have hopen : m ∈ openCandidates candidates (closed ++ more) := by
    unfold pySelect at hm
    rw [← openCandidates] at hm
    dsimp only at hm
    split_ifs at hm
    cases ho : openCandidates candidates (closed ++ more) with
    | nil =>
      rw [ho] at hm
      cases hm
    | cons c l =>
      rw [ho] at hm
      cases hm
      exact (keepBest_firstLeast pyLess_iff c l).mem
  have hnot := (List.mem_filter.mp hopen).2
  rw [decide_eq_true_eq, he] at hnot
  exact hnot (closed_listed hc more)

/-- What TypeScript chooses is open. -/
theorem selectClockMapping_open {m : Candidate α} (hm : selectClockMapping candidates history = .ok m) :
    m ∈ openCandidates candidates history := by
  unfold selectClockMapping at hm
  simp only [open_units] at hm
  split_ifs at hm
  cases ho : openCandidates candidates history with
  | nil =>
    rw [ho] at hm
    cases hm
  | cons c l =>
    rw [ho] at hm
    cases hm
    exact (keepBest_firstLeast tsLess_iff c l).mem

/-- Both close a mapping alike, and whatever is closed after it neither chooses it again nor
reopens it. -/
theorem closed_never_selected {mappingId : Name} {reason : String} {closed : List MappingClosure}
    (hc : pyClose mappingId reason history = .ok closed) :
    closeClockMapping mappingId reason history = .ok closed ∧ ∀ more : List MappingClosure,
      pyReopen mappingId (closed ++ more) = .mappingPermanentlyClosed ∧
      reopenClockMapping mappingId (closed ++ more) = .mappingPermanentlyClosed ∧
      ∀ (candidates : List (Candidate α)) (m : Candidate α),
        pySelect candidates (closed ++ more) = .ok m ∨ selectClockMapping candidates (closed ++ more) = .ok m →
        m.mappingId.text ≠ mappingId.text := by
  refine ⟨by rw [close_eq, hc], fun more => ?_⟩
  have hreopen : pyReopen mappingId (closed ++ more) = .mappingPermanentlyClosed := by
    obtain ⟨c, hmem, he⟩ := List.mem_map.mp (closed_listed hc more)
    rw [pyReopen, if_pos (List.any_eq_true.mpr ⟨c, hmem, decide_eq_true he⟩)]
  refine ⟨hreopen, by rw [reopen_eq, hreopen], fun candidates m hm => ?_⟩
  rcases hm with hm | hm
  · exact select_closed hc hm
  · intro he
    have hnot := (List.mem_filter.mp (selectClockMapping_open hm)).2
    rw [decide_eq_true_eq, he] at hnot
    exact hnot (closed_listed hc more)

end Choice

/-! ## Where the orders of texts differ -/

/-- The first difference of the texts is a character from U+E000 to U+FFFF in the one, and a
supplementary character in the other. -/
def Reorders (s t : Text) : Prop :=
  ∃ p x y r q, s = p ++ x :: r ∧ t = p ++ y :: q ∧ 0xe000 ≤ x ∧ x < 0x10000 ∧ 0x10000 ≤ y

theorem reorders_cons {c : Nat} {s t : Text} : Reorders (c :: s) (c :: t) ↔ Reorders s t := by
  constructor
  · rintro ⟨p, x, y, r, q, hs, ht, hx, hx', hy⟩
    cases p with
    | nil =>
      have h1 : c = x := (List.cons.inj hs).1
      have h2 : c = y := (List.cons.inj ht).1
      omega
    | cons d p => exact ⟨p, x, y, r, q, (List.cons.inj hs).2, (List.cons.inj ht).2, hx, hx', hy⟩
  · rintro ⟨p, x, y, r, q, rfl, rfl, hx, hx', hy⟩
    exact ⟨c :: p, x, y, r, q, rfl, rfl, hx, hx', hy⟩

theorem reorders_head {a b : Nat} {s t : Text} (hab : a ≠ b) :
    Reorders (a :: s) (b :: t) ↔ 0xe000 ≤ a ∧ a < 0x10000 ∧ 0x10000 ≤ b := by
  constructor
  · rintro ⟨p, x, y, r, q, hs, ht, hx, hx', hy⟩
    cases p with
    | nil =>
      have h1 : a = x := (List.cons.inj hs).1
      have h2 : b = y := (List.cons.inj ht).1
      omega
    | cons d p =>
      have h1 : a = d := (List.cons.inj hs).1
      have h2 : b = d := (List.cons.inj ht).1
      exact absurd (h1.trans h2.symm) hab
  · intro h
    exact ⟨[], a, b, s, t, rfl, rfl, h⟩

/-- Of two characters the lesser is the greater in UTF-16 iff it is one from U+E000 to U+FFFF
and the other is supplementary. -/
theorem units_lt_iff {a b : Nat} (ha : isScalar a) (hb : isScalar b) (hab : a < b) (s t : Text) :
    utf16 (b :: t) < utf16 (a :: s) ↔ 0xe000 ≤ a ∧ a < 0x10000 ∧ 0x10000 ≤ b := by
  simp only [isScalar, Bool.or_eq_true, Bool.and_eq_true, decide_eq_true_eq] at ha hb
  simp only [utf16, List.flatMap_cons, utf16Units]
  by_cases hb' : b < 0x10000
  · have ha' : a < 0x10000 := by omega
    rw [if_pos hb', if_pos ha']
    simp only [List.singleton_append, List.cons_lt_cons_iff]
    omega
  · rw [if_neg hb']
    by_cases ha' : a < 0x10000
    · rw [if_pos ha']
      simp only [List.nil_append, List.cons_append, List.cons_lt_cons_iff]
      omega
    · rw [if_neg ha']
      simp only [List.nil_append, List.cons_append, List.cons_lt_cons_iff]
      omega

theorem append_lt_iff (u : Text) {s t : Text} : u ++ s < u ++ t ↔ s < t := by
  induction u with
  | nil => rfl
  | cons c u ih => rw [List.cons_append, List.cons_append, List.cons_lt_cons_iff, ih]; simp

theorem utf16_reorders_iff {s t : Text} (hs : s.all isScalar) (ht : t.all isScalar) (hst : s < t) : utf16 t < utf16 s ↔ Reorders s t := by
  induction s generalizing t with
  | nil =>
    constructor
    · intro h
      exact absurd h (List.not_lt_nil _)
    · rintro ⟨p, x, y, r, q, h, -⟩
      simp at h
  | cons a s ih =>
    rw [List.all_cons, Bool.and_eq_true] at hs
    cases t with
    | nil => exact absurd hst (List.not_lt_nil _)
    | cons b t =>
      rw [List.all_cons, Bool.and_eq_true] at ht
      rcases List.cons_lt_cons_iff.mp hst with hab | ⟨rfl, hlt⟩
      · rw [units_lt_iff hs.1 ht.1 hab, reorders_head (by omega)]
      · rw [reorders_cons, ← ih hs.2 ht.2 hlt]
        simp only [utf16, List.flatMap_cons]
        exact append_lt_iff _

/-- Of identifiers without lone surrogates: the orders agree unless the least identifier has a
character from U+E000 to U+FFFF where one as narrow and as late has a supplementary one. -/
theorem ordersAgree_iff {l : List (Candidate α)} (hs : ∀ c ∈ l, c.mappingId.text.all isScalar) :
    OrdersAgree l ↔ ∀ a ∈ l, (∀ b ∈ l, pyKey a ≤ pyKey b) → ∀ b ∈ l, b.widthUs.value = a.widthUs.value →
      b.validFromUs.value = a.validFromUs.value → ¬Reorders a.mappingId.text b.mappingId.text := by
  refine forall₂_congr fun a ha => forall_congr' fun hle => forall₂_congr fun b hb => ?_
  refine forall_congr' fun hw => forall_congr' fun hf => not_congr ?_
  have hk := hle b hb
  simp only [pyKey, Prod.Lex.toLex_le_toLex, hw, hf, lt_irrefl, false_or, true_and] at hk
  rcases hk.lt_or_eq with hlt | heq
  · exact utf16_reorders_iff (hs a ha) (hs b hb) hlt
  · constructor
    · intro h
      rw [units_inj.mpr heq] at h
      exact absurd h (lt_irrefl _)
    · rintro ⟨p, x, y, r, q, hx, hy, -, hlt, hge⟩
      have hxy : x :: r = y :: q := List.append_cancel_left (hx.symm.trans (heq.trans hy))
      have := (List.cons.inj hxy).1
      omega

/-! ## Two mappings as narrow and as late -/

def named (t : Text) (h : joinPairs (utf16 t) = t) : Candidate Unit := ⟨⟨t, h⟩, .bigint 10, .bigint 5, ()⟩

/-- U+FF5E and U+1F600. -/
def tildeAndFace : List (Candidate Unit) := [named [0xff5e] (by decide), named [0x1f600] (by decide)]

theorem ordersAgree_iff_tilde : ¬OrdersAgree tildeAndFace := by
  have hs : ∀ c ∈ tildeAndFace, c.mappingId.text.all isScalar := by
    intro c hc
    simp only [tildeAndFace, List.mem_cons, List.not_mem_nil, or_false] at hc
    rcases hc with rfl | rfl
    · decide
    · decide
  intro h
  refine (ordersAgree_iff hs).mp h (named [0xff5e] (by decide)) (.head _) ?_ (named [0x1f600] (by decide)) (.tail _ (.head _)) rfl rfl ?_
  · intro b hb
    simp only [tildeAndFace, List.mem_cons, List.not_mem_nil, or_false] at hb
    rcases hb with rfl | rfl
    · exact le_refl _
    · decide
  · exact ⟨[], 0xff5e, 0x1f600, [], [], rfl, rfl, by decide, by decide, by decide⟩

theorem named_valid {t : Text} {h : joinPairs (utf16 t) = t} (ht : t ≠ []) : (named t h).Valid :=
  ⟨ht, ⟨rfl, show (0 : Int) ≤ 10 by decide⟩, ⟨rfl, show (0 : Int) ≤ 5 by decide⟩⟩

/-- Python chooses U+FF5E, and TypeScript U+1F600. -/
theorem select_disagree : ¬∀ (candidates : List (Candidate Unit)) (history : List MappingClosure), (∀ c ∈ candidates, c.Valid) →
    pySelect candidates history = selectClockMapping candidates history ∧
      ∀ m, pySelect candidates history = .ok m → m ∈ openCandidates candidates history ∧
        ∀ d ∈ openCandidates candidates history, pyKey m ≤ pyKey d := by
  intro h
  have hv : ∀ c ∈ tildeAndFace, c.Valid := by
    intro c hc
    simp only [tildeAndFace, List.mem_cons, List.not_mem_nil, or_false] at hc
    rcases hc with rfl | rfl
    · exact named_valid (by decide)
    · exact named_valid (by decide)
  have he := (h tildeAndFace [] hv).1
  have hp : pySelect tildeAndFace [] = .ok (named [0xff5e] (by decide)) := by rfl
  have ht : selectClockMapping tildeAndFace [] = .ok (named [0x1f600] (by decide)) := by rfl
  rw [hp, ht] at he
  exact absurd (congrArg (fun c => c.mappingId.text) (Except.ok.inj he)) (by decide)

def letters : List (Candidate Unit) := [named [0x62] (by decide), named [0x61] (by decide)]

def closedLetter : List MappingClosure := [⟨⟨[0x61], by decide⟩, "RUN_CLOSED"⟩]

def closedLetters : List MappingClosure := closedLetter ++ [⟨⟨[0x62], by decide⟩, "RUN_CLOSED"⟩]

/-- `a` is closed, then `b`, and `c` is left. -/
theorem closed_never_selected_letters :
    reopenClockMapping ⟨[0x61], by decide⟩ closedLetters = .mappingPermanentlyClosed ∧
      ∃ m, selectClockMapping (named [0x63] (by decide) :: letters) closedLetters = .ok m ∧
        m.mappingId.text ≠ [0x61] := by
  have hc : pyClose ⟨[0x61], by decide⟩ "RUN_CLOSED" [] = .ok closedLetter := by rfl
  have hm : selectClockMapping (named [0x63] (by decide) :: letters) closedLetters =
      .ok (named [0x63] (by decide)) := by rfl
  obtain ⟨-, hreopen, hselect⟩ := (closed_never_selected hc).2 [⟨⟨[0x62], by decide⟩, "RUN_CLOSED"⟩]
  exact ⟨hreopen, _, hm, hselect _ _ (.inr hm)⟩

theorem select_agree_letters : pySelect letters closedLetter = selectClockMapping letters closedLetter ∧
    ∀ m, pySelect letters closedLetter = .ok m → m ∈ openCandidates letters closedLetter ∧
      ∀ d ∈ openCandidates letters closedLetter, pyKey m ≤ pyKey d := by
  have hv : ∀ c ∈ letters, c.Valid := by
    intro c hc
    simp only [letters, List.mem_cons, List.not_mem_nil, or_false] at hc
    rcases hc with rfl | rfl
    · exact named_valid (by decide)
    · exact named_valid (by decide)
  have ho : openCandidates letters closedLetter = [named [0x62] (by decide)] := by rfl
  refine (select_agree_iff hv).mpr ?_
  rw [ho]
  intro a ha _ b hb _ _
  rw [List.mem_singleton.mp ha, List.mem_singleton.mp hb]
  exact lt_irrefl _

end BettingHelper.Clock
