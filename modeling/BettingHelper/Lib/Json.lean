/-
  BettingHelper.Lib.Json — JSON values, a reader with hooks, and the canonical writer.

  A text is the list of its code points. `loads` reads as Python's `json.loads` does: a
  recursive descent that calls `object_pairs_hook` when an object closes and
  `parse_constant` on NaN and the infinities. The depth it may reach is bounded by the
  length of the text, which is enough (`value_fuel`). `dumps` writes as RFC 8785 asks:
  members in the order of their names' UTF-16 units, no blanks.
-/

import Mathlib

namespace BettingHelper.Lib.Json

abbrev Text := List Nat

instance : @LawfulBEq Text (@List.instBEq Nat instBEqOfDecidableEq) := inferInstance

def text (s : String) : Text := s.toList.map Char.toNat

theorem text_ofList (l : List Char) : text (String.ofList l) = l.map Char.toNat := by simp [text]

inductive Value (F : Type) where
  | null
  | bool (b : Bool)
  | int (n : Int)
  | float (x : F)
  | str (s : Text)
  | arr (l : List (Value F))
  | obj (l : List (Text × Value F))

/-! ## Equality -/

section Equality

variable {F : Type} [DecidableEq F]

mutual

def same : Value F → Value F → Bool
  | .null, .null => true
  | .bool a, .bool b => a = b
  | .int a, .int b => a = b
  | .float a, .float b => a = b
  | .str a, .str b => a = b
  | .arr a, .arr b => sameItems a b
  | .obj a, .obj b => sameMembers a b
  | _, _ => false

def sameItems : List (Value F) → List (Value F) → Bool
  | [], [] => true
  | a :: l, b :: m => same a b && sameItems l m
  | _, _ => false

def sameMembers : List (Text × Value F) → List (Text × Value F) → Bool
  | [], [] => true
  | (j, a) :: l, (k, b) :: m => j = k && same a b && sameMembers l m
  | _, _ => false

end

mutual

theorem same_iff : ∀ a b : Value F, same a b = true ↔ a = b
  | .null, b => by cases b <;> simp [same]
  | .bool a, b => by cases b <;> simp [same]
  | .int a, b => by cases b <;> simp [same]
  | .float a, b => by cases b <;> simp [same]
  | .str a, b => by cases b <;> simp [same]
  | .arr a, b => by
    cases b with
    | arr b => rw [same, sameItems_iff, Value.arr.injEq]
    | _ => simp [same]
  | .obj a, b => by
    cases b with
    | obj b => rw [same, sameMembers_iff, Value.obj.injEq]
    | _ => simp [same]

theorem sameItems_iff : ∀ a b : List (Value F), sameItems a b = true ↔ a = b
  | [], b => by cases b <;> simp [sameItems]
  | a :: l, b => by
    cases b with
    | nil => simp [sameItems]
    | cons b m => rw [sameItems, Bool.and_eq_true, same_iff a b, sameItems_iff l m, List.cons.injEq]

theorem sameMembers_iff : ∀ a b : List (Text × Value F), sameMembers a b = true ↔ a = b
  | [], b => by cases b <;> simp [sameMembers]
  | (j, a) :: l, b => by
    cases b with
    | nil => simp [sameMembers]
    | cons b m =>
      rw [sameMembers, Bool.and_eq_true, Bool.and_eq_true, same_iff a b.2, sameMembers_iff l m, List.cons.injEq,
        decide_eq_true_iff, Prod.ext_iff]

end

instance : DecidableEq (Value F) := fun a b => decidable_of_iff _ (same_iff a b)

end Equality

/-! ## Tokens -/

def isBlank (c : Nat) : Bool := c = 0x20 || c = 0x09 || c = 0x0a || c = 0x0d

def skip (s : Text) : Text := s.dropWhile isBlank

def isDigit (c : Nat) : Bool := 0x30 ≤ c && c ≤ 0x39

def hexDigit (c : Nat) : Option Nat :=
  if 0x30 ≤ c ∧ c ≤ 0x39 then some (c - 0x30)
  else if 0x61 ≤ c ∧ c ≤ 0x66 then some (c - 0x57)
  else if 0x41 ≤ c ∧ c ≤ 0x46 then some (c - 0x37)
  else none

def hex4 (a b c d : Nat) : Option Nat := do
  let a ← hexDigit a
  let b ← hexDigit b
  let c ← hexDigit c
  let d ← hexDigit d
  some (((a * 16 + b) * 16 + c) * 16 + d)

/-- What `\x` stands for, `\u` apart. -/
def unescape (c : Nat) : Option Nat :=
  if c = '"'.toNat ∨ c = '\\'.toNat ∨ c = '/'.toNat then some c
  else if c = 'b'.toNat then some 0x08
  else if c = 'f'.toNat then some 0x0c
  else if c = 'n'.toNat then some 0x0a
  else if c = 'r'.toNat then some 0x0d
  else if c = 't'.toNat then some 0x09
  else none

/-- The code units of a string literal whose opening quote is read, escapes resolved. -/
def units : Text → Option (Text × Text)
  | [] => none
  | c :: s =>
    if c = '"'.toNat then some ([], s)
    else if c = '\\'.toNat then
      match s with
      | [] => none
      | e :: s =>
        if e = 'u'.toNat then
          match s with
          | h₁ :: h₂ :: h₃ :: h₄ :: s =>
            match hex4 h₁ h₂ h₃ h₄ with
            | none => none
            | some u => (units s).map fun (l, r) => (u :: l, r)
          | _ => none
        else
          match unescape e with
          | none => none
          | some u => (units s).map fun (l, r) => (u :: l, r)
    else if c < 0x20 then none
    else (units s).map fun (l, r) => (c :: l, r)

def isHigh (c : Nat) : Bool := 0xd800 ≤ c && c ≤ 0xdbff

def isLow (c : Nat) : Bool := 0xdc00 ≤ c && c ≤ 0xdfff

/-- The code points of a list of units: a high surrogate and the low one after it are one. -/
def joinPairs : Text → Text
  | [] => []
  | [c] => [c]
  | c :: d :: s =>
    if isHigh c && isLow d then (0x10000 + (c - 0xd800) * 0x400 + (d - 0xdc00)) :: joinPairs s else c :: joinPairs (d :: s)

def string (s : Text) : Option (Text × Text) := (units s).map fun (l, r) => (joinPairs l, r)

structure Literal where
  negative : Bool
  whole : Text
  fraction : Text
  exponent : Text
  deriving DecidableEq, Repr

def Literal.isInt (l : Literal) : Bool := l.fraction = [] && l.exponent = []

/-- `int(literal)`. -/
def Literal.int (l : Literal) : Int :=
  let n : Int := (Nat.ofDigitChars 10 (l.whole.map Char.ofNat) 0 : Nat)
  if l.negative then -n else n

def matchSign (s : Text) : Bool × Text :=
  match s with
  | c :: r => if c = '-'.toNat then (true, r) else (false, s)
  | [] => (false, s)

def matchWhole (s : Text) : Option (Text × Text) :=
  match s with
  | c :: r =>
    if c = '0'.toNat then some ([c], r)
    else if isDigit c then some (s.takeWhile isDigit, s.dropWhile isDigit)
    else none
  | [] => none

def matchFraction (s : Text) : Text × Text :=
  match s with
  | c :: r => if c = '.'.toNat ∧ r.takeWhile isDigit ≠ [] then (c :: r.takeWhile isDigit, r.dropWhile isDigit) else ([], s)
  | [] => ([], s)

def matchExponent (s : Text) : Text × Text :=
  match s with
  | e :: c :: r =>
    if e = 'e'.toNat ∨ e = 'E'.toNat then
      if (c = '+'.toNat ∨ c = '-'.toNat) ∧ r.takeWhile isDigit ≠ [] then (e :: c :: r.takeWhile isDigit, r.dropWhile isDigit)
      else if isDigit c then (e :: (c :: r).takeWhile isDigit, (c :: r).dropWhile isDigit)
      else ([], s)
    else ([], s)
  | _ => ([], s)

/-- `-?(?:0|[1-9][0-9]*)(?:\.[0-9]+)?(?:[eE][+-]?[0-9]+)?` at the start of the text. -/
def matchNumber (s : Text) : Option (Literal × Text) := do
  let (negative, s) := matchSign s
  let (whole, s) ← matchWhole s
  let (fraction, s) := matchFraction s
  let (exponent, s) := matchExponent s
  some (⟨negative, whole, fraction, exponent⟩, s)

/-- The rest of the text after a word, when it starts with it. -/
def after (w : Text) (s : Text) : Option Text := if w.isPrefixOf s then some (s.drop w.length) else none

/-! ## Reading -/

/-- What `json.loads` is given, and what it raises. -/
structure Hooks (F ε : Type) where
  decodeError : ε
  parseFloat : Literal → F
  parseConstant : Text → Except ε (Value F)
  pairs : List (Text × Value F) → Except ε (Value F)

variable {F ε : Type}

/-- The rest of a keyword, its first letter read. -/
def Hooks.keyword (h : Hooks F ε) (w : Text) (v : Except ε (Value F)) (s : Text) : Except ε (Value F × Text) :=
  match after w s with
  | some r => v.map fun v => (v, r)
  | none => .error h.decodeError

def Hooks.number (h : Hooks F ε) (s : Text) : Except ε (Value F × Text) :=
  match matchNumber s with
  | some (l, r) => .ok (if l.isInt then .int l.int else .float (h.parseFloat l), r)
  | none => .error h.decodeError

/-- A value that starts with none of `"`, `{` and `[`. -/
def scalar (h : Hooks F ε) (c : Nat) (r : Text) : Except ε (Value F × Text) :=
  if c = 'n'.toNat then h.keyword (text "ull") (.ok .null) r
  else if c = 't'.toNat then h.keyword (text "rue") (.ok (.bool true)) r
  else if c = 'f'.toNat then h.keyword (text "alse") (.ok (.bool false)) r
  else if c = 'N'.toNat then h.keyword (text "aN") (h.parseConstant (text "NaN")) r
  else if c = 'I'.toNat then h.keyword (text "nfinity") (h.parseConstant (text "Infinity")) r
  else if c = '-'.toNat ∧ (after (text "Infinity") r).isSome then
    h.keyword (text "Infinity") (h.parseConstant (text "-Infinity")) r
  else h.number (c :: r)

/-- The name of a member and the text after its colon. -/
def name (s : Text) : Option (Text × Text) :=
  match s with
  | c :: r =>
    if c = '"'.toNat then
      match string r with
      | some (k, r) =>
        match skip r with
        | d :: r => if d = ':'.toNat then some (k, skip r) else none
        | [] => none
      | none => none
    else none
  | [] => none

mutual

def value (h : Hooks F ε) : Nat → Text → Except ε (Value F × Text)
  | 0, _ => .error h.decodeError
  | n + 1, s =>
    match s with
    | [] => .error h.decodeError
    | c :: r =>
      if c = '"'.toNat then
        match string r with
        | some (t, r) => .ok (.str t, r)
        | none => .error h.decodeError
      else if c = '{'.toNat then
        match after (text "\x7d") (skip r) with
        | some r => (h.pairs []).map fun v => (v, r)
        | none =>
          match members h n (skip r) with
          | .error e => .error e
          | .ok (l, r) => (h.pairs l).map fun v => (v, r)
      else if c = '['.toNat then
        match after (text "]") (skip r) with
        | some r => .ok (.arr [], r)
        | none =>
          match items h n (skip r) with
          | .error e => .error e
          | .ok (l, r) => .ok (.arr l, r)
      else scalar h c r

def members (h : Hooks F ε) : Nat → Text → Except ε (List (Text × Value F) × Text)
  | 0, _ => .error h.decodeError
  | n + 1, s =>
    match name s with
    | none => .error h.decodeError
    | some (k, r) =>
      match value h n r with
      | .error e => .error e
      | .ok (v, r) =>
        match skip r with
        | [] => .error h.decodeError
        | d :: r =>
          if d = '}'.toNat then .ok ([(k, v)], r)
          else if d = ','.toNat then
            match members h n (skip r) with
            | .error e => .error e
            | .ok (l, r) => .ok ((k, v) :: l, r)
          else .error h.decodeError

def items (h : Hooks F ε) : Nat → Text → Except ε (List (Value F) × Text)
  | 0, _ => .error h.decodeError
  | n + 1, s =>
    match value h n s with
    | .error e => .error e
    | .ok (v, r) =>
      match skip r with
      | [] => .error h.decodeError
      | d :: r =>
        if d = ']'.toNat then .ok ([v], r)
        else if d = ','.toNat then
          match items h n (skip r) with
          | .error e => .error e
          | .ok (l, r) => .ok (v :: l, r)
        else .error h.decodeError

end

def loads (h : Hooks F ε) (s : Text) : Except ε (Value F) :=
  match value h (2 * s.length + 1) (skip s) with
  | .error e => .error e
  | .ok (v, r) => if skip r = [] then .ok v else .error h.decodeError


/-! ## Reading a longer text

What is read does not change when text is put after it, a number apart: that goes on
while digits do, so it has to be delimited. -/

def Delimiter (c : Nat) : Prop := isBlank c ∨ c = ','.toNat ∨ c = '}'.toNat ∨ c = ']'.toNat

theorem dropWhile_append {p : Nat → Bool} {s r : Text} {c : Nat} (h : s.dropWhile p = c :: r) (q : Text) :
    (s ++ q).dropWhile p = c :: (r ++ q) ∧ (s ++ q).takeWhile p = s.takeWhile p := by
  induction s with
  | nil => cases h
  | cons d s ih =>
    rw [List.cons_append]
    cases hd : p d with
    | true =>
      rw [List.dropWhile_cons_of_pos hd] at h
      rw [List.dropWhile_cons_of_pos hd, List.takeWhile_cons_of_pos hd, List.takeWhile_cons_of_pos hd, (ih h).2]
      exact ⟨(ih h).1, rfl⟩
    | false =>
      rw [List.dropWhile_cons_of_neg (by simp [hd])] at h ⊢
      rw [List.takeWhile_cons_of_neg (by simp [hd]), List.takeWhile_cons_of_neg (by simp [hd])]
      cases h
      exact ⟨rfl, rfl⟩

theorem dropWhile_length (p : Nat → Bool) (s : Text) : (s.dropWhile p).length ≤ s.length :=
  (List.dropWhile_suffix _).length_le

theorem skip_length (s : Text) : (skip s).length ≤ s.length := dropWhile_length _ s

theorem skip_append {s r : Text} {c : Nat} (h : skip s = c :: r) (q : Text) : skip (s ++ q) = c :: (r ++ q) :=
  (dropWhile_append h q).1

/-- A blank, or the first character that is none. -/
theorem skip_head {s r : Text} {c : Nat} (h : skip s = c :: r) : ∃ d t, s = d :: t ∧ (isBlank d ∨ d = c) := by
  cases s with
  | nil => cases h
  | cons d t =>
    refine ⟨d, t, rfl, ?_⟩
    cases hd : isBlank d with
    | true => exact .inl rfl
    | false =>
      rw [skip, List.dropWhile_cons_of_neg (by simp [hd])] at h
      cases h
      exact .inr rfl

theorem after_eq {w s r : Text} : after w s = some r ↔ s = w ++ r := by
  unfold after
  constructor
  · intro h
    split_ifs at h with hp
    cases h
    obtain ⟨t, rfl⟩ := List.isPrefixOf_iff_prefix.mp hp
    simp
  · rintro rfl
    rw [if_pos (List.isPrefixOf_iff_prefix.mpr (List.prefix_append w r))]
    simp

theorem units_append {s l r : Text} (h : units s = some (l, r)) (q : Text) :
    units (s ++ q) = some (l, r ++ q) ∧ r.length < s.length := by
  fun_induction units s generalizing l r with
  | case2 s =>
    cases h
    exact ⟨by rw [List.cons_append, units.eq_def]; simp, by simp⟩
  | case5 h₁ h₂ h₃ h₄ s u hx hne ih =>
    obtain ⟨⟨l, r⟩, hr, he⟩ := Option.map_eq_some_iff.mp h
    cases he
    obtain ⟨ih, hl⟩ := ih hr
    refine ⟨?_, by simp at hl ⊢; omega⟩
    simp only [List.cons_append]
    rw [units.eq_def]
    simp [hx, ih]
  | case8 e s he u hx hne ih =>
    obtain ⟨⟨l, r⟩, hr, hl⟩ := Option.map_eq_some_iff.mp h
    cases hl
    obtain ⟨ih, hl⟩ := ih hr
    refine ⟨?_, by simp at hl ⊢; omega⟩
    simp only [List.cons_append]
    rw [units.eq_def]
    simp only [hne, he, hx, ih, if_false, if_true, Option.map_some]
  | case10 c s hq hb hc ih =>
    obtain ⟨⟨l, r⟩, hr, hl⟩ := Option.map_eq_some_iff.mp h
    cases hl
    obtain ⟨ih, hl⟩ := ih hr
    refine ⟨?_, by simp at hl ⊢; omega⟩
    rw [List.cons_append, units.eq_def]
    simp only [hq, hb, hc, ih, if_false, Option.map_some]
  | _ => cases h

theorem string_append {s l r : Text} (h : string s = some (l, r)) (q : Text) :
    string (s ++ q) = some (l, r ++ q) ∧ r.length < s.length := by
  obtain ⟨⟨u, r⟩, hr, he⟩ := Option.map_eq_some_iff.mp h
  cases he
  obtain ⟨ha, hl⟩ := units_append hr q
  exact ⟨by simp [string, ha], hl⟩

theorem name_eq {s k r : Text} : name s = some (k, r) ↔
    ∃ s₁ s₂ s₃, s = '"'.toNat :: s₁ ∧ string s₁ = some (k, s₂) ∧ skip s₂ = ':'.toNat :: s₃ ∧ r = skip s₃ := by
  constructor
  · intro h
    unfold name at h
    split at h
    · next c s₁ =>
      split_ifs at h with hc
      subst hc
      split at h
      · next k s₂ hs =>
        split at h
        · next d s₃ hd =>
          split_ifs at h with hc
          subst hc
          cases h
          exact ⟨s₁, s₂, s₃, rfl, hs, hd, rfl⟩
        · cases h
      · cases h
    · cases h
  · rintro ⟨s₁, s₂, s₃, rfl, hs, hd, rfl⟩
    simp only [name, hs, hd, if_true]

theorem name_length {s k r : Text} (h : name s = some (k, r)) : r.length < s.length := by
  obtain ⟨s₁, s₂, s₃, rfl, hs, hd, rfl⟩ := name_eq.mp h
  have h0 := (string_append hs []).2
  have h1 := skip_length s₃
  have h2 := congrArg List.length hd
  have h3 := skip_length s₂
  simp only [List.length_cons] at h2 ⊢
  omega

theorem name_append {s k r : Text} (h : name s = some (k, r)) (hr : r ≠ []) (q : Text) :
    name (s ++ q) = some (k, r ++ q) := by
  obtain ⟨s₁, s₂, s₃, rfl, hs, hd, rfl⟩ := name_eq.mp h
  obtain ⟨c, t, ht⟩ := List.exists_cons_of_ne_nil hr
  refine name_eq.mpr ⟨s₁ ++ q, s₂ ++ q, s₃ ++ q, rfl, (string_append hs q).1, skip_append hd q, ?_⟩
  rw [ht, skip_append ht q]
  rfl

/-! ### Numbers -/

theorem matchSign_length (s : Text) : (matchSign s).2.length ≤ s.length := by
  unfold matchSign
  split
  · split_ifs <;> simp
  · simp

theorem matchWhole_length {s w r : Text} (h : matchWhole s = some (w, r)) : r.length < s.length := by
  unfold matchWhole at h
  split at h
  · next c s =>
    split_ifs at h with hz hd
    · cases h
      simp
    · cases h
      have hl := dropWhile_length isDigit s
      rw [List.dropWhile_cons_of_pos hd, List.length_cons]
      omega
  · cases h

theorem matchFraction_length (s : Text) : (matchFraction s).2.length ≤ s.length := by
  unfold matchFraction
  split
  · next c s =>
    have hl := dropWhile_length isDigit s
    split_ifs
    · simp only [List.length_cons]
      omega
    · simp
  · simp

theorem matchExponent_length (s : Text) : (matchExponent s).2.length ≤ s.length := by
  unfold matchExponent
  split
  · next e c s =>
    have hl := dropWhile_length isDigit s
    have hl' := dropWhile_length isDigit (c :: s)
    split_ifs
    · simp only [List.length_cons]
      omega
    · simp only [List.length_cons] at hl' ⊢
      omega
    · simp
    · simp
  · simp

theorem matchNumber_eq {s r : Text} {l : Literal} : matchNumber s = some (l, r) ↔ ∃ s₁ s₂ s₃,
    matchSign s = (l.negative, s₁) ∧ matchWhole s₁ = some (l.whole, s₂) ∧ matchFraction s₂ = (l.fraction, s₃) ∧
      matchExponent s₃ = (l.exponent, r) := by
  unfold matchNumber
  constructor
  · intro h
    obtain ⟨⟨w, s₂⟩, hw, h⟩ := Option.bind_eq_some_iff.mp h
    cases h
    exact ⟨_, _, _, rfl, hw, rfl, rfl⟩
  · rintro ⟨s₁, s₂, s₃, hs, hw, hf, he⟩
    simp [hs, hw, hf, he]

theorem matchNumber_length {s r : Text} {l : Literal} (h : matchNumber s = some (l, r)) : r.length < s.length := by
  obtain ⟨s₁, s₂, s₃, hs, hw, hf, he⟩ := matchNumber_eq.mp h
  have h1 := matchSign_length s
  have h2 := matchWhole_length hw
  have h3 := matchFraction_length s₂
  have h4 := matchExponent_length s₃
  rw [hs] at h1
  rw [hf] at h3
  rw [he] at h4
  dsimp only at h1 h3 h4
  omega

theorem matchSign_append {s r : Text} {b : Bool} (h : matchSign s = (b, r)) (hr : r ≠ []) (q : Text) :
    matchSign (s ++ q) = (b, r ++ q) := by
  unfold matchSign at h ⊢
  cases s with
  | nil => cases h; exact absurd rfl hr
  | cons c s =>
    simp only [List.cons_append] at h ⊢
    split_ifs at h ⊢ <;> cases h <;> rfl

theorem matchWhole_append {s w r : Text} (h : matchWhole s = some (w, r)) (hr : r ≠ []) (q : Text) :
    matchWhole (s ++ q) = some (w, r ++ q) := by
  unfold matchWhole at h ⊢
  cases s with
  | nil => cases h
  | cons c s =>
    simp only [List.cons_append] at h ⊢
    split_ifs at h ⊢ with hz hd
    · cases h
      rfl
    · cases h
      obtain ⟨d, t, ht⟩ := List.exists_cons_of_ne_nil hr
      obtain ⟨h1, h2⟩ := dropWhile_append ht q
      rw [List.cons_append] at h1 h2
      rw [h1, h2, ht]
      rfl

theorem matchFraction_append {s f r : Text} (h : matchFraction s = (f, r)) (hr : r ≠ [])
    (hdot : r.head? ≠ some '.'.toNat) (q : Text) : matchFraction (s ++ q) = (f, r ++ q) := by
  unfold matchFraction at h ⊢
  cases s with
  | nil => cases h; exact absurd rfl hr
  | cons c s =>
    simp only [List.cons_append] at h ⊢
    split_ifs at h with hc
    · cases h
      obtain ⟨d, t, ht⟩ := List.exists_cons_of_ne_nil hr
      obtain ⟨h1, h2⟩ := dropWhile_append ht q
      rw [h1, h2, if_pos hc, ht]
      rfl
    · cases h
      have hc : ¬(c = '.'.toNat ∧ (s ++ q).takeWhile isDigit ≠ []) := fun hn => hdot (by rw [hn.1]; rfl)
      rw [if_neg hc]
      rfl

theorem matchExponent_append {s e r : Text} {d : Nat} (h : matchExponent s = (e, d :: r)) (hd : Delimiter d) (q : Text) :
    matchExponent (s ++ q) = (e, d :: r ++ q) := by
  have he : d ≠ 'e'.toNat ∧ d ≠ 'E'.toNat := by
    constructor <;> rintro rfl <;> simp [Delimiter, isBlank] at hd
  match s with
  | [] => cases h
  | [c] =>
    cases h
    cases q with
    | nil => rfl
    | cons b q => simp [matchExponent] at he ⊢; simp [he]
  | c :: b :: s =>
    simp only [matchExponent, List.cons_append] at h ⊢
    split_ifs at h with h1 h2 h3
    · obtain ⟨h3, h4⟩ := Prod.mk.inj h
      obtain ⟨ha, hb⟩ := dropWhile_append h4 q
      rw [if_pos h1, ha, hb, if_pos h2, h3]
    · obtain ⟨h4, h5⟩ := Prod.mk.inj h
      obtain ⟨ha, hb⟩ := dropWhile_append h5 q
      have hs : ¬(b = '+'.toNat ∨ b = '-'.toNat) := by
        rintro (rfl | rfl) <;> simp [isDigit] at h3
      rw [List.cons_append] at ha hb
      rw [if_pos h1, if_neg fun hn => hs hn.1, if_pos h3, ha, hb, h4]
    · cases h
      exact absurd h1 (not_or.mpr he)
    · cases h
      rw [if_neg h1]
      rfl

theorem matchNumber_append {s r : Text} {l : Literal} {d : Nat} (h : matchNumber s = some (l, d :: r)) (hd : Delimiter d)
    (q : Text) : matchNumber (s ++ q) = some (l, d :: r ++ q) := by
  obtain ⟨s₁, s₂, s₃, hs, hw, hf, he⟩ := matchNumber_eq.mp h
  have hn3 : s₃ ≠ [] := by
    rintro rfl
    cases (Prod.mk.inj he).2
  have hdot : s₃.head? ≠ some '.'.toNat := by
    intro hh
    cases s₃ with
    | nil => cases hh
    | cons c s₃ =>
      cases hh
      have hx : matchExponent ('.'.toNat :: s₃) = ([], '.'.toNat :: s₃) := by
        cases s₃ <;> rfl
      rw [hx] at he
      cases (Prod.mk.inj he).2
      simp [Delimiter, isBlank] at hd
  have hn2 : s₂ ≠ [] := by
    rintro rfl
    exact hn3 (Prod.mk.inj hf).2.symm
  have hn1 : s₁ ≠ [] := by
    rintro rfl
    cases hw
  exact matchNumber_eq.mpr ⟨_, _, _, matchSign_append hs hn1 q, matchWhole_append hw hn2 q,
    matchFraction_append hf hn3 hdot q, matchExponent_append he hd q⟩


/-! ### Values -/

variable {h : Hooks F ε}

theorem keyword_length {w s r : Text} {v : Except ε (Value F)} {x : Value F} (hk : h.keyword w v s = .ok (x, r)) :
    r.length ≤ s.length := by
  unfold Hooks.keyword at hk
  split at hk
  · next t ht =>
    rw [after_eq] at ht
    subst ht
    cases v with
    | error e => cases hk
    | ok v => cases hk; simp
  · cases hk

theorem keyword_append {w s r : Text} {v : Except ε (Value F)} {x : Value F} (hk : h.keyword w v s = .ok (x, r))
    (q : Text) : h.keyword w v (s ++ q) = .ok (x, r ++ q) := by
  unfold Hooks.keyword at hk ⊢
  split at hk
  · next t ht =>
    rw [after_eq] at ht
    subst ht
    rw [after_eq.mpr (List.append_assoc w t q)]
    cases v with
    | error e => cases hk
    | ok v => cases hk; rfl
  · cases hk

theorem number_length {s r : Text} {x : Value F} (hn : h.number s = .ok (x, r)) : r.length < s.length := by
  unfold Hooks.number at hn
  split at hn
  · next hm =>
    cases hn
    exact matchNumber_length hm
  · cases hn

theorem number_append {s r : Text} {x : Value F} {d : Nat} (hn : h.number s = .ok (x, d :: r)) (hd : Delimiter d)
    (q : Text) : h.number (s ++ q) = .ok (x, d :: r ++ q) := by
  unfold Hooks.number at hn ⊢
  split at hn
  · next hm =>
    cases hn
    rw [matchNumber_append hm hd q]
  · cases hn

theorem scalar_length {c : Nat} {s r : Text} {x : Value F} (hs : scalar h c s = .ok (x, r)) : r.length ≤ s.length := by
  unfold scalar at hs
  split_ifs at hs
  · exact keyword_length hs
  · exact keyword_length hs
  · exact keyword_length hs
  · exact keyword_length hs
  · exact keyword_length hs
  · exact keyword_length hs
  · exact Nat.le_of_lt_succ (number_length hs)

theorem scalar_append {c : Nat} {s r : Text} {x : Value F} {d : Nat} (hs : scalar h c s = .ok (x, d :: r))
    (hd : Delimiter d) (q : Text) : scalar h c (s ++ q) = .ok (x, d :: r ++ q) := by
  unfold scalar at hs ⊢
  split_ifs at hs with h1 h2 h3 h4 h5 h6
  · rw [if_pos h1]; exact keyword_append hs q
  · rw [if_neg h1, if_pos h2]; exact keyword_append hs q
  · rw [if_neg h1, if_neg h2, if_pos h3]; exact keyword_append hs q
  · rw [if_neg h1, if_neg h2, if_neg h3, if_pos h4]; exact keyword_append hs q
  · rw [if_neg h1, if_neg h2, if_neg h3, if_neg h4, if_pos h5]; exact keyword_append hs q
  · rw [if_neg h1, if_neg h2, if_neg h3, if_neg h4, if_neg h5, if_pos]
    · exact keyword_append hs q
    · obtain ⟨t, ht⟩ := Option.isSome_iff_exists.mp h6.2
      rw [after_eq.mp ht, List.append_assoc, after_eq.mpr rfl]
      exact ⟨h6.1, rfl⟩
  · rw [if_neg h1, if_neg h2, if_neg h3, if_neg h4, if_neg h5, if_neg]
    · exact number_append hs hd q
    · -- a number that starts with `-` goes on with a digit
      rintro ⟨rfl, hi⟩
      obtain ⟨t, ht⟩ := Option.isSome_iff_exists.mp hi
      rw [after_eq] at ht
      unfold Hooks.number at hs
      split at hs
      · next hm =>
        obtain ⟨s₁, s₂, s₃, h1, hw, -⟩ := matchNumber_eq.mp hm
        cases (Prod.mk.inj h1).2
        cases s with
        | nil => cases hw
        | cons c s =>
          cases (List.cons.inj ht).1
          cases hw
      · cases hs


/-- How a value starts, and what its rest is. -/
theorem value_ok {n : Nat} {s r : Text} {x : Value F} : value h (n + 1) s = .ok (x, r) ↔ ∃ c t, s = c :: t ∧
    ((c = '"'.toNat ∧ ∃ u, string t = some (u, r) ∧ x = .str u) ∨
     (c = '{'.toNat ∧ after (text "\x7d") (skip t) = some r ∧ h.pairs [] = .ok x) ∨
     (c = '{'.toNat ∧ after (text "\x7d") (skip t) = none ∧ ∃ l, members h n (skip t) = .ok (l, r) ∧ h.pairs l = .ok x) ∨
     (c = '['.toNat ∧ after (text "]") (skip t) = some r ∧ x = .arr []) ∨
     (c = '['.toNat ∧ after (text "]") (skip t) = none ∧ ∃ l, items h n (skip t) = .ok (l, r) ∧ x = .arr l) ∨
     (c ≠ '"'.toNat ∧ c ≠ '{'.toNat ∧ c ≠ '['.toNat ∧ scalar h c t = .ok (x, r))) := by
  cases s with
  | nil => rw [value]; simp
  | cons c t =>
    rw [value]
    constructor
    · intro hv
      refine ⟨c, t, rfl, ?_⟩
      split_ifs at hv with h1 h2 h3
      · split at hv
        · next hs => cases hv; exact .inl ⟨h1, _, hs, rfl⟩
        · cases hv
      · split at hv
        · next ha =>
          cases hp : h.pairs [] with
          | error e => rw [hp] at hv; cases hv
          | ok v => rw [hp] at hv; cases hv; exact .inr (.inl ⟨h2, ha, rfl⟩)
        · next ha =>
          split at hv
          · cases hv
          · next l r hm =>
            cases hp : h.pairs l with
            | error e => rw [hp] at hv; cases hv
            | ok v => rw [hp] at hv; cases hv; exact .inr (.inr (.inl ⟨h2, ha, l, hm, hp⟩))
      · split at hv
        · next ha => cases hv; exact .inr (.inr (.inr (.inl ⟨h3, ha, rfl⟩)))
        · next ha =>
          split at hv
          · cases hv
          · next l r hm => cases hv; exact .inr (.inr (.inr (.inr (.inl ⟨h3, ha, l, hm, rfl⟩))))
      · exact .inr (.inr (.inr (.inr (.inr ⟨h1, h2, h3, hv⟩))))
    · rintro ⟨c, t, he, hv⟩
      cases he
      rcases hv with ⟨rfl, u, hs, rfl⟩ | ⟨rfl, ha, hp⟩ | ⟨rfl, ha, l, hm, hp⟩ | ⟨rfl, ha, rfl⟩ | ⟨rfl, ha, l, hi, rfl⟩ |
        ⟨h1, h2, h3, hs⟩
      · simp [hs]
      · simp [ha, hp, Except.map]
      · simp [ha, hm, hp, Except.map]
      · simp [ha]
      · simp [ha, hi]
      · rw [if_neg h1, if_neg h2, if_neg h3, hs]

theorem members_ok {n : Nat} {s r : Text} {l : List (Text × Value F)} : members h (n + 1) s = .ok (l, r) ↔
    ∃ k v t u, name s = some (k, t) ∧ value h n t = .ok (v, u) ∧
      ((skip u = '}'.toNat :: r ∧ l = [(k, v)]) ∨
        ∃ w m, skip u = ','.toNat :: w ∧ members h n (skip w) = .ok (m, r) ∧ l = (k, v) :: m) := by
  rw [members]
  constructor
  · intro hm
    split at hm
    · cases hm
    · next k t hk =>
      split at hm
      · cases hm
      · next v u hv =>
        split at hm
        · cases hm
        · next d w hd =>
          split_ifs at hm with h1 h2
          · cases hm
            exact ⟨k, v, t, u, hk, hv, .inl ⟨by rw [hd, h1], rfl⟩⟩
          · split at hm
            · cases hm
            · next m r hr =>
              cases hm
              exact ⟨k, v, t, u, hk, hv, .inr ⟨w, m, by rw [hd, h2], hr, rfl⟩⟩
  · rintro ⟨k, v, t, u, hk, hv, ⟨hd, rfl⟩ | ⟨w, m, hd, hm, rfl⟩⟩
    · simp [hk, hv, hd]
    · simp [hk, hv, hd, hm]

theorem items_ok {n : Nat} {s r : Text} {l : List (Value F)} : items h (n + 1) s = .ok (l, r) ↔
    ∃ v u, value h n s = .ok (v, u) ∧
      ((skip u = ']'.toNat :: r ∧ l = [v]) ∨
        ∃ w m, skip u = ','.toNat :: w ∧ items h n (skip w) = .ok (m, r) ∧ l = v :: m) := by
  rw [items]
  constructor
  · intro hi
    split at hi
    · cases hi
    · next v u hv =>
      split at hi
      · cases hi
      · next d w hd =>
        split_ifs at hi with h1 h2
        · cases hi
          exact ⟨v, u, hv, .inl ⟨by rw [hd, h1], rfl⟩⟩
        · split at hi
          · cases hi
          · next m r hr =>
            cases hi
            exact ⟨v, u, hv, .inr ⟨w, m, by rw [hd, h2], hr, rfl⟩⟩
  · rintro ⟨v, u, hv, ⟨hd, rfl⟩ | ⟨w, m, hd, hm, rfl⟩⟩
    · simp [hv, hd]
    · simp [hv, hd, hm]

/-- What is left is shorter by what was read. -/
theorem read_length (n : Nat) :
    (∀ s (x : Value F) r, value h n s = .ok (x, r) → r.length < s.length) ∧
    (∀ s l r, members h n s = .ok (l, r) → r.length < s.length) ∧
    ∀ s l r, items h n s = .ok (l, r) → r.length < s.length := by
  induction n with
  | zero => refine ⟨?_, ?_, ?_⟩ <;> intro s x r hr <;> cases hr
  | succ n ih =>
    obtain ⟨ihv, ihm, ihi⟩ := ih
    refine ⟨?_, ?_, ?_⟩
    · intro s x r hr
      obtain ⟨c, t, rfl, hc⟩ := value_ok.mp hr
      have hl := skip_length t
      rw [List.length_cons]
      rcases hc with ⟨-, u, hs, -⟩ | ⟨-, ha, -⟩ | ⟨-, -, l, hm, -⟩ | ⟨-, ha, -⟩ | ⟨-, -, l, hi, -⟩ | ⟨-, -, -, hs⟩
      · have := (string_append hs []).2
        omega
      · rw [after_eq.mp ha, List.length_append] at hl
        omega
      · have := ihm _ _ _ hm
        omega
      · rw [after_eq.mp ha, List.length_append] at hl
        omega
      · have := ihi _ _ _ hi
        omega
      · have := scalar_length hs
        omega
    · intro s l r hr
      obtain ⟨k, v, t, u, hk, hv, hr⟩ := members_ok.mp hr
      have h2 := ihv _ _ _ hv
      have h1 := name_length hk
      have h3 := skip_length u
      rcases hr with ⟨hd, -⟩ | ⟨w, m, hd, hm, -⟩
      · rw [hd, List.length_cons] at h3
        omega
      · have h4 := ihm _ _ _ hm
        have h5 := skip_length w
        rw [hd, List.length_cons] at h3
        omega
    · intro s l r hr
      obtain ⟨v, u, hv, hr⟩ := items_ok.mp hr
      have h2 := ihv _ _ _ hv
      have h3 := skip_length u
      rcases hr with ⟨hd, -⟩ | ⟨w, m, hd, hm, -⟩
      · rw [hd, List.length_cons] at h3
        omega
      · have h4 := ihi _ _ _ hm
        have h5 := skip_length w
        rw [hd, List.length_cons] at h3
        omega


theorem skip_append' {s : Text} (hs : skip s ≠ []) (q : Text) : skip (s ++ q) = skip s ++ q := by
  obtain ⟨c, y, hc⟩ := List.exists_cons_of_ne_nil hs
  rw [skip_append hc q, hc]
  rfl

/-- One character, told from the first of a longer text. -/
theorem after_append {d : Nat} {s : Text} (hs : s ≠ []) (ha : after [d] s = none) (q : Text) : after [d] (s ++ q) = none := by
  obtain ⟨c, y, rfl⟩ := List.exists_cons_of_ne_nil hs
  cases hx : after [d] (c :: y ++ q) with
  | none => rfl
  | some t =>
    cases (List.cons.inj (after_eq.mp hx)).1
    rw [after_eq.mpr (show d :: y = [d] ++ y from rfl)] at ha
    cases ha

/-- More text after what is read changes nothing; after a number it has to be delimited. -/
theorem read_append (n : Nat) :
    (∀ s (x : Value F) r, value h n s = .ok (x, r) →
      ((∃ c ∈ s.head?, c = '"'.toNat ∨ c = '{'.toNat ∨ c = '['.toNat) ∨ ∃ d ∈ r.head?, Delimiter d) →
      ∀ q, value h n (s ++ q) = .ok (x, r ++ q)) ∧
    (∀ s l r, members h n s = .ok (l, r) → ∀ q, members h n (s ++ q) = .ok (l, r ++ q)) ∧
    ∀ s l r, items h n s = .ok (l, r) → ∀ q, items h n (s ++ q) = .ok (l, r ++ q) := by
  induction n with
  | zero => refine ⟨?_, ?_, ?_⟩ <;> intro s x r hr <;> cases hr
  | succ n ih =>
    obtain ⟨ihv, ihm, ihi⟩ := ih
    -- the value of a member or of an item is delimited by what is read after it
    have hval : ∀ {s u w : Text} {v : Value F} {d : Nat}, value h n s = .ok (v, u) → skip u = d :: w →
        Delimiter d → ∀ q, value h n (s ++ q) = .ok (v, u ++ q) := by
      intro s u w v d hv hd hc q
      obtain ⟨e, t, rfl, he⟩ := skip_head hd
      refine ihv _ _ _ hv (.inr ⟨e, rfl, ?_⟩) q
      rcases he with he | rfl
      · exact .inl he
      · exact hc
    have hcomma : Delimiter ','.toNat := .inr (.inl rfl)
    have hms : ∀ {s r : Text} {l : List (Text × Value F)}, members h n (skip s) = .ok (l, r) → skip s ≠ [] := by
      intro s r l hm hs
      simpa [hs] using (read_length n).2.1 _ _ _ hm
    have his : ∀ {s r : Text} {l : List (Value F)}, items h n (skip s) = .ok (l, r) → skip s ≠ [] := by
      intro s r l hm hs
      simpa [hs] using (read_length n).2.2 _ _ _ hm
    refine ⟨?_, ?_, ?_⟩
    · intro s x r hr hc q
      obtain ⟨c, t, rfl, hv⟩ := value_ok.mp hr
      refine value_ok.mpr ⟨c, t ++ q, rfl, ?_⟩
      rcases hv with ⟨h1, u, hs, rfl⟩ | ⟨h1, ha, hp⟩ | ⟨h1, ha, l, hm, hp⟩ | ⟨h1, ha, rfl⟩ | ⟨h1, ha, l, hi, rfl⟩ |
        ⟨h1, h2, h3, hs⟩
      · exact .inl ⟨h1, u, (string_append hs q).1, rfl⟩
      · refine .inr (.inl ⟨h1, ?_, hp⟩)
        rw [skip_append (after_eq.mp ha) q]
        exact after_eq.mpr rfl
      · refine .inr (.inr (.inl ⟨h1, ?_, l, ?_, hp⟩))
        · rw [skip_append' (hms hm) q]
          exact after_append (hms hm) ha q
        · rw [skip_append' (hms hm) q]
          exact ihm _ _ _ hm q
      · refine .inr (.inr (.inr (.inl ⟨h1, ?_, rfl⟩)))
        rw [skip_append (after_eq.mp ha) q]
        exact after_eq.mpr rfl
      · refine .inr (.inr (.inr (.inr (.inl ⟨h1, ?_, l, ?_, rfl⟩))))
        · rw [skip_append' (his hi) q]
          exact after_append (his hi) ha q
        · rw [skip_append' (his hi) q]
          exact ihi _ _ _ hi q
      · refine .inr (.inr (.inr (.inr (.inr ⟨h1, h2, h3, ?_⟩))))
        rcases hc with ⟨d, hd, h4⟩ | ⟨d, hd, h4⟩
        · cases hd
          rcases h4 with h4 | h4 | h4
          · exact absurd h4 h1
          · exact absurd h4 h2
          · exact absurd h4 h3
        · cases r with
          | nil => cases hd
          | cons e r =>
            cases hd
            exact scalar_append hs h4 q
    · intro s l r hr q
      obtain ⟨k, v, t, u, hk, hv, hu⟩ := members_ok.mp hr
      have ht : t ≠ [] := by rintro rfl; simpa using (read_length n).1 _ _ _ hv
      refine members_ok.mpr ⟨k, v, t ++ q, u ++ q, name_append hk ht q, ?_, ?_⟩
      · rcases hu with ⟨hd, -⟩ | ⟨w, m, hd, -⟩
        · exact hval hv hd (.inr (.inr (.inl rfl))) q
        · exact hval hv hd hcomma q
      · rcases hu with ⟨hd, rfl⟩ | ⟨w, m, hd, hm, rfl⟩
        · exact .inl ⟨skip_append hd q, rfl⟩
        · refine .inr ⟨w ++ q, m, skip_append hd q, ?_, rfl⟩
          rw [skip_append' (hms hm) q]
          exact ihm _ _ _ hm q
    · intro s l r hr q
      obtain ⟨v, u, hv, hu⟩ := items_ok.mp hr
      refine items_ok.mpr ⟨v, u ++ q, ?_, ?_⟩
      · rcases hu with ⟨hd, -⟩ | ⟨w, m, hd, -⟩
        · exact hval hv hd (.inr (.inr (.inr rfl))) q
        · exact hval hv hd hcomma q
      · rcases hu with ⟨hd, rfl⟩ | ⟨w, m, hd, hm, rfl⟩
        · exact .inl ⟨skip_append hd q, rfl⟩
        · refine .inr ⟨w ++ q, m, skip_append hd q, ?_, rfl⟩
          rw [skip_append' (his hm) q]
          exact ihi _ _ _ hm q


/-- A depth above twice the length of the text is never used up. -/
theorem read_depth (n : Nat) :
    (∀ m s, 2 * s.length < n → n ≤ m → value h n s = value h m s) ∧
    (∀ m s, 2 * s.length < n → n ≤ m → members h n s = members h m s) ∧
    ∀ m s, 2 * s.length + 1 < n → n ≤ m → items h n s = items h m s := by
  induction n with
  | zero => refine ⟨?_, ?_, ?_⟩ <;> intro m s hs <;> cases hs
  | succ n ih =>
    obtain ⟨ihv, ihm, ihi⟩ := ih
    refine ⟨?_, ?_, ?_⟩
    · intro m s hs hm
      obtain ⟨m, rfl⟩ : ∃ k, m = k + 1 := ⟨m - 1, by omega⟩
      cases s with
      | nil => rw [value, value]
      | cons c t =>
        have hl := skip_length t
        rw [List.length_cons] at hs
        rw [value, value, ihm m (skip t) (by omega) (by omega), ihi m (skip t) (by omega) (by omega)]
    · intro m s hs hm
      obtain ⟨m, rfl⟩ : ∃ k, m = k + 1 := ⟨m - 1, by omega⟩
      rw [members, members]
      cases hk : name s with
      | none => rfl
      | some p =>
        obtain ⟨k, r⟩ := p
        have hl := name_length hk
        simp only
        rw [ihv m r (by omega) (by omega)]
        cases hv : value h m r with
        | error e => rfl
        | ok p =>
          obtain ⟨v, u⟩ := p
          have hl2 := (read_length m).1 _ _ _ hv
          simp only
          cases hd : skip u with
          | nil => rfl
          | cons d w =>
            have hl3 := skip_length u
            have hl4 := skip_length w
            rw [hd, List.length_cons] at hl3
            simp only
            rw [ihm m (skip w) (by omega) (by omega)]
    · intro m s hs hm
      obtain ⟨m, rfl⟩ : ∃ k, m = k + 1 := ⟨m - 1, by omega⟩
      rw [items, items, ihv m s (by omega) (by omega)]
      cases hv : value h m s with
      | error e => rfl
      | ok p =>
        obtain ⟨v, u⟩ := p
        have hl2 := (read_length m).1 _ _ _ hv
        simp only
        cases hd : skip u with
        | nil => rfl
        | cons d w =>
          have hl3 := skip_length u
          have hl4 := skip_length w
          rw [hd, List.length_cons] at hl3
          simp only
          rw [ihi m (skip w) (by omega) (by omega)]

/-- `loads` with any greater depth. -/
theorem loads_depth {s : Text} {n : Nat} (hn : 2 * s.length < n) :
    loads h s = match value h n (skip s) with
      | .error e => .error e
      | .ok (v, r) => if skip r = [] then .ok v else .error h.decodeError := by
  have hl := skip_length s
  rw [loads, (read_depth _).1 n (skip s) (by omega) (by omega)]

end BettingHelper.Lib.Json
