/-
  BettingHelper.Lib.JsonText — the canonical text of a JSON value, and its bytes.

  Proved:
  - `loads_dumps`: the canonical text of a plain value is read back as that value.
  - `loads_torn`: no proper beginning of the text of an object is read at all.
  - `decode_torn`: a beginning of UTF-8 bytes that decodes is the bytes of a beginning of
    the text.
-/

import Mathlib
import BettingHelper.Lib.Json

namespace BettingHelper.Lib.Json

variable {F ε : Type}

/-! ## Writing -/

def utf16Units (c : Nat) : Text :=
  if c < 0x10000 then [c] else [0xd800 + (c - 0x10000) / 0x400, 0xdc00 + (c - 0x10000) % 0x400]

def utf16 (s : Text) : Text := s.flatMap utf16Units

/-- A code point that is no surrogate. -/
def isScalar (c : Nat) : Bool := c < 0xd800 || (0xe000 ≤ c && c < 0x110000)

def hexChar (n : Nat) : Nat := if n < 10 then 0x30 + n else 0x57 + n

def escape (c : Nat) : Text :=
  if c = '"'.toNat then text "\\\""
  else if c = '\\'.toNat then text "\\\\"
  else if c = 0x08 then text "\\b"
  else if c = 0x09 then text "\\t"
  else if c = 0x0a then text "\\n"
  else if c = 0x0c then text "\\f"
  else if c = 0x0d then text "\\r"
  else if c < 0x20 then text "\\u00" ++ [hexChar (c / 16), hexChar (c % 16)]
  else [c]

def quote (s : Text) : Text := '"'.toNat :: (s.flatMap escape ++ ['"'.toNat])

def dumpText (s : Text) : Option Text := if s.all isScalar then some (quote s) else none

def decimal (n : Int) : Text :=
  (if n < 0 then ['-'.toNat] else []) ++ (Nat.toDigits 10 n.natAbs).map Char.toNat

def commas : List Text → Text
  | [] => []
  | [t] => t
  | t :: l => t ++ ','.toNat :: commas l

/-- The greatest integer that is a double and has no neighbour that rounds to it. -/
def maxSafe : Nat := 2 ^ 53 - 1

mutual

/-- `rfc8785.dumps`: `none` where it raises. -/
def dumps (floatText : F → Option Text) : Value F → Option Text
  | .null => some (text "null")
  | .bool b => some (if b then text "true" else text "false")
  | .int n => if n.natAbs ≤ maxSafe then some (decimal n) else none
  | .float x => floatText x
  | .str s => dumpText s
  | .arr l => (dumpItems floatText l).map fun ts => '['.toNat :: (commas ts ++ [']'.toNat])
  | .obj l => (dumpMembers floatText l).map fun ms =>
      '{'.toNat :: (commas ((ms.insertionSort fun a b => a.1 ≤ b.1).map (·.2)) ++ ['}'.toNat])

def dumpItems (floatText : F → Option Text) : List (Value F) → Option (List Text)
  | [] => some []
  | v :: l => do
    let t ← dumps floatText v
    let ts ← dumpItems floatText l
    some (t :: ts)

/-- Each member with the units its name is sorted by. -/
def dumpMembers (floatText : F → Option Text) : List (Text × Value F) → Option (List (Text × Text))
  | [] => some []
  | (k, v) :: l => do
    let k' ← dumpText k
    let t ← dumps floatText v
    let ms ← dumpMembers floatText l
    some ((utf16 k, k' ++ ':'.toNat :: t) :: ms)

end

/-! ## Reading back what is written -/

theorem hexDigit_hexChar {n : Nat} (hn : n < 16) : hexDigit (hexChar n) = some n := by
  unfold hexDigit hexChar
  split_ifs <;> first | omega | (congr 1; omega)

theorem units_escape (c : Nat) (s : Text) : units (escape c ++ s) = (units s).map fun (l, r) => (c :: l, r) := by
  unfold escape
  split_ifs with h1 h2 h3 h4 h5 h6 h7 h8
  · subst h1
    rw [units.eq_def]
    rfl
  · subst h2
    rw [units.eq_def]
    rfl
  · subst h3
    rw [units.eq_def]
    rfl
  · subst h4
    rw [units.eq_def]
    rfl
  · subst h5
    rw [units.eq_def]
    rfl
  · subst h6
    rw [units.eq_def]
    rfl
  · subst h7
    rw [units.eq_def]
    rfl
  · have hx : hex4 0x30 0x30 (hexChar (c / 16)) (hexChar (c % 16)) = some c := by
      have h0 : hexDigit 0x30 = some 0 := rfl
      simp only [hex4, h0, hexDigit_hexChar (show c / 16 < 16 by omega), hexDigit_hexChar (show c % 16 < 16 by omega)]
      show some _ = some c
      congr 1
      omega
    show units ('\\'.toNat :: 'u'.toNat :: 0x30 :: 0x30 :: hexChar (c / 16) :: hexChar (c % 16) :: s) = _
    rw [units.eq_def]
    simp only [hx]
    rfl
  · rw [List.singleton_append, units.eq_def]
    simp only [h1, h2, h8, if_false]

theorem units_quote (s r : Text) : units (s.flatMap escape ++ '"'.toNat :: r) = some (s, r) := by
  induction s with
  | nil => rw [List.flatMap_nil, List.nil_append, units.eq_def]; rfl
  | cons c s ih => rw [List.flatMap_cons, List.append_assoc, units_escape, ih]; rfl

theorem joinPairs_scalar {s : Text} (hs : s.all isScalar) : joinPairs s = s := by
  induction s with
  | nil => rfl
  | cons c s ih =>
    rw [List.all_cons, Bool.and_eq_true] at hs
    cases s with
    | nil => rfl
    | cons d s =>
      have hc : isHigh c = false := by
        have := hs.1
        simp [isScalar, isHigh] at this ⊢
        omega
      rw [joinPairs, hc, Bool.false_and, if_neg (by simp), ih hs.2]

theorem string_quote {s : Text} (hs : s.all isScalar) (r : Text) :
    string (s.flatMap escape ++ '"'.toNat :: r) = some (s, r) := by
  rw [string, units_quote]
  exact congrArg (fun l => some (l, r)) (joinPairs_scalar hs)


/-! ### Numbers -/

/-- What may follow a value. -/
def Ends (r : Text) : Prop := ∀ c ∈ r.head?, c = ','.toNat ∨ c = '}'.toNat ∨ c = ']'.toNat

theorem Ends.nil : Ends [] := by intro c hc; cases hc

theorem Ends.cons {c : Nat} {r : Text} (hc : c = ','.toNat ∨ c = '}'.toNat ∨ c = ']'.toNat) : Ends (c :: r) := by
  intro d hd
  cases hd
  exact hc

theorem digits_isDigit (m : Nat) : ∀ c ∈ (Nat.toDigits 10 m).map Char.toNat, isDigit c := by
  intro c hc
  obtain ⟨d, hd, rfl⟩ := List.mem_map.mp hc
  have := Nat.isDigit_of_mem_toDigits (by decide) (by decide) hd
  simp [Char.isDigit, UInt32.le_iff_toNat_le] at this
  simp [isDigit]
  exact this

theorem digits_head {m : Nat} (hm : 0 < m) : ((Nat.toDigits 10 m).map Char.toNat).head? ≠ some '0'.toNat := by
  induction m using Nat.strong_induction_on with
  | _ m ih =>
    rcases Nat.lt_or_ge m 10 with hlt | hge
    · rw [Nat.toDigits_of_lt_base hlt]
      have : ∀ d < 10, 0 < d → (['0'.toNat] : Text) ≠ [(Nat.digitChar d).toNat] := by decide
      intro hz
      exact this m hlt hm (congrArg (fun o => o.toList) hz).symm
    · rw [Nat.toDigits_of_base_le (by decide) hge, List.map_append]
      have := ih (m / 10) (by omega) (by omega)
      cases hd : (Nat.toDigits 10 (m / 10)).map Char.toNat with
      | nil => simp [Nat.toDigits_ne_nil] at hd
      | cons c t =>
        rw [hd] at this
        exact this

theorem spanDigits {ds r : Text} (hd : ∀ c ∈ ds, isDigit c) (hr : ∀ c ∈ r.head?, ¬isDigit c) :
    (ds ++ r).takeWhile isDigit = ds ∧ (ds ++ r).dropWhile isDigit = r := by
  rw [List.takeWhile_append_of_pos hd, List.dropWhile_append_of_pos hd]
  cases r with
  | nil => simp
  | cons c r =>
    have hc := hr c rfl
    rw [List.takeWhile_cons_of_neg hc, List.dropWhile_cons_of_neg hc, List.append_nil]
    exact ⟨rfl, rfl⟩

theorem matchWhole_digits (m : Nat) {r : Text} (hr : ∀ c ∈ r.head?, ¬isDigit c) :
    matchWhole ((Nat.toDigits 10 m).map Char.toNat ++ r) = some ((Nat.toDigits 10 m).map Char.toNat, r) := by
  rcases Nat.eq_zero_or_pos m with rfl | hm
  · rfl
  · obtain ⟨h1, h2⟩ := spanDigits (digits_isDigit m) hr
    have hh := digits_head hm
    have hd := digits_isDigit m
    cases hds : (Nat.toDigits 10 m).map Char.toNat with
    | nil => simp [Nat.toDigits_ne_nil] at hds
    | cons c t =>
      rw [hds] at h1 h2 hh hd
      have hc : c ≠ '0'.toNat := fun hc => hh (by rw [hc]; rfl)
      rw [List.cons_append] at h1 h2 ⊢
      rw [matchWhole, if_neg hc, if_pos (hd c List.mem_cons_self), h1, h2]

/-- A digit, or a sign and a digit. -/
theorem decimal_cons (n : Int) : ∃ d u, isDigit d ∧ (decimal n = d :: u ∨ decimal n = '-'.toNat :: d :: u) := by
  cases hds : (Nat.toDigits 10 n.natAbs).map Char.toNat with
  | nil => simp [Nat.toDigits_ne_nil] at hds
  | cons d u =>
    refine ⟨d, u, digits_isDigit n.natAbs d (by rw [hds]; exact List.mem_cons_self), ?_⟩
    unfold decimal
    rw [hds]
    split_ifs
    · exact .inr rfl
    · exact .inl rfl

theorem matchNumber_decimal (n : Int) {r : Text} (hr : Ends r) :
    matchNumber (decimal n ++ r) = some (⟨n < 0, (Nat.toDigits 10 n.natAbs).map Char.toNat, [], []⟩, r) := by
  have hdig : ∀ c ∈ r.head?, ¬isDigit c := by
    intro c hc
    rcases hr c hc with rfl | rfl | rfl <;> decide
  refine matchNumber_eq.mpr ⟨(Nat.toDigits 10 n.natAbs).map Char.toNat ++ r, r, r, ?_, matchWhole_digits _ hdig, ?_, ?_⟩
  · unfold decimal
    split_ifs with hn
    · simp [matchSign, hn]
    · cases hds : (Nat.toDigits 10 n.natAbs).map Char.toNat with
      | nil => simp [Nat.toDigits_ne_nil] at hds
      | cons c t =>
        have hc := digits_isDigit n.natAbs c (by rw [hds]; exact List.mem_cons_self)
        have hc : c ≠ '-'.toNat := by
          rintro rfl
          cases hc
        rw [List.nil_append, List.cons_append]
        simp [matchSign, hn]
        exact hc
  · cases r with
    | nil => rfl
    | cons c r => rcases hr c rfl with rfl | rfl | rfl <;> rfl
  · match r with
    | [] => rfl
    | [c] => rfl
    | c :: d :: r => rcases hr c rfl with rfl | rfl | rfl <;> rfl

theorem int_decimal (n : Int) : Literal.int ⟨n < 0, (Nat.toDigits 10 n.natAbs).map Char.toNat, [], []⟩ = n := by
  have hm : ((Nat.toDigits 10 n.natAbs).map Char.toNat).map Char.ofNat = Nat.toDigits 10 n.natAbs := by
    rw [List.map_map]
    exact List.map_id'' (fun c => Char.ofNat_toNat c) _
  simp only [Literal.int, hm, Nat.ofDigitChars_ten_toDigits]
  split_ifs with hn
  · have := of_decide_eq_true hn
    omega
  · have := of_decide_eq_false (Bool.eq_false_iff.mpr hn)
    omega


/-! ### Values -/

mutual

/-- What has a text and is read back from it: no float, integers and texts that can be
written, and the members of every object in the order of their names. -/
def Plain : Value F → Prop
  | .null => True
  | .bool _ => True
  | .int n => n.natAbs ≤ maxSafe
  | .float _ => False
  | .str s => s.all isScalar
  | .arr l => PlainItems l
  | .obj l => (l.map fun m => utf16 m.1).Pairwise (· < ·) ∧ PlainMembers l

def PlainItems : List (Value F) → Prop
  | [] => True
  | v :: l => Plain v ∧ PlainItems l

def PlainMembers : List (Text × Value F) → Prop
  | [] => True
  | (k, v) :: l => k.all isScalar ∧ Plain v ∧ PlainMembers l

end

variable {floatText : F → Option Text} {h : Hooks F ε}

theorem skip_cons {c : Nat} {s : Text} (hc : isBlank c = false) : skip (c :: s) = c :: s :=
  List.dropWhile_cons_of_neg (by simp [hc])

/-- The text of a value starts with no blank and with nothing that closes. -/
theorem dumps_head {v : Value F} {t : Text} (hp : Plain v) (ht : dumps floatText v = some t) :
    ∃ c u, t = c :: u ∧ isBlank c = false ∧ c ≠ '}'.toNat ∧ c ≠ ']'.toNat := by
  cases v with
  | null => cases ht; exact ⟨_, _, rfl, by decide⟩
  | bool b => cases b <;> cases ht <;> exact ⟨_, _, rfl, by decide⟩
  | int n =>
    rw [dumps] at ht
    split_ifs at ht with hn
    cases ht
    obtain ⟨d, u, hd, hc | hc⟩ := decimal_cons n
    · refine ⟨d, u, hc, ?_⟩
      simp [isDigit] at hd
      simp [isBlank]
      omega
    · exact ⟨_, _, hc, by decide⟩
  | float x => cases hp
  | str s =>
    rw [dumps, dumpText] at ht
    split_ifs at ht
    cases ht
    exact ⟨_, _, rfl, by decide⟩
  | arr l =>
    rw [dumps] at ht
    obtain ⟨ts, -, rfl⟩ := Option.map_eq_some_iff.mp ht
    exact ⟨_, _, rfl, by decide⟩
  | obj l =>
    rw [dumps] at ht
    obtain ⟨ts, -, rfl⟩ := Option.map_eq_some_iff.mp ht
    exact ⟨_, _, rfl, by decide⟩

theorem number_decimal (n : Int) {r : Text} (hr : Ends r) : h.number (decimal n ++ r) = .ok (.int n, r) := by
  rw [Hooks.number, matchNumber_decimal n hr]
  exact congrArg (fun i => Except.ok (Value.int i, r)) (int_decimal n)

theorem scalar_decimal {n : Int} {c : Nat} {u r : Text} (hc : decimal n = c :: u) (hr : Ends r) :
    scalar h c (u ++ r) = .ok (.int n, r) := by
  have hn : h.number (c :: (u ++ r)) = .ok (.int n, r) := by
    rw [← List.cons_append, ← hc]
    exact number_decimal n hr
  rw [← hn]
  obtain ⟨d, v, hd, he | he⟩ := decimal_cons n
  · rw [he] at hc
    cases hc
    simp [isDigit] at hd
    unfold scalar
    repeat rw [if_neg (by simp; omega)]
  · -- `-Infinity` has no digit after its sign
    rw [he] at hc
    cases hc
    have hi : after (text "Infinity") (d :: v ++ r) = none := by
      cases ha : after (text "Infinity") (d :: v ++ r) with
      | none => rfl
      | some t =>
        cases (List.cons.inj (after_eq.mp ha)).1
        cases hd
    unfold scalar
    rw [hi]
    rfl

theorem value_scalar {n : Nat} {c : Nat} {s r : Text} {v : Value F}
    (hc : c ≠ '"'.toNat ∧ c ≠ '{'.toNat ∧ c ≠ '['.toNat) (hs : scalar h c s = .ok (v, r)) :
    value h (n + 1) (c :: s) = .ok (v, r) :=
  value_ok.mpr ⟨c, s, rfl, .inr (.inr (.inr (.inr (.inr ⟨hc.1, hc.2.1, hc.2.2, hs⟩))))⟩

theorem name_quote {k s : Text} (hk : k.all isScalar) : name (quote k ++ ':'.toNat :: s) = some (k, skip s) := by
  refine name_eq.mpr ⟨k.flatMap escape ++ '"'.toNat :: ':'.toNat :: s, ':'.toNat :: s, s, ?_, string_quote hk _,
    skip_cons rfl, rfl⟩
  simp [quote]

theorem commas_cons (t : Text) {l : List Text} (hl : l ≠ []) : commas (t :: l) = t ++ ','.toNat :: commas l := by
  cases l with
  | nil => exact absurd rfl hl
  | cons u l => rfl

theorem dumpItems_cons {v : Value F} {l : List (Value F)} {ts : List Text}
    (ht : dumpItems floatText (v :: l) = some ts) :
    ∃ t us, dumps floatText v = some t ∧ dumpItems floatText l = some us ∧ ts = t :: us := by
  rw [dumpItems] at ht
  obtain ⟨t, hv, ht⟩ := Option.bind_eq_some_iff.mp ht
  obtain ⟨us, hl, ht⟩ := Option.bind_eq_some_iff.mp ht
  exact ⟨t, us, hv, hl, (Option.some.inj ht).symm⟩

theorem dumpMembers_cons {k : Text} {v : Value F} {l : List (Text × Value F)} {ms : List (Text × Text)}
    (hm : dumpMembers floatText ((k, v) :: l) = some ms) : k.all isScalar ∧ ∃ t ns, dumps floatText v = some t ∧
      dumpMembers floatText l = some ns ∧ ms = (utf16 k, quote k ++ ':'.toNat :: t) :: ns := by
  rw [dumpMembers] at hm
  obtain ⟨k', hk, hm⟩ := Option.bind_eq_some_iff.mp hm
  obtain ⟨t, hv, hm⟩ := Option.bind_eq_some_iff.mp hm
  obtain ⟨ns, hl, hm⟩ := Option.bind_eq_some_iff.mp hm
  rw [dumpText] at hk
  split_ifs at hk with hs
  cases hk
  exact ⟨hs, t, ns, hv, hl, (Option.some.inj hm).symm⟩

theorem dumpMembers_keys {l : List (Text × Value F)} {ms : List (Text × Text)} (hm : dumpMembers floatText l = some ms) :
    ms.map (·.1) = l.map fun m => utf16 m.1 := by
  induction l generalizing ms with
  | nil =>
    rw [dumpMembers] at hm
    cases hm
    rfl
  | cons m l ih =>
    obtain ⟨-, t, ns, -, hl, rfl⟩ := dumpMembers_cons hm
    exact congrArg (utf16 m.1 :: ·) (ih hl)

/-- Members in the order of their names are not moved. -/
theorem sort_dumpMembers {l : List (Text × Value F)} {ms : List (Text × Text)} (hm : dumpMembers floatText l = some ms)
    (hl : (l.map fun m => utf16 m.1).Pairwise (· < ·)) : ms.insertionSort (fun a b => a.1 ≤ b.1) = ms := by
  rw [← dumpMembers_keys hm, List.pairwise_map] at hl
  exact List.Pairwise.insertionSort_eq (hl.imp fun h => le_of_lt h)

theorem items_head {v : Value F} {l : List (Value F)} {ts : List Text} (hp : PlainItems (v :: l))
    (ht : dumpItems floatText (v :: l) = some ts) :
    ∃ c u, commas ts = c :: u ∧ isBlank c = false ∧ c ≠ ']'.toNat := by
  obtain ⟨t, us, hv, -, rfl⟩ := dumpItems_cons ht
  obtain ⟨c, u, rfl, hb, -, hc⟩ := dumps_head hp.1 hv
  cases us with
  | nil => exact ⟨c, u, rfl, hb, hc⟩
  | cons w us => exact ⟨c, _, rfl, hb, hc⟩

theorem members_head {m : Text × Value F} {l : List (Text × Value F)} {ms : List (Text × Text)}
    (hm : dumpMembers floatText (m :: l) = some ms) : ∃ u, commas (ms.map (·.2)) = '"'.toNat :: u := by
  obtain ⟨-, t, ns, -, -, rfl⟩ := dumpMembers_cons hm
  cases ns with
  | nil => exact ⟨_, rfl⟩
  | cons w ns => exact ⟨_, rfl⟩

theorem after_none {c d : Nat} {s : Text} (hc : c ≠ d) : after [d] (c :: s) = none := by
  cases ha : after [d] (c :: s) with
  | none => rfl
  | some t => exact absurd (List.cons.inj (after_eq.mp ha)).1 hc

/-- The hook keeps an object whose members are in the order of their names. -/
def Hooks.Keeps (h : Hooks F ε) : Prop :=
  ∀ l : List (Text × Value F), (l.map fun m => utf16 m.1).Pairwise (· < ·) → h.pairs l = .ok (.obj l)

mutual

theorem value_dumps (hh : h.Keeps) : ∀ (v : Value F) {t r : Text} {n : Nat}, Plain v → dumps floatText v = some t →
    Ends r → 2 * (t ++ r).length < n → value h n (t ++ r) = .ok (v, r)
  | v, t, r, 0, _, _, _, hn => absurd hn (Nat.not_lt_zero _)
  | .null, t, r, n + 1, _, ht, _, _ => by
    cases ht
    exact value_scalar (by decide) rfl
  | .bool b, t, r, n + 1, _, ht, _, _ => by
    cases b <;> cases ht <;> exact value_scalar (by decide) rfl
  | .int i, t, r, n + 1, hp, ht, hr, _ => by
    obtain ⟨c, u, rfl, hb, hc⟩ := dumps_head hp ht
    rw [dumps] at ht
    split_ifs at ht with hi
    refine value_scalar ?_ (scalar_decimal (Option.some.inj ht) hr)
    obtain ⟨d, v, hd, he | he⟩ := decimal_cons i <;> rw [he] at ht <;> cases ht
    · refine ⟨?_, ?_, ?_⟩ <;> rintro rfl <;> cases hd
    · decide
  | .float x, _, _, _ + 1, hp, _, _, _ => hp.elim
  | .str s, t, r, n + 1, _, ht, _, _ => by
    rw [dumps, dumpText] at ht
    split_ifs at ht with hs
    cases ht
    refine value_ok.mpr ⟨_, s.flatMap escape ++ '"'.toNat :: r, ?_, .inl ⟨rfl, s, string_quote hs r, rfl⟩⟩
    simp [quote]
  | .arr l, t, r, n + 1, hp, ht, hr, hn => by
    rw [dumps] at ht
    obtain ⟨ts, hts, rfl⟩ := Option.map_eq_some_iff.mp ht
    refine value_ok.mpr ⟨'['.toNat, commas ts ++ ']'.toNat :: r, by simp, ?_⟩
    cases l with
    | nil =>
      rw [dumpItems] at hts
      cases hts
      exact .inr (.inr (.inr (.inl ⟨rfl, rfl, rfl⟩)))
    | cons v l =>
      obtain ⟨c, u, hu, hb, hc⟩ := items_head hp hts
      have hi := items_dumps hh (v :: l) (List.cons_ne_nil v l) hp hts (r := r) (n := n) (by simp at hn ⊢; omega)
      rw [hu, List.cons_append] at hi ⊢
      rw [skip_cons hb]
      exact .inr (.inr (.inr (.inr (.inl ⟨rfl, after_none hc, v :: l, hi, rfl⟩))))
  | .obj l, t, r, n + 1, hp, ht, hr, hn => by
    rw [dumps] at ht
    obtain ⟨ms, hms, rfl⟩ := Option.map_eq_some_iff.mp ht
    rw [sort_dumpMembers hms hp.1] at hn ⊢
    refine value_ok.mpr ⟨'{'.toNat, commas (ms.map (·.2)) ++ '}'.toNat :: r, by simp, ?_⟩
    cases l with
    | nil =>
      rw [dumpMembers] at hms
      cases hms
      exact .inr (.inl ⟨rfl, rfl, hh [] List.Pairwise.nil⟩)
    | cons m l =>
      have hi := members_dumps hh (m :: l) (List.cons_ne_nil m l) hp.2 hms (r := r) (n := n) (by simp at hn ⊢; omega)
      obtain ⟨u, hu⟩ := members_head hms
      rw [hu, List.cons_append] at hi ⊢
      rw [skip_cons rfl]
      exact .inr (.inr (.inl ⟨rfl, rfl, m :: l, hi, hh _ hp.1⟩))

theorem items_dumps (hh : h.Keeps) : ∀ (l : List (Value F)) {ts : List Text} {r : Text} {n : Nat}, l ≠ [] → PlainItems l →
    dumpItems floatText l = some ts → 2 * (commas ts ++ ']'.toNat :: r).length + 1 < n →
    items h n (commas ts ++ ']'.toNat :: r) = .ok (l, r)
  | [], _, _, _, hl, _, _, _ => absurd rfl hl
  | v :: l, ts, r, 0, _, _, _, hn => absurd hn (Nat.not_lt_zero _)
  | v :: l, ts, r, n + 1, _, hp, ht, hn => by
    obtain ⟨t, us, hv, hl, rfl⟩ := dumpItems_cons ht
    cases l with
    | nil =>
      rw [dumpItems] at hl
      cases hl
      have := value_dumps hh v hp.1 hv (.cons (.inr (.inr rfl)) : Ends (']'.toNat :: r)) (n := n)
        (by simp [commas] at hn ⊢; omega)
      exact items_ok.mpr ⟨v, ']'.toNat :: r, this, .inl ⟨rfl, rfl⟩⟩
    | cons w l =>
      obtain ⟨c, u, hu, hb, hc⟩ := items_head hp.2 hl
      have hne : us ≠ [] := by rintro rfl; cases hu
      rw [commas_cons t hne, List.append_assoc, List.cons_append] at hn ⊢
      have h1 := value_dumps hh v hp.1 hv (.cons (.inl rfl) : Ends (','.toNat :: (commas us ++ ']'.toNat :: r))) (n := n)
        (by omega)
      have h2 := items_dumps hh (w :: l) (List.cons_ne_nil w l) hp.2 hl (r := r) (n := n) (by simp at hn ⊢; omega)
      refine items_ok.mpr ⟨v, _, h1, .inr ⟨commas us ++ ']'.toNat :: r, w :: l, rfl, ?_, rfl⟩⟩
      rw [hu, List.cons_append] at h2 ⊢
      rw [skip_cons hb]
      exact h2

theorem members_dumps (hh : h.Keeps) : ∀ (l : List (Text × Value F)) {ms : List (Text × Text)} {r : Text} {n : Nat},
    l ≠ [] → PlainMembers l → dumpMembers floatText l = some ms →
    2 * (commas (ms.map (·.2)) ++ '}'.toNat :: r).length < n →
    members h n (commas (ms.map (·.2)) ++ '}'.toNat :: r) = .ok (l, r)
  | [], _, _, _, hl, _, _, _ => absurd rfl hl
  | _ :: _, _, _, 0, _, _, _, hn => absurd hn (Nat.not_lt_zero _)
  | (k, v) :: l, ms, r, n + 1, _, hp, hm, hn => by
    obtain ⟨hk, t, ns, hv, hl, rfl⟩ := dumpMembers_cons hm
    obtain ⟨c, y, hy, hb, -⟩ := dumps_head hp.2.1 hv
    cases l with
    | nil =>
      rw [dumpMembers] at hl
      cases hl
      have := value_dumps hh v hp.2.1 hv (.cons (.inr (.inl rfl)) : Ends ('}'.toNat :: r)) (n := n)
        (by simp [commas] at hn ⊢; omega)
      refine members_ok.mpr ⟨k, v, t ++ '}'.toNat :: r, '}'.toNat :: r, ?_, this, .inl ⟨rfl, rfl⟩⟩
      simp only [List.map_cons, List.map_nil, commas, List.append_assoc, List.cons_append]
      rw [name_quote hk, hy, List.cons_append, skip_cons hb]
    | cons w l =>
      obtain ⟨u, hu⟩ := members_head hl
      have hne : ns.map (·.2) ≠ [] := by intro hne; rw [hne] at hu; cases hu
      rw [List.map_cons, commas_cons _ hne] at hn ⊢
      simp only [List.append_assoc, List.cons_append] at hn ⊢
      have h1 := value_dumps hh v hp.2.1 hv
        (.cons (.inl rfl) : Ends (','.toNat :: (commas (ns.map (·.2)) ++ '}'.toNat :: r))) (n := n)
        (by simp at hn ⊢; omega)
      have h2 := members_dumps hh (w :: l) (List.cons_ne_nil w l) hp.2.2 hl (r := r) (n := n) (by simp at hn ⊢; omega)
      refine members_ok.mpr ⟨k, v, t ++ ','.toNat :: (commas (ns.map (·.2)) ++ '}'.toNat :: r), _, ?_, h1,
        .inr ⟨commas (ns.map (·.2)) ++ '}'.toNat :: r, w :: l, rfl, ?_, rfl⟩⟩
      · rw [name_quote hk, hy, List.cons_append, skip_cons hb]
      · rw [hu, List.cons_append] at h2 ⊢
        rw [skip_cons rfl]
        exact h2

end


mutual

/-- A plain value has a text. -/
theorem dumps_plain : ∀ v : Value F, Plain v → ∃ t, dumps floatText v = some t
  | .null, _ => ⟨_, rfl⟩
  | .bool b, _ => ⟨_, rfl⟩
  | .int n, hp => ⟨_, if_pos hp⟩
  | .float _, hp => hp.elim
  | .str s, hp => ⟨_, if_pos hp⟩
  | .arr l, hp => by
    obtain ⟨ts, ht⟩ := dumpItems_plain l hp
    rw [dumps, ht]
    exact ⟨_, rfl⟩
  | .obj l, hp => by
    obtain ⟨ms, hm⟩ := dumpMembers_plain l hp.2
    rw [dumps, hm]
    exact ⟨_, rfl⟩

theorem dumpItems_plain : ∀ l : List (Value F), PlainItems l → ∃ ts, dumpItems floatText l = some ts
  | [], _ => ⟨_, rfl⟩
  | v :: l, hp => by
    obtain ⟨t, ht⟩ := dumps_plain v hp.1
    obtain ⟨ts, hts⟩ := dumpItems_plain l hp.2
    rw [dumpItems, ht, hts]
    exact ⟨_, rfl⟩

theorem dumpMembers_plain : ∀ l : List (Text × Value F), PlainMembers l → ∃ ms, dumpMembers floatText l = some ms
  | [], _ => ⟨_, rfl⟩
  | (k, v) :: l, hp => by
    obtain ⟨t, ht⟩ := dumps_plain v hp.2.1
    obtain ⟨ms, hms⟩ := dumpMembers_plain l hp.2.2
    rw [dumpMembers, dumpText, if_pos hp.1, ht, hms]
    exact ⟨_, rfl⟩

end

/-- The canonical text of a plain value is read back as that value. -/
theorem loads_dumps (hh : h.Keeps) {v : Value F} {t : Text} (hp : Plain v) (ht : dumps floatText v = some t) :
    loads h t = .ok v := by
  obtain ⟨c, u, rfl, hb, -⟩ := dumps_head hp ht
  have hv := value_dumps hh v hp ht Ends.nil (n := 2 * (c :: u).length + 1) (by simp)
  rw [List.append_nil] at hv
  rw [loads, skip_cons hb, hv]
  rfl

/-- Blanks may follow the text of an object. -/
theorem loads_dumps_blank (hh : h.Keeps) {l : List (Text × Value F)} {u r : Text}
    (hp : Plain (.obj l : Value F)) (hu : dumps floatText (.obj l) = some u) (hr : skip r = []) : loads h (u ++ r) = .ok (.obj l) := by
  have hbrace : ∃ w, u = '{'.toNat :: w := by
    rw [dumps] at hu
    obtain ⟨ms, -, rfl⟩ := Option.map_eq_some_iff.mp hu
    exact ⟨_, rfl⟩
  obtain ⟨w, rfl⟩ := hbrace
  have hv := value_dumps hh _ hp hu Ends.nil (n := 2 * ('{'.toNat :: w ++ r).length + 1)
    (by simp only [List.append_nil, List.length_append]; omega)
  rw [List.append_nil] at hv
  have ha := (read_append _).1 _ _ _ hv (.inl ⟨_, rfl, .inr (.inl rfl)⟩) r
  rw [loads, List.cons_append, skip_cons rfl, ← List.cons_append, ha]
  show (if skip r = [] then _ else _) = _
  rw [if_pos hr]

/-- Different plain values have different texts. -/
theorem dumps_inj (hh : h.Keeps) {v w : Value F} {t : Text} (hv : Plain v) (hw : Plain w)
    (htv : dumps floatText v = some t) (htw : dumps floatText w = some t) : v = w := by
  have := loads_dumps hh hv htv
  rw [loads_dumps hh hw htw] at this
  exact (Except.ok.inj this).symm

/-- No proper beginning of the text of an object is read at all. -/
theorem loads_torn (hh : h.Keeps) {l : List (Text × Value F)} {t p : Text} (hp : Plain (.obj l))
    (ht : dumps floatText (.obj l) = some t) (hpre : p <+: t) (hne : p ≠ t) : ∃ e, loads h p = .error e := by
  cases hr : loads h p with
  | error e => exact ⟨e, rfl⟩
  | ok v =>
    exfalso
    obtain ⟨q, hq⟩ := hpre
    obtain ⟨c, u, hc, hb, -⟩ := dumps_head hp ht
    have hbrace : c = '{'.toNat := by
      rw [dumps] at ht
      obtain ⟨ms, -, rfl⟩ := Option.map_eq_some_iff.mp ht
      exact (List.cons.inj hc).1.symm
    subst hbrace
    cases p with
    | nil => cases hr
    | cons d p =>
      rw [← hq] at hc
      cases (List.cons.inj hc).1
      -- what is read of the beginning is read of the whole text too, with the rest left over
      rw [loads_depth (n := 2 * t.length + 1) (by rw [← hq, List.length_append]; omega), skip_cons rfl] at hr
      split at hr
      · cases hr
      · next w r hw =>
        have ha := (read_append _).1 _ _ _ hw (.inl ⟨_, rfl, .inr (.inl rfl)⟩) q
        have hv := value_dumps hh _ hp ht Ends.nil (n := 2 * t.length + 1) (by simp)
        rw [List.append_nil] at hv
        rw [hq, hv] at ha
        obtain ⟨-, hrq⟩ := Prod.mk.inj (Except.ok.inj ha)
        have hq' : q = [] := (List.append_eq_nil_iff.mp hrq.symm).2
        subst hq'
        exact hne (by rw [← hq, List.append_nil])

/-! ## Bytes -/

/-- `str.encode("utf-8")` of a text of scalars. -/
def encode (t : Text) : List UInt8 := t.flatMap fun c => String.utf8EncodeChar (Char.ofNat c)

/-- `bytes.decode("utf-8")`. -/
def decode (b : List UInt8) : Option Text := b.toByteArray.utf8Decode?.map fun cs => cs.toList.map Char.toNat


theorem toNat_ofNat {c : Nat} (hc : isScalar c) : (Char.ofNat c).toNat = c := by
  have hv : c.isValidChar := by
    simp [isScalar] at hc
    unfold Nat.isValidChar
    omega
  rw [Char.ofNat, dif_pos hv]
  rfl

theorem isScalar_toNat (c : Char) : isScalar c.toNat := by
  have hv : c.toNat.isValidChar := c.valid
  unfold Nat.isValidChar at hv
  simp [isScalar]
  omega

theorem text_scalar (s : String) : (text s).all isScalar := by
  rw [text, List.all_map, List.all_eq_true]
  exact fun c _ => isScalar_toNat c

theorem encode_toNat (cs : List Char) : (encode (cs.map Char.toNat)).toByteArray = cs.utf8Encode := by
  simp [encode, List.utf8Encode, List.flatMap_map]

theorem exists_chars {t : Text} (ht : t.all isScalar) : ∃ cs : List Char, t = cs.map Char.toNat := by
  refine ⟨t.map Char.ofNat, ?_⟩
  rw [List.map_map]
  conv_lhs => rw [← List.map_id t]
  exact List.map_congr_left fun c hc => (toNat_ofNat (List.all_eq_true.mp ht c hc)).symm

theorem decode_encode {t : Text} (ht : t.all isScalar) : decode (encode t) = some t := by
  obtain ⟨cs, rfl⟩ := exists_chars ht
  simp [decode, encode_toNat]

theorem decode_scalar {b : List UInt8} {t : Text} (hd : decode b = some t) : t.all isScalar := by
  obtain ⟨cs, -, rfl⟩ := Option.map_eq_some_iff.mp hd
  simp [isScalar_toNat]

theorem encode_of_decode {b : List UInt8} {t : Text} (hd : decode b = some t) : encode t = b := by
  obtain ⟨cs, hc, rfl⟩ := Option.map_eq_some_iff.mp hd
  have hb : cs.toList.utf8Encode = b.toByteArray := by
    have := ByteArray.utf8Encode_get_utf8Decode? (b := b.toByteArray) (h := by rw [hc]; rfl)
    simpa [hc] using this
  rw [← encode_toNat] at hb
  have := congrArg (fun a : ByteArray => a.data.toList) hb
  simpa using this

theorem encode_ascii {t : Text} (h : ∀ c ∈ t, c < 128) : encode t = t.map UInt8.ofNat := by
  have he : ∀ c ∈ t, String.utf8EncodeChar (Char.ofNat c) = [UInt8.ofNat c] := by
    intro c hc
    have hlt := h c hc
    have hn : (Char.ofNat c).val.toNat = c := toNat_ofNat (by simp [isScalar]; omega)
    rw [String.utf8EncodeChar, hn, if_pos (by omega)]
  rw [encode, List.flatMap_congr he, List.map_eq_flatMap]

/-- No character's bytes begin another's. -/
theorem utf8_cancel {c d : Char} {x y : List UInt8} (h : String.utf8EncodeChar c ++ x = String.utf8EncodeChar d ++ y) :
    c = d ∧ x = y := by
  have hb := congrArg (fun l : List UInt8 => l.toByteArray.utf8DecodeChar? 0) h
  simp only [List.toByteArray_append, ByteArray.utf8DecodeChar?_utf8EncodeChar_append] at hb
  cases Option.some.inj hb
  exact ⟨rfl, List.append_cancel_left h⟩

theorem utf8_prefix {us ts : List Char} (h : us.flatMap String.utf8EncodeChar <+: ts.flatMap String.utf8EncodeChar) :
    us <+: ts := by
  induction us generalizing ts with
  | nil => exact List.nil_prefix
  | cons c us ih =>
    obtain ⟨q, hq⟩ := h
    rw [List.flatMap_cons, List.append_assoc] at hq
    cases ts with
    | nil => exact absurd (List.append_eq_nil_iff.mp hq).1 String.utf8EncodeChar_ne_nil
    | cons d ts =>
      obtain ⟨rfl, hr⟩ := utf8_cancel hq
      obtain ⟨r, rfl⟩ := ih ⟨q, hr⟩
      exact ⟨r, rfl⟩

/-- A beginning of encoded text that can be decoded is a beginning of the text. -/
theorem decode_torn {t u : Text} {p : List UInt8} (ht : t.all isScalar) (hp : p <+: encode t) (hd : decode p = some u) :
    u <+: t := by
  obtain ⟨ts, rfl⟩ := exists_chars ht
  obtain ⟨us, rfl⟩ := exists_chars (decode_scalar hd)
  rw [← encode_of_decode hd] at hp
  simp only [encode, List.flatMap_map, Char.ofNat_toNat] at hp
  obtain ⟨r, rfl⟩ := utf8_prefix hp
  exact ⟨r.map Char.toNat, by rw [List.map_append]⟩


/-! ## The text is one of scalars -/

theorem quote_scalar {s : Text} (hs : s.all isScalar) : (quote s).all isScalar := by
  have he : (s.flatMap escape).all isScalar := by
    rw [List.all_flatMap]
    refine List.all_eq_true.mpr fun c hc => ?_
    have hc := List.all_eq_true.mp hs c hc
    unfold escape
    split_ifs with h1 h2 h3 h4 h5 h6 h7 h8
    · rfl
    · rfl
    · rfl
    · rfl
    · rfl
    · rfl
    · rfl
    · have hx : ∀ n < 16, isScalar (hexChar n) := by decide
      simp [hx (c / 16) (by omega), hx (c % 16) (by omega)]
      decide
    · simp [hc]
  simp only [quote, List.all_cons, List.all_append, he, Bool.true_and]
  decide

theorem decimal_scalar (n : Int) : (decimal n).all isScalar := by
  have hd : ((Nat.toDigits 10 n.natAbs).map Char.toNat).all isScalar := by simp [isScalar_toNat]
  unfold decimal
  rw [List.all_append, hd]
  split_ifs <;> decide

theorem commas_scalar {ts : List Text} (ht : ∀ t ∈ ts, t.all isScalar) : (commas ts).all isScalar := by
  induction ts with
  | nil => rfl
  | cons t l ih =>
    have hl := ih fun u hu => ht u (List.mem_cons_of_mem t hu)
    have h1 := ht t List.mem_cons_self
    cases l with
    | nil => exact h1
    | cons u l =>
      rw [commas_cons t (List.cons_ne_nil u l), List.all_append, h1, List.all_cons, hl]
      rfl

mutual

theorem dumps_scalar : ∀ (v : Value F) {t : Text}, Plain v → dumps floatText v = some t → t.all isScalar
  | .null, _, _, ht => by cases ht; decide
  | .bool b, _, _, ht => by cases b <;> cases ht <;> decide
  | .int n, _, _, ht => by
    rw [dumps] at ht
    split_ifs at ht
    cases ht
    exact decimal_scalar n
  | .float _, _, hp, _ => hp.elim
  | .str s, _, _, ht => by
    rw [dumps, dumpText] at ht
    split_ifs at ht with hs
    cases ht
    exact quote_scalar hs
  | .arr l, _, hp, ht => by
    rw [dumps] at ht
    obtain ⟨ts, hts, rfl⟩ := Option.map_eq_some_iff.mp ht
    have := commas_scalar (items_scalar l hp hts)
    simp only [List.all_cons, List.all_append, this]
    decide
  | .obj l, _, hp, ht => by
    rw [dumps] at ht
    obtain ⟨ms, hms, rfl⟩ := Option.map_eq_some_iff.mp ht
    rw [sort_dumpMembers hms hp.1]
    have := commas_scalar (members_scalar l hp.2 hms)
    simp only [List.all_cons, List.all_append, this]
    decide

theorem items_scalar : ∀ (l : List (Value F)) {ts : List Text}, PlainItems l → dumpItems floatText l = some ts →
    ∀ t ∈ ts, t.all isScalar
  | [], _, _, ht => by
    rw [dumpItems] at ht
    cases ht
    intro t ht
    cases ht
  | v :: l, _, hp, ht => by
    obtain ⟨t, us, hv, hl, rfl⟩ := dumpItems_cons ht
    intro u hu
    rcases List.mem_cons.mp hu with rfl | hu
    · exact dumps_scalar v hp.1 hv
    · exact items_scalar l hp.2 hl u hu

theorem members_scalar : ∀ (l : List (Text × Value F)) {ms : List (Text × Text)}, PlainMembers l →
    dumpMembers floatText l = some ms → ∀ t ∈ ms.map (·.2), t.all isScalar
  | [], _, _, ht => by
    rw [dumpMembers] at ht
    cases ht
    intro t ht
    cases ht
  | (k, v) :: l, _, hp, ht => by
    obtain ⟨hk, t, ns, hv, hl, rfl⟩ := dumpMembers_cons ht
    intro u hu
    rcases List.mem_cons.mp hu with rfl | hu
    · simp only [List.all_append, List.all_cons, quote_scalar hk, dumps_scalar v hp.2.1 hv]
      decide
    · exact members_scalar l hp.2.2 hl u hu

end


/-! ## Dictionaries

A dictionary is compared by its names and values, so its members are kept in the order of
their names. -/

/-- The last value of each name. -/
def lastOnly : List (Text × Value F) → List (Text × Value F)
  | [] => []
  | m :: l => if l.any (fun n => n.1 = m.1) then lastOnly l else m :: lastOnly l

def dict (l : List (Text × Value F)) : List (Text × Value F) :=
  (lastOnly l).insertionSort fun a b => utf16 a.1 ≤ utf16 b.1

/-- `json.loads` without hooks of its own: a float is kept by its text. -/
def plainHooks (e : ε) : Hooks Text ε where
  decodeError := e
  parseFloat := fun l => (if l.negative then ['-'.toNat] else []) ++ l.whole ++ l.fraction ++ l.exponent
  parseConstant := fun w => .ok (.float w)
  pairs := fun l => .ok (.obj (dict l))

theorem lastOnly_mem {l : List (Text × Value F)} {m : Text × Value F} (hm : m ∈ lastOnly l) : m ∈ l := by
  induction l with
  | nil => exact hm
  | cons n l ih =>
    rw [lastOnly] at hm
    split_ifs at hm
    · exact List.mem_cons_of_mem _ (ih hm)
    · rcases List.mem_cons.mp hm with rfl | hm
      · exact List.mem_cons_self
      · exact List.mem_cons_of_mem _ (ih hm)

theorem lastOnly_nodup (l : List (Text × Value F)) : ((lastOnly l).map (·.1)).Nodup := by
  induction l with
  | nil => exact List.nodup_nil
  | cons m l ih =>
    rw [lastOnly]
    split_ifs with h
    · exact ih
    · rw [List.map_cons, List.nodup_cons]
      refine ⟨fun hm => h ?_, ih⟩
      obtain ⟨n, hn, he⟩ := List.mem_map.mp hm
      exact List.any_eq_true.mpr ⟨n, lastOnly_mem hn, by simp [he]⟩

theorem lastOnly_eq {l : List (Text × Value F)} (hl : (l.map (·.1)).Nodup) : lastOnly l = l := by
  induction l with
  | nil => rfl
  | cons m l ih =>
    rw [List.map_cons, List.nodup_cons] at hl
    have hm : l.any (fun n => n.1 = m.1) = false := by
      refine List.any_eq_false.mpr fun n hn => ?_
      intro he
      exact hl.1 (List.mem_map.mpr ⟨n, hn, of_decide_eq_true he⟩)
    rw [lastOnly, hm, ih hl.2]
    rfl

theorem dict_eq {l : List (Text × Value F)} (hl : (l.map fun m => utf16 m.1).Pairwise (· < ·)) : dict l = l := by
  have hn : (l.map (·.1)).Nodup := by
    rw [List.pairwise_map] at hl
    rw [List.Nodup, List.pairwise_map]
    exact hl.imp fun h he => by rw [he] at h; exact List.lt_irrefl _ h
  rw [dict, lastOnly_eq hn]
  rw [List.pairwise_map] at hl
  exact List.Pairwise.insertionSort_eq (hl.imp fun h => le_of_lt h)

theorem plainHooks_keeps (e : ε) : (plainHooks e).Keeps := fun l hl => by
  show Except.ok (Value.obj (dict l)) = _
  rw [dict_eq hl]

theorem joinPairs_cons {c : Nat} (hc : isHigh c = false) (s : Text) : joinPairs (c :: s) = c :: joinPairs s := by
  cases s with
  | nil => rfl
  | cons d s => rw [joinPairs, hc, Bool.false_and, if_neg (by simp)]

/-- A code point that is no high surrogate. -/
def isPaired (c : Nat) : Bool := c < 0x110000 && !isHigh c

/-- Decoding UTF-16 undoes encoding. -/
theorem joinPairs_paired {s : Text} (hs : s.all isPaired) : joinPairs (utf16 s) = s := by
  induction s with
  | nil => rfl
  | cons c s ih =>
    rw [List.all_cons, Bool.and_eq_true] at hs
    have hc := hs.1
    simp [isPaired] at hc
    rw [utf16, List.flatMap_cons, ← utf16, utf16Units]
    split_ifs with h
    · rw [List.singleton_append, joinPairs_cons hc.2, ih hs.2]
    · have hp : (isHigh (0xd800 + (c - 0x10000) / 0x400) && isLow (0xdc00 + (c - 0x10000) % 0x400)) = true := by
        simp [isHigh, isLow]
        omega
      have he : 0x10000 + (0xd800 + (c - 0x10000) / 0x400 - 0xd800) * 0x400 +
          (0xdc00 + (c - 0x10000) % 0x400 - 0xdc00) = c := by omega
      rw [List.cons_append, List.singleton_append, joinPairs, if_pos hp, he, ih hs.2]

theorem paired_scalar {s : Text} (hs : s.all isScalar) : s.all isPaired := by
  refine List.all_eq_true.mpr fun c hc => ?_
  have := List.all_eq_true.mp hs c hc
  simp [isScalar] at this
  simp [isPaired, isHigh]
  omega

theorem joinPairs_utf16 {s : Text} (hs : s.all isScalar) : joinPairs (utf16 s) = s := joinPairs_paired (paired_scalar hs)

theorem utf16_inj {s t : Text} (hs : s.all isScalar) (ht : t.all isScalar) (h : utf16 s = utf16 t) : s = t := by
  rw [← joinPairs_utf16 hs, h, joinPairs_utf16 ht]

theorem plainMembers_iff {l : List (Text × Value F)} : PlainMembers l ↔ ∀ m ∈ l, m.1.all isScalar ∧ Plain m.2 := by
  induction l with
  | nil => simp [PlainMembers]
  | cons m l ih => simp only [PlainMembers, ih, List.forall_mem_cons, and_assoc]

theorem plainItems_iff {l : List (Value F)} : PlainItems l ↔ ∀ v ∈ l, Plain v := by
  induction l with
  | nil => simp [PlainItems]
  | cons v l ih => rw [PlainItems, ih, List.forall_mem_cons]

instance : Std.Total fun a b : Text × Value F => utf16 a.1 ≤ utf16 b.1 := ⟨fun _ _ => le_total _ _⟩

instance : IsTrans (Text × Value F) fun a b => utf16 a.1 ≤ utf16 b.1 := ⟨fun _ _ _ h₁ h₂ => le_trans h₁ h₂⟩

theorem dict_mem {l : List (Text × Value F)} {m : Text × Value F} (hm : m ∈ dict l) : m ∈ l :=
  lastOnly_mem ((List.perm_insertionSort _ _).mem_iff.mp hm)

/-- A dictionary's members are in the order of their names, and no name is there twice. -/
theorem dict_sorted {l : List (Text × Value F)} (hl : ∀ m ∈ l, m.1.all isScalar) :
    ((dict l).map fun m => utf16 m.1).Pairwise (· < ·) := by
  have hle : (dict l).Pairwise fun a b => utf16 a.1 ≤ utf16 b.1 := List.pairwise_insertionSort _ _
  have hne : (dict l).Pairwise fun a b => a.1 ≠ b.1 := by
    have := ((List.perm_insertionSort (fun a b => utf16 a.1 ≤ utf16 b.1) (lastOnly l)).map (·.1)).nodup_iff.mpr
      (lastOnly_nodup l)
    rw [List.Nodup, List.pairwise_map] at this
    exact this
  rw [List.pairwise_map]
  refine (hle.and hne).imp_of_mem fun ha hb h => ?_
  rcases lt_or_eq_of_le h.1 with hlt | heq
  · exact hlt
  · exact absurd (utf16_inj (hl _ (dict_mem ha)) (hl _ (dict_mem hb)) heq) h.2

/-- A dictionary of plain values is plain. -/
theorem dict_plain {l : List (Text × Value F)} (hl : ∀ m ∈ l, m.1.all isScalar ∧ Plain m.2) :
    Plain (.obj (dict l)) :=
  ⟨dict_sorted fun m hm => (hl m hm).1, plainMembers_iff.mpr fun m hm => hl m (dict_mem hm)⟩

/-- Changing values alone commutes with making a dictionary. -/
theorem dict_map {l : List (Text × Value F)} {g : Text × Value F → Text × Value F} (hg : ∀ m, (g m).1 = m.1) :
    dict (l.map g) = (dict l).map g := by
  have hlast : lastOnly (l.map g) = (lastOnly l).map g := by
    induction l with
    | nil => rfl
    | cons m l ih =>
      have hany : (l.map g).any (fun n => n.1 = (g m).1) = l.any fun n => n.1 = m.1 := by
        rw [List.any_map]
        simp only [Function.comp_def, hg]
      rw [List.map_cons, lastOnly, lastOnly, hany]
      split_ifs
      · exact ih
      · rw [ih, List.map_cons]
  rw [dict, dict, hlast]
  refine (List.map_insertionSort (fun a b => utf16 a.1 ≤ utf16 b.1) (fun a b => utf16 a.1 ≤ utf16 b.1) g _ ?_).symm
  intro a _ b _
  rw [hg, hg]

theorem lookup_eq {l : List (Text × Value F)} {k : Text} {v : Value F} (hl : (l.map (·.1)).Nodup) (hm : (k, v) ∈ l) :
    l.lookup k = some v := by
  obtain ⟨l₁, l₂, rfl⟩ := List.append_of_mem hm
  refine List.lookup_eq_some_iff.mpr ⟨l₁, l₂, rfl, fun m hm => ?_⟩
  rw [List.map_append, List.nodup_append] at hl
  have := hl.2.2 m.1 (List.mem_map_of_mem hm) k (by simp)
  simpa using fun he : k = m.1 => this he.symm

/-- A dictionary's members are looked up as those it was made of. -/
theorem lookup_dict {l : List (Text × Value F)} {k : Text} {v : Value F} (hl : (l.map (·.1)).Nodup) (hm : (k, v) ∈ l) :
    (dict l).lookup k = some v := by
  have hp := List.perm_insertionSort (fun a b : Text × Value F => utf16 a.1 ≤ utf16 b.1) l
  rw [dict, lastOnly_eq hl]
  exact lookup_eq ((hp.map (·.1)).nodup_iff.mpr hl) (hp.mem_iff.mpr hm)

/-! ## Documents -/

/-- A value with floats kept by their text. -/
abbrev Doc := Value Text

def str (s : String) : Doc := .str (text s)

def strs (l : List String) : Doc := .arr (l.map str)

def record (l : List (String × Doc)) : Doc := .obj (dict (l.map fun m => (text m.1, m.2)))

/-- 256 bits as hex digits. -/
def hex (x : BitVec 256) : String := String.ofList ((List.range 64).map fun i => Nat.digitChar (x.toNat / 16 ^ (63 - i) % 16))

/-- The canonical bytes of a document. -/
def Doc.bytes (d : Doc) : List UInt8 := encode ((dumps some d).getD [])

/-- A file read as UTF-8 and loaded. -/
def readDoc (b : List UInt8) : Option Doc := do
  let t ← decode b
  (loads (plainHooks ()) t).toOption

theorem bytes_eq {d : Doc} {t : Text} (ht : dumps some d = some t) : d.bytes = encode t := by
  rw [Doc.bytes, ht]
  rfl

theorem readDoc_bytes {d : Doc} (hp : Plain d) : readDoc d.bytes = some d := by
  obtain ⟨t, ht⟩ := @dumps_plain _ some d hp
  rw [bytes_eq ht, readDoc, decode_encode (dumps_scalar d hp ht)]
  show (loads (plainHooks ()) t).toOption = some d
  rw [loads_dumps (plainHooks_keeps ()) hp ht]
  rfl

theorem bytes_inj {d e : Doc} (hd : Plain d) (he : Plain e) (h : d.bytes = e.bytes) : d = e := by
  have := readDoc_bytes hd
  rw [h, readDoc_bytes he] at this
  exact (Option.some.inj this).symm

/-- A proper beginning of an object's file is not read. -/
theorem readDoc_torn {l : List (Text × Doc)} {p : List UInt8} (hp : Plain (.obj l : Doc))
    (hpre : p <+: Doc.bytes (.obj l)) (hne : p ≠ Doc.bytes (.obj l)) : readDoc p = none := by
  obtain ⟨t, ht⟩ := @dumps_plain _ some (.obj l : Doc) hp
  have hs := dumps_scalar (.obj l : Doc) hp ht
  rw [bytes_eq ht] at hpre hne
  cases hd : decode p with
  | none => rw [readDoc, hd]; rfl
  | some u =>
    have hu := decode_torn hs hpre hd
    have hut : u ≠ t := by
      rintro rfl
      exact hne (encode_of_decode hd).symm
    obtain ⟨e, he⟩ := loads_torn (plainHooks_keeps ()) hp ht hu hut
    rw [readDoc, hd]
    show (loads (plainHooks ()) u).toOption = none
    rw [he]
    rfl

/-! ### Members of a record -/

theorem ofNat_text (s : String) : String.ofList ((text s).map Char.ofNat) = s := by
  rw [text, List.map_map]
  have hid : s.toList.map (Char.ofNat ∘ Char.toNat) = s.toList :=
    List.map_id'' (f := Char.ofNat ∘ Char.toNat) (fun c => Char.ofNat_toNat c) _
  rw [hid, String.ofList_toList]

theorem text_inj {a b : String} (h : text a = text b) : a = b := by rw [← ofNat_text a, h, ofNat_text]

theorem text_eq_iff {a b : String} : text a = text b ↔ a = b := ⟨text_inj, congrArg text⟩

theorem lookup_record {l : List (String × Doc)} {k : String} {v : Doc} (hl : (l.map (·.1)).Nodup) (hm : (k, v) ∈ l) :
    ∃ m, record l = .obj m ∧ m.lookup (text k) = some v := by
  refine ⟨_, rfl, lookup_dict ?_ (List.mem_map.mpr ⟨(k, v), hm, rfl⟩)⟩
  rw [List.map_map]
  have := hl.map (f := text) fun a b h => text_inj h
  rwa [List.map_map] at this

end BettingHelper.Lib.Json
