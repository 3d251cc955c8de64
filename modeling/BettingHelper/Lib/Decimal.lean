/-
  BettingHelper.Lib.Decimal — decimal texts of natural numbers.

  Proved:
  - `natText_digitsValue` / `digitsValue_natText`: a decimal without a leading zero is the
    text of its value, and no other text is.
  - `padLeft_lt`: padded with zeros to one length, decimals are ordered as their values.
-/

import BettingHelper.Lib.JsonText

namespace BettingHelper.Lib.Json

def natText (n : Nat) : Text := (Nat.toDigits 10 n).map Char.toNat

/-- `(0|[1-9][0-9]*)` -/
def isDecimal (s : Text) : Bool :=
  match s with
  | [] => false
  | c :: r => if c = '0'.toNat then r = [] else isDigit c && r.all isDigit

def digitsValue (s : Text) : Nat := Nat.ofDigitChars 10 (s.map Char.ofNat) 0

theorem map_ofNat_natText (n : Nat) : (natText n).map Char.ofNat = Nat.toDigits 10 n := by
  rw [natText, List.map_map]
  exact List.map_id'' (fun c => Char.ofNat_toNat c) _

theorem digitsValue_natText (n : Nat) : digitsValue (natText n) = n := by
  rw [digitsValue, map_ofNat_natText, Nat.ofDigitChars_ten_toDigits]

theorem natText_inj {m n : Nat} (h : natText m = natText n) : m = n := by
  rw [← digitsValue_natText m, h, digitsValue_natText]

theorem natText_head {n : Nat} (hn : 0 < n) : (natText n).head? ≠ some '0'.toNat := digits_head hn

theorem isDecimal_natText (n : Nat) : isDecimal (natText n) = true := by
  have hd := digits_isDigit n
  rcases Nat.eq_zero_or_pos n with rfl | hn
  · rfl
  · have hh := natText_head hn
    cases hs : natText n with
    | nil => simp [natText, Nat.toDigits_ne_nil] at hs
    | cons c r =>
      rw [hs] at hh
      rw [show (Nat.toDigits 10 n).map Char.toNat = c :: r from hs] at hd
      rw [isDecimal, if_neg fun hc => hh (by rw [hc]; rfl), Bool.and_eq_true]
      exact ⟨hd c List.mem_cons_self, List.all_eq_true.mpr fun d hm => hd d (List.mem_cons_of_mem _ hm)⟩

theorem digitChar_ofNat {c : Nat} (hc : isDigit c = true) : Nat.digitChar (c - 0x30) = Char.ofNat c ∧ c - 0x30 < 10 := by
  simp only [isDigit, Bool.and_eq_true, decide_eq_true_eq] at hc
  have : ∀ d < 10, Nat.digitChar d = Char.ofNat (d + 0x30) := by decide
  refine ⟨?_, by omega⟩
  rw [this _ (by omega)]
  congr 1
  omega

/-- Digits after a number that has some already. -/
theorem toDigits_ofDigitChars {s : Text} (hs : ∀ c ∈ s, isDigit c = true) : ∀ {n : Nat}, 0 < n →
    Nat.toDigits 10 n ++ s.map Char.ofNat = Nat.toDigits 10 (Nat.ofDigitChars 10 (s.map Char.ofNat) n) := by
  induction s with
  | nil =>
    intro n hn
    rw [List.map_nil, Nat.ofDigitChars_nil, List.append_nil]
  | cons c s ih =>
    intro n hn
    obtain ⟨hc, hlt⟩ := digitChar_ofNat (hs c List.mem_cons_self)
    have happ := Nat.toDigits_append_toDigits (b := 10) (n := n) (d := c - 0x30) (by decide) hn hlt
    rw [Nat.toDigits_of_lt_base hlt] at happ
    rw [List.map_cons, ← hc, Nat.ofDigitChars_cons_digitChar_of_lt_ten hlt,
      ← ih (fun d hd => hs d (List.mem_cons_of_mem _ hd)) (by omega), ← happ]
    simp

theorem natText_digitsValue {s : Text} (hs : isDecimal s = true) : natText (digitsValue s) = s := by
  have back : ∀ {t : Text}, (∀ c ∈ t, isDigit c = true) → (t.map Char.ofNat).map Char.toNat = t := by
    intro t ht
    rw [List.map_map]
    refine (List.map_congr_left fun c hc => ?_).trans (List.map_id t)
    have := ht c hc
    simp only [isDigit, Bool.and_eq_true, decide_eq_true_eq] at this
    exact toNat_ofNat (by simp only [isScalar, Bool.or_eq_true, decide_eq_true_eq]; omega)
  cases s with
  | nil => cases hs
  | cons c r =>
    rw [isDecimal] at hs
    split_ifs at hs with h0
    · rw [decide_eq_true_iff] at hs
      subst h0
      subst hs
      rfl
    · rw [Bool.and_eq_true, List.all_eq_true] at hs
      obtain ⟨hc, hlt⟩ := digitChar_ofNat hs.1
      have hd : isDigit c = true := hs.1
      simp only [isDigit, Bool.and_eq_true, decide_eq_true_eq] at hd
      have hpos : 0 < c - 0x30 := by
        have : ('0'.toNat : Nat) = 0x30 := rfl
        omega
      have hall : ∀ d ∈ c :: r, isDigit d = true := fun d hm => by
        rcases List.mem_cons.mp hm with rfl | hm
        · exact hs.1
        · exact hs.2 d hm
      rw [digitsValue, natText, List.map_cons, ← hc, Nat.ofDigitChars_cons_digitChar_of_lt_ten hlt, Nat.mul_zero,
        Nat.zero_add, ← toDigits_ofDigitChars hs.2 hpos, Nat.toDigits_of_lt_base hlt, hc]
      exact back hall

/-! ## Padded with zeros -/

/-- `padStart(k, "0")` -/
def padLeft (k : Nat) (s : Text) : Text := List.replicate (k - s.length) '0'.toNat ++ s

/-- The `k` last digits. -/
def fixed : Nat → Nat → Text
  | 0, _ => []
  | k + 1, n => fixed k (n / 10) ++ [0x30 + n % 10]

theorem fixed_length (k n : Nat) : (fixed k n).length = k := by
  induction k generalizing n with
  | zero => rfl
  | succ k ih => rw [fixed, List.length_append, ih, List.length_singleton]

theorem natText_step {n : Nat} (hn : 10 ≤ n) : natText n = natText (n / 10) ++ [0x30 + n % 10] := by
  have : ∀ d < 10, (Nat.digitChar d).toNat = 0x30 + d := by decide
  rw [natText, Nat.toDigits_of_base_le (by decide) hn, List.map_append, List.map_singleton, this _ (by omega)]
  rfl

theorem natText_small {n : Nat} (hn : n < 10) : natText n = [0x30 + n] := by
  have : ∀ d < 10, (Nat.digitChar d).toNat = 0x30 + d := by decide
  rw [natText, Nat.toDigits_of_lt_base hn, List.map_singleton, this n hn]

theorem fixed_zero (k : Nat) : fixed k 0 = List.replicate k '0'.toNat := by
  induction k with
  | zero => rfl
  | succ k ih =>
    rw [fixed, Nat.zero_div, ih, List.replicate_succ']
    rfl

theorem padLeft_natText {k : Nat} : ∀ {n : Nat}, n < 10 ^ (k + 1) → padLeft (k + 1) (natText n) = fixed (k + 1) n ∧ (natText n).length ≤ k + 1 := by
  induction k with
  | zero =>
    intro n hn
    rw [natText_small (by omega), padLeft, fixed, fixed]
    simp
    omega
  | succ k ih =>
    intro n hn
    by_cases hlt : n < 10
    · rw [natText_small hlt, padLeft, fixed, Nat.div_eq_of_lt hlt, fixed_zero, Nat.mod_eq_of_lt hlt]
      simp
    · have hn' : n / 10 < 10 ^ (k + 1) := by
        rw [Nat.div_lt_iff_lt_mul (by decide)]
        rw [Nat.pow_succ] at hn
        exact hn
      obtain ⟨h1, h2⟩ := ih hn'
      rw [natText_step (by omega), fixed, ← h1, padLeft, padLeft, List.length_append, List.length_singleton]
      refine ⟨?_, by omega⟩
      rw [← List.append_assoc, show k + 1 + 1 - ((natText (n / 10)).length + 1) = k + 1 - (natText (n / 10)).length from by omega]

theorem lt_append {a b : Text} {x y : Nat} (hl : a.length = b.length) (h : a < b ∨ a = b ∧ x < y) : a ++ [x] < b ++ [y] := by
  induction a generalizing b with
  | nil =>
    cases b with
    | nil =>
      rcases h with h | ⟨-, h⟩
      · cases h
      · exact List.Lex.rel h
    | cons d b => cases hl
  | cons c a ih =>
    cases b with
    | nil => cases hl
    | cons d b =>
      have hl' : a.length = b.length := Nat.succ.inj hl
      rcases h with h | ⟨h, hxy⟩
      · cases h with
        | rel h => exact List.Lex.rel h
        | cons h => exact List.Lex.cons (ih hl' (.inl h))
      · cases h
        exact List.Lex.cons (ih rfl (.inr ⟨rfl, hxy⟩))

theorem fixed_lt {k : Nat} : ∀ {m n : Nat}, m < n → n < 10 ^ k → fixed k m < fixed k n := by
  induction k with
  | zero =>
    intro m n hm hn
    omega
  | succ k ih =>
    intro m n hm hn
    have hn' : n / 10 < 10 ^ k := by
      rw [Nat.div_lt_iff_lt_mul (by decide)]
      rw [Nat.pow_succ] at hn
      exact hn
    refine lt_append (by rw [fixed_length, fixed_length]) ?_
    rcases Nat.lt_or_ge (m / 10) (n / 10) with h | h
    · exact .inl (ih h hn')
    · have he : m / 10 = n / 10 := by omega
      refine .inr ⟨by rw [he], by omega⟩

theorem padLeft_lt {k m n : Nat} (hm : m < n) (hn : n < 10 ^ (k + 1)) :
    padLeft (k + 1) (natText m) < padLeft (k + 1) (natText n) := by
  rw [(padLeft_natText hn).1, (padLeft_natText (Nat.lt_trans hm hn)).1]
  exact fixed_lt hm hn

end BettingHelper.Lib.Json
