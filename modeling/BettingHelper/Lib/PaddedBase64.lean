/-
  BettingHelper.Lib.PaddedBase64 — `base64.b64encode` and `b64decode(…, validate=True)`: three
  bytes are four digits, and `=` stands for the digits that the last one or two bytes lack.
-/

import BettingHelper.Lib.JsonText

namespace BettingHelper.Lib.PaddedBase64

open BettingHelper.Lib.Json

def digitChar (n : Nat) : Nat :=
  if n < 26 then 0x41 + n
  else if n < 52 then 0x61 + (n - 26)
  else if n < 62 then 0x30 + (n - 52)
  else if n = 62 then '+'.toNat
  else '/'.toNat

def digit (c : Nat) : Option Nat :=
  if 0x41 ≤ c ∧ c ≤ 0x5a then some (c - 0x41)
  else if 0x61 ≤ c ∧ c ≤ 0x7a then some (c - 0x61 + 26)
  else if 0x30 ≤ c ∧ c ≤ 0x39 then some (c - 0x30 + 52)
  else if c = '+'.toNat then some 62
  else if c = '/'.toNat then some 63
  else none

def pad : Nat := '='.toNat

/-- `b64encode(b)` -/
def b64encode : List UInt8 → Text
  | a :: b :: c :: r =>
    digitChar (a.toNat / 4) :: digitChar (a.toNat % 4 * 16 + b.toNat / 16) :: digitChar (b.toNat % 16 * 4 + c.toNat / 64) ::
      digitChar (c.toNat % 64) :: b64encode r
  | [a, b] => [digitChar (a.toNat / 4), digitChar (a.toNat % 4 * 16 + b.toNat / 16), digitChar (b.toNat % 16 * 4), pad]
  | [a] => [digitChar (a.toNat / 4), digitChar (a.toNat % 4 * 16), pad, pad]
  | [] => []

/-- `b64decode(s, validate=True)`; bits that are left over are dropped. -/
def b64decode : Text → Option (List UInt8)
  | [] => some []
  | a :: b :: c :: d :: r => do
    let x ← digit a
    let y ← digit b
    let first := UInt8.ofNat (x * 4 + y / 16)
    if c = pad then
      if d = pad ∧ r = [] then some [first] else none
    else
      let z ← digit c
      let second := UInt8.ofNat (y % 16 * 16 + z / 4)
      if d = pad then
        if r = [] then some [first, second] else none
      else
        let w ← digit d
        let rest ← b64decode r
        some (first :: second :: UInt8.ofNat (z % 4 * 64 + w) :: rest)
  | _ => none

theorem digit_digitChar {n : Nat} (h : n < 64) : digit (digitChar n) = some n := by
  have hall : ∀ n < 64, digit (digitChar n) = some n := by decide
  exact hall n h

theorem digitChar_pad {n : Nat} (h : n < 64) : digitChar n ≠ pad := by
  have hall : ∀ n < 64, digitChar n ≠ pad := by decide
  exact hall n h

theorem digitChar_ascii {n : Nat} (h : n < 64) : digitChar n < 0x80 := by
  have hall : ∀ n < 64, digitChar n < 0x80 := by decide
  exact hall n h

theorem byte_eq {a : UInt8} {n : Nat} (h : n = a.toNat) : UInt8.ofNat n = a := by rw [h, UInt8.ofNat_toNat]

theorem b64decode_encode (l : List UInt8) : b64decode (b64encode l) = some l := by
  fun_induction b64encode l with
  | case1 a b c r ih =>
    have ha := a.toNat_lt
    have hb := b.toNat_lt
    have hc := c.toNat_lt
    have hx : a.toNat / 4 < 64 := by omega
    have hy : a.toNat % 4 * 16 + b.toNat / 16 < 64 := by omega
    have hz : b.toNat % 16 * 4 + c.toNat / 64 < 64 := by omega
    have hw : c.toNat % 64 < 64 := by omega
    rw [b64decode]
    simp only [digit_digitChar hx, digit_digitChar hy, digit_digitChar hz, digit_digitChar hw, if_neg (digitChar_pad hz),
      if_neg (digitChar_pad hw), ih, Option.bind_eq_bind, Option.bind_some]
    rw [byte_eq (show a.toNat / 4 * 4 + (a.toNat % 4 * 16 + b.toNat / 16) / 16 = a.toNat by omega),
      byte_eq (show (a.toNat % 4 * 16 + b.toNat / 16) % 16 * 16 + (b.toNat % 16 * 4 + c.toNat / 64) / 4 = b.toNat by omega),
      byte_eq (show (b.toNat % 16 * 4 + c.toNat / 64) % 4 * 64 + c.toNat % 64 = c.toNat by omega)]
  | case2 a b =>
    have ha := a.toNat_lt
    have hb := b.toNat_lt
    have hx : a.toNat / 4 < 64 := by omega
    have hy : a.toNat % 4 * 16 + b.toNat / 16 < 64 := by omega
    have hz : b.toNat % 16 * 4 < 64 := by omega
    rw [b64decode]
    simp only [digit_digitChar hx, digit_digitChar hy, digit_digitChar hz, if_neg (digitChar_pad hz), Option.bind_eq_bind,
      Option.bind_some, if_true]
    rw [byte_eq (show a.toNat / 4 * 4 + (a.toNat % 4 * 16 + b.toNat / 16) / 16 = a.toNat by omega),
      byte_eq (show (a.toNat % 4 * 16 + b.toNat / 16) % 16 * 16 + b.toNat % 16 * 4 / 4 = b.toNat by omega)]
  | case3 a =>
    have ha := a.toNat_lt
    have hx : a.toNat / 4 < 64 := by omega
    have hy : a.toNat % 4 * 16 < 64 := by omega
    rw [b64decode]
    simp only [digit_digitChar hx, digit_digitChar hy, Option.bind_eq_bind, Option.bind_some, and_self, if_true]
    rw [byte_eq (show a.toNat / 4 * 4 + a.toNat % 4 * 16 / 16 = a.toNat by omega)]
  | case4 => rfl

theorem b64encode_ascii (l : List UInt8) : ∀ c ∈ b64encode l, c < 0x80 := by
  have hpad : pad < 0x80 := by decide
  fun_induction b64encode l with
  | case1 a b c r ih =>
    have ha := a.toNat_lt
    have hb := b.toNat_lt
    have hc := c.toNat_lt
    simp only [List.forall_mem_cons]
    exact ⟨digitChar_ascii (by omega), digitChar_ascii (by omega), digitChar_ascii (by omega), digitChar_ascii (by omega), ih⟩
  | case2 a b =>
    have ha := a.toNat_lt
    have hb := b.toNat_lt
    simp only [List.forall_mem_cons]
    exact ⟨digitChar_ascii (by omega), digitChar_ascii (by omega), digitChar_ascii (by omega), hpad, by simp⟩
  | case3 a =>
    have ha := a.toNat_lt
    simp only [List.forall_mem_cons]
    exact ⟨digitChar_ascii (by omega), digitChar_ascii (by omega), hpad, hpad, by simp⟩
  | case4 => simp

end BettingHelper.Lib.PaddedBase64
