/-
  BettingHelper.Lib.DateTime — the texts RFC 3339 calls a date-time: a date that exists, a
  time of day, any number of digits of a second, and an offset.
-/

import Mathlib

namespace BettingHelper.Lib.DateTime

def takeNumber (n : Nat) (l : List Char) : Option (Nat × List Char) :=
  if (l.take n).length = n ∧ (l.take n).all Char.isDigit then some (Nat.ofDigitChars 10 (l.take n) 0, l.drop n) else none

def takeOne (cs : List Char) : List Char → Option (List Char)
  | c :: l => if c ∈ cs then some l else none
  | [] => none

def daysIn (year month : Nat) : Nat :=
  if month = 2 then (if year % 4 = 0 ∧ (year % 100 ≠ 0 ∨ year % 400 = 0) then 29 else 28)
  else if month ∈ [4, 6, 9, 11] then 30 else 31

/-- The format `date-time`. -/
def isDateTime (s : String) : Bool :=
  (do
    let (year, l) ← takeNumber 4 s.toList
    let (month, l) ← takeNumber 2 (← takeOne ['-'] l)
    let (day, l) ← takeNumber 2 (← takeOne ['-'] l)
    let (hour, l) ← takeNumber 2 (← takeOne ['T', 't'] l)
    let (minute, l) ← takeNumber 2 (← takeOne [':'] l)
    let (second, l) ← takeNumber 2 (← takeOne [':'] l)
    let l := match l with
      | '.' :: r => if (r.takeWhile Char.isDigit).isEmpty then l else r.dropWhile Char.isDigit
      | _ => l
    let zone ← match l with
      | [z] => if z ∈ ['Z', 'z'] then some (0, 0) else none
      | _ => do
        let (h, l) ← takeNumber 2 (← takeOne ['+', '-'] l)
        let (m, l) ← takeNumber 2 (← takeOne [':'] l)
        if l = [] then some (h, m) else none
    if 1 ≤ year ∧ 1 ≤ month ∧ month ≤ 12 ∧ 1 ≤ day ∧ day ≤ daysIn year month ∧ hour < 24 ∧ minute < 60 ∧ second < 60 ∧
      zone.1 < 24 ∧ zone.2 < 60 then some () else none).isSome

/-! ## Instants -/

def daysBeforeMonth (year month : Nat) : Nat := ((List.range (month - 1)).map fun m => daysIn year (m + 1)).sum

/-- Days from the first of January of the year 1. -/
def dayNumber (year month day : Nat) : Nat :=
  365 * (year - 1) + (year - 1) / 4 - (year - 1) / 100 + (year - 1) / 400 + daysBeforeMonth year month + (day - 1)

/-- The digits of a fraction as microseconds: six of them, the others dropped. -/
def microseconds (digits : List Char) : Nat := Nat.ofDigitChars 10 ((digits ++ List.replicate 6 '0').take 6) 0

/-- `datetime.fromisoformat(s).astimezone(UTC)`, of a `date-time`: microseconds from the
    beginning of the year 1. A lower-case `z` is none to it, and neither is an instant outside
    the years 1 to 9999. -/
def instant (s : String) : Option Int := do
  let (year, l) ← takeNumber 4 s.toList
  let (month, l) ← takeNumber 2 (← takeOne ['-'] l)
  let (day, l) ← takeNumber 2 (← takeOne ['-'] l)
  let (hour, l) ← takeNumber 2 (← takeOne ['T', 't'] l)
  let (minute, l) ← takeNumber 2 (← takeOne [':'] l)
  let (second, l) ← takeNumber 2 (← takeOne [':'] l)
  let (micro, l) := match l with
    | '.' :: r => if (r.takeWhile Char.isDigit).isEmpty then (0, l) else (microseconds (r.takeWhile Char.isDigit), r.dropWhile Char.isDigit)
    | _ => (0, l)
  let offset : Int ← match l with
    | ['Z'] => some 0
    | c :: r => do
      let (h, r) ← takeNumber 2 r
      let (m, r) ← takeNumber 2 (← takeOne [':'] r)
      if r = [] ∧ h < 24 ∧ m < 60 then
        if c = '+' then some (h * 60 + m : Int) else if c = '-' then some (-(h * 60 + m) : Int) else none
      else none
    | [] => none
  if 1 ≤ year ∧ 1 ≤ month ∧ month ≤ 12 ∧ 1 ≤ day ∧ day ≤ daysIn year month ∧ hour < 24 ∧ minute < 60 ∧ second < 60 then
    let t : Int := (((dayNumber year month day * 24 + hour) * 60 + minute - offset) * 60 + second) * 1000000 + micro
    if 0 ≤ t ∧ t < dayNumber 10000 1 1 * 86400000000 then some t else none
  else none

end BettingHelper.Lib.DateTime
