/-
  BettingHelper.Lib.PyValue — JSON values as Python sees them: `==`, `d[k]` and `d.get(k)`,
  and the unpadded base64url texts of bytes. Equality of JSON values (`Alike`) is `==` with
  the Booleans apart from the numbers.

  A float is any type with the integers its members equal.
-/

import BettingHelper.Lib.JsonDict

namespace BettingHelper.Lib.Json

variable {F : Type} [DecidableEq F]

/-- `v[k]` -/
def item (v : Value F) (k : String) : Option (Value F) :=
  match v with
  | .obj l => l.lookup (text k)
  | _ => none

/-- `v.get(k)` -/
def dictGet (v : Value F) (k : String) : Value F := (item v k).getD .null

theorem item_record {l : List (String × Doc)} {k : String} {v : Doc} {i : Nat} (hl : (l.map (·.1)).Nodup) (hi : l[i]? = some (k, v)) :
    item (record l) k = some v := by
  obtain ⟨m, hm, hv⟩ := lookup_record hl (List.mem_of_getElem? hi)
  rw [hm]
  exact hv

/-- The integer a number or a Boolean equals. -/
def integral (whole : F → Option Int) : Value F → Option Int
  | .bool b => some (if b then 1 else 0)
  | .int n => some n
  | .float x => whole x
  | _ => none

mutual

/-- `==`, of values without duplicate names. -/
def equal (whole : F → Option Int) : Value F → Value F → Bool
  | .null, .null => true
  | .str s, .str t => s = t
  | .arr l, .arr m => equalItems whole l m
  | .obj l, .obj m => l.length = m.length && equalMembers whole l m
  | .float x, .float y => x = y || ((whole x).isSome && whole x = whole y)
  | v, w => (integral whole v).isSome && integral whole v = integral whole w

def equalItems (whole : F → Option Int) : List (Value F) → List (Value F) → Bool
  | [], [] => true
  | v :: l, w :: m => equal whole v w && equalItems whole l m
  | _, _ => false

/-- Each member of a dictionary is in the other. -/
def equalMembers (whole : F → Option Int) : List (Text × Value F) → List (Text × Value F) → Bool
  | [], _ => true
  | (k, v) :: l, m =>
    (match m.lookup k with
      | some w => equal whole v w
      | none => false) && equalMembers whole l m

end

variable {whole : F → Option Int}

@[simp] theorem equal_str {s : Text} {v : Value F} : equal whole v (.str s) = true ↔ v = .str s := by
  cases v with
  | float x => cases h : whole x <;> simp [equal, integral, h]
  | _ => simp [equal, integral]

@[simp] theorem equal_str_left {s : Text} {v : Value F} : equal whole (.str s) v = true ↔ v = .str s := by
  cases v <;> simp [equal, integral, eq_comm]

/-! ## JSON equality -/

section Alike

variable (number : F → Rat)

def numeric : Value F → Option Rat
  | .int n => some n
  | .float x => some (number x)
  | _ => none

mutual

/-- One JSON value: the order of members and the spelling of numbers are no part of it. -/
def Alike : Value F → Value F → Prop
  | .null, .null => True
  | .bool a, .bool b => a = b
  | .str s, .str t => s = t
  | .arr l, .arr m => AlikeItems l m
  | .obj l, .obj m => l.length = m.length ∧ AlikeMembers l m
  | v, w => ∃ x, numeric number v = some x ∧ numeric number w = some x

def AlikeItems : List (Value F) → List (Value F) → Prop
  | [], [] => True
  | v :: l, w :: m => Alike v w ∧ AlikeItems l m
  | _, _ => False

def AlikeMembers : List (Text × Value F) → List (Text × Value F) → Prop
  | [], _ => True
  | (k, v) :: l, m => (∃ w, m.lookup k = some w ∧ Alike v w) ∧ AlikeMembers l m

end

end Alike

end BettingHelper.Lib.Json

namespace BettingHelper.Lib.Base64

/-- The six bits of a digit of the base64url alphabet. -/
def digit (c : Nat) : Option Nat :=
  if 0x41 ≤ c ∧ c ≤ 0x5a then some (c - 0x41)
  else if 0x61 ≤ c ∧ c ≤ 0x7a then some (c - 0x61 + 26)
  else if 0x30 ≤ c ∧ c ≤ 0x39 then some (c - 0x30 + 52)
  else if c = '-'.toNat then some 62
  else if c = '_'.toNat then some 63
  else none

/-- The bytes of the text `urlsafe_b64encode` makes of them, without its `=`. -/
def decode : List Nat → Option (List UInt8)
  | a :: b :: c :: d :: r => do
    let a ← digit a
    let b ← digit b
    let c ← digit c
    let d ← digit d
    let l ← decode r
    some (UInt8.ofNat (a * 4 + b / 16) :: UInt8.ofNat (b % 16 * 16 + c / 4) :: UInt8.ofNat (c % 4 * 64 + d) :: l)
  | [a, b, c] => do
    let a ← digit a
    let b ← digit b
    let c ← digit c
    if c % 4 = 0 then some [UInt8.ofNat (a * 4 + b / 16), UInt8.ofNat (b % 16 * 16 + c / 4)] else none
  | [a, b] => do
    let a ← digit a
    let b ← digit b
    if b % 16 = 0 then some [UInt8.ofNat (a * 4 + b / 16)] else none
  | [_] => none
  | [] => some []

end BettingHelper.Lib.Base64
