/-
  BettingHelper.Lib.JsonSize — how many bytes the JSON text of a value without numbers is.

  No blanks are written and every writer escapes the same characters, so the order of the
  members does not matter (`dumps_size`).
-/

import BettingHelper.Lib.JsonText

namespace BettingHelper.Lib.Json

variable {F : Type}

mutual

/-- No number, and every text can be written. -/
def Free : Value F → Prop
  | .null => True
  | .bool _ => True
  | .int _ => False
  | .float _ => False
  | .str s => s.all isScalar
  | .arr l => FreeItems l
  | .obj l => FreeMembers l

def FreeItems : List (Value F) → Prop
  | [] => True
  | v :: l => Free v ∧ FreeItems l

def FreeMembers : List (Text × Value F) → Prop
  | [] => True
  | (k, v) :: l => k.all isScalar ∧ Free v ∧ FreeMembers l

end

theorem freeItems_iff {l : List (Value F)} : FreeItems l ↔ ∀ v ∈ l, Free v := by
  induction l with
  | nil => simp [FreeItems]
  | cons v l ih => simp only [FreeItems, ih, List.forall_mem_cons]

theorem freeMembers_iff {l : List (Text × Value F)} : FreeMembers l ↔ ∀ m ∈ l, m.1.all isScalar ∧ Free m.2 := by
  induction l with
  | nil => simp [FreeMembers]
  | cons m l ih => simp only [FreeMembers, ih, List.forall_mem_cons, and_assoc]

/-- The bytes of texts with a comma between each two. -/
def joinedSize (sizes : List Nat) : Nat := sizes.sum + (sizes.length - 1)

mutual

def size : Value F → Nat
  | .null => 4
  | .bool b => if b then 4 else 5
  | .int _ => 0
  | .float _ => 0
  | .str s => (encode (quote s)).length
  | .arr l => joinedSize (itemSizes l) + 2
  | .obj l => joinedSize (memberSizes l) + 2

def itemSizes : List (Value F) → List Nat
  | [] => []
  | v :: l => size v :: itemSizes l

def memberSizes : List (Text × Value F) → List Nat
  | [] => []
  | (k, v) :: l => ((encode (quote k)).length + 1 + size v) :: memberSizes l

end

theorem encode_append (s t : Text) : encode (s ++ t) = encode s ++ encode t := List.flatMap_append

theorem encode_cons_length {c : Nat} (hc : c < 0x80) (t : Text) : (encode (c :: t)).length = (encode t).length + 1 := by
  rw [show c :: t = [c] ++ t from rfl, encode_append, List.length_append, encode_ascii (by simpa using hc)]
  simp only [List.map_cons, List.map_nil, List.length_cons, List.length_nil]
  omega

theorem encode_commas (ts : List Text) : (encode (commas ts)).length = joinedSize (ts.map fun t => (encode t).length) := by
  induction ts with
  | nil => rfl
  | cons t l ih =>
    cases l with
    | nil => simp [commas, joinedSize]
    | cons u l =>
      rw [commas_cons t (List.cons_ne_nil u l), encode_append, List.length_append, encode_cons_length (by decide), ih]
      simp only [joinedSize, List.map_cons, List.sum_cons, List.length_cons, List.length_map]
      omega

theorem joinedSize_perm {a b : List Nat} (h : a.Perm b) : joinedSize a = joinedSize b := by
  rw [joinedSize, joinedSize, h.sum_nat, h.length_eq]

/-- Between two brackets. -/
theorem encode_enclosed {a b : Nat} (ha : a < 0x80) (hb : b < 0x80) (t : Text) :
    (encode (a :: (t ++ [b]))).length = (encode t).length + 2 := by
  rw [encode_cons_length ha, encode_append, List.length_append, encode_cons_length hb]
  rfl

variable {floatText : F → Option Text}

mutual

theorem dumps_size : ∀ v : Value F, Free v → ∃ t, dumps floatText v = some t ∧ (encode t).length = size v
  | .null, _ => ⟨_, rfl, rfl⟩
  | .bool true, _ => ⟨_, rfl, rfl⟩
  | .bool false, _ => ⟨_, rfl, rfl⟩
  | .int _, h => h.elim
  | .float _, h => h.elim
  | .str s, h => ⟨quote s, if_pos h, rfl⟩
  | .arr l, h => by
    obtain ⟨ts, ht, hs⟩ := dumpItems_size l h
    refine ⟨_, by rw [dumps, ht]; rfl, ?_⟩
    rw [encode_enclosed (by decide) (by decide), encode_commas, hs, size]
  | .obj l, h => by
    obtain ⟨ms, hm, hs⟩ := dumpMembers_size l h
    refine ⟨_, by rw [dumps, hm]; rfl, ?_⟩
    -- sorting the members only permutes their sizes
    have hp := (List.perm_insertionSort (fun a b : Text × Text => a.1 ≤ b.1) ms).map fun m => (encode m.2).length
    rw [encode_enclosed (by decide) (by decide), encode_commas, List.map_map, size]
    exact congrArg (· + 2) ((joinedSize_perm hp).trans (congrArg joinedSize hs))

theorem dumpItems_size : ∀ l : List (Value F), FreeItems l → ∃ ts, dumpItems floatText l = some ts ∧
    (ts.map fun t => (encode t).length) = itemSizes l
  | [], _ => ⟨[], rfl, rfl⟩
  | v :: l, h => by
    obtain ⟨t, ht, hs⟩ := dumps_size v h.1
    obtain ⟨ts, hts, hss⟩ := dumpItems_size l h.2
    exact ⟨t :: ts, by rw [dumpItems, ht, hts]; rfl, by rw [List.map_cons, hs, hss, itemSizes]⟩

theorem dumpMembers_size : ∀ l : List (Text × Value F), FreeMembers l → ∃ ms, dumpMembers floatText l = some ms ∧
    (ms.map fun m => (encode m.2).length) = memberSizes l
  | [], _ => ⟨[], rfl, rfl⟩
  | (k, v) :: l, h => by
    obtain ⟨t, ht, hs⟩ := dumps_size v h.2.1
    obtain ⟨ms, hms, hss⟩ := dumpMembers_size l h.2.2
    refine ⟨_, by rw [dumpMembers, dumpText, if_pos h.1, ht, hms]; rfl, ?_⟩
    rw [List.map_cons, hss, memberSizes, encode_append, List.length_append, encode_cons_length (by decide), hs]
    congr 1
    omega

end

end BettingHelper.Lib.Json
