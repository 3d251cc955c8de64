/-
  BettingHelper.Extension.Js — the JavaScript values the extension stores and reads back.

  A value is a tree, as structured clone leaves it. `ref` says which object of its tree an
  object is: `===` goes by it and nothing else looks at it. What is neither a plain object
  nor an array without holes or extra members (a Date, a Map, a sparse array) is `exotic`,
  its content a tag; what the language makes of a tag, and of a number, is the `Platform`.
  An object's members have distinct names (`Proper`).

  Proved: two values that `identicalEntry` takes for one (order of members, `ref` and the
  sign of zero apart) have the same members, the same `String`, the same RFC 8785 text and
  the same Unicode check (`get_identical`, `toStr_identical`, `canonicalize_identical`,
  `unicode_identical`).
-/

import BettingHelper.Lib.JsonText

namespace BettingHelper.Extension

open Lib.Json (Text Value Literal text quote commas decimal isHigh isLow joinPairs encode hexChar)

inductive Js (F : Type) where
  | undefined
  | null
  | bool (b : Bool)
  | number (x : F)
  | bigint (n : Int)
  | string (s : Text)
  | array (ref : Nat) (l : List (Js F))
  | object (ref : Nat) (l : List (Text × Js F))
  | exotic (ref tag : Nat)

/-- What the language does with numbers, with Unicode and with exotic objects. -/
structure Platform (F : Type) where
  /-- `===` -/
  eq : F → F → Bool
  finite : F → Bool
  /-- `String(x)` -/
  numberText : F → Text
  /-- `BigInt(x)` of a number whose text is a decimal -/
  integer : F → Nat
  /-- `Number(literal)`, where it is finite -/
  number : Literal → Option F
  /-- `s.normalize("NFC") === s` -/
  nfc : Text → Bool
  /-- a sparse array, or one with members of its own: `Array.prototype` it has all the same -/
  comparable : Nat → Bool
  exoticText : Nat → Option Text
  exoticJson : Nat → Option (Option Text)
  exoticCanonical : Nat → Option Text
  exoticUnicode : Nat → Bool
  /-- what `===` takes for one number is one, the sign of zero apart -/
  text_eq : ∀ x y, eq x y = true → numberText x = numberText y
  finite_eq : ∀ x y, eq x y = true → finite x = finite y
  integer_eq : ∀ x y, eq x y = true → integer x = integer y
  /-- a finite number is itself -/
  number_eq : ∀ l x, number l = some x → eq x x = true

namespace Js

variable {F : Type}

mutual

/-- No object has two members of one name. -/
def Proper : Js F → Prop
  | .array _ l => ProperItems l
  | .object _ l => (l.map (·.1)).Nodup ∧ ProperMembers l
  | _ => True

def ProperItems : List (Js F) → Prop
  | [] => True
  | v :: l => Proper v ∧ ProperItems l

def ProperMembers : List (Text × Js F) → Prop
  | [] => True
  | (_, v) :: l => Proper v ∧ ProperMembers l

end

theorem ProperMembers.of_mem {l : List (Text × Js F)} (hl : ProperMembers l) {k : Text} {v : Js F} (hm : (k, v) ∈ l) : Proper v := by
  induction l with
  | nil => cases hm
  | cons m l ih =>
    obtain ⟨hv, hl⟩ := hl
    rcases List.mem_cons.mp hm with rfl | hm
    · exact hv
    · exact ih hl hm

/-- `v.k`: `none` where it throws. The names read here are on no prototype. -/
def get (v : Js F) (k : String) : Option (Js F) :=
  match v with
  | .undefined => none
  | .null => none
  | .object _ l => some ((l.lookup (text k)).getD .undefined)
  | _ => some .undefined

/-- `Object.keys(v)` of an object, in the order of `sort()`. -/
def sortedKeys (v : Js F) : Option (List Text) :=
  match v with
  | .object _ l => some ((l.map (·.1)).insertionSort (· ≤ ·))
  | _ => none

variable (P : Platform F)

/-- `===` -/
def strictEq : Js F → Js F → Bool
  | .undefined, .undefined => true
  | .null, .null => true
  | .bool a, .bool b => a = b
  | .number a, .number b => P.eq a b
  | .bigint a, .bigint b => a = b
  | .string a, .string b => a = b
  | .array a _, .array b _ => a = b
  | .object a _, .object b _ => a = b
  | .exotic a _, .exotic b _ => a = b
  | _, _ => false

mutual

/-- `identicalEntry`: no object of the one is an object of the other. -/
def identical : Js F → Js F → Bool
  | .undefined, .undefined => true
  | .null, .null => true
  | .bool a, .bool b => a = b
  | .number a, .number b => P.eq a b
  | .bigint a, .bigint b => a = b
  | .string a, .string b => a = b
  | .array _ a, .array _ b => identicalItems a b
  | .object _ a, .object _ b => a.length = b.length && identicalMembers a b
  | .exotic _ a, .exotic _ b => a = b && P.comparable a
  | _, _ => false

def identicalItems : List (Js F) → List (Js F) → Bool
  | [], [] => true
  | a :: l, b :: m => identical a b && identicalItems l m
  | _, _ => false

def identicalMembers : List (Text × Js F) → List (Text × Js F) → Bool
  | [], _ => true
  | (k, v) :: l, m =>
    (match m.lookup k with
      | some w => identical v w
      | none => false) && identicalMembers l m

end

mutual

/-- `String(v)`: `none` where it throws. -/
def toStr : Js F → Option Text
  | .undefined => some (text "undefined")
  | .null => some (text "null")
  | .bool b => some (if b then text "true" else text "false")
  | .number x => some (P.numberText x)
  | .bigint n => some (decimal n)
  | .string s => some s
  | .array _ l => (joined l).map commas
  | .object _ l => if (l.lookup (text "toString")).isSome then none else some (text "[object Object]")
  | .exotic _ t => P.exoticText t

/-- What `join` joins. -/
def joined : List (Js F) → Option (List Text)
  | [] => some []
  | .undefined :: l => (joined l).map ([] :: ·)
  | .null :: l => (joined l).map ([] :: ·)
  | v :: l => do
    let t ← toStr v
    let ts ← joined l
    some (t :: ts)

end

def unicodeEscape (c : Nat) : Text :=
  text "\\u" ++ [hexChar (c / 0x1000 % 16), hexChar (c / 0x100 % 16), hexChar (c / 16 % 16), hexChar (c % 16)]

/-- A lone surrogate is written as an escape. -/
def escapeUnits : Text → Text
  | [] => []
  | [c] => if isHigh c || isLow c then unicodeEscape c else Lib.Json.escape c
  | c :: d :: s =>
    if isHigh c && isLow d then c :: d :: escapeUnits s
    else if isHigh c || isLow c then unicodeEscape c ++ escapeUnits (d :: s)
    else Lib.Json.escape c ++ escapeUnits (d :: s)

def quoteUnits (s : Text) : Text := '"'.toNat :: (escapeUnits s ++ ['"'.toNat])

mutual

/-- `JSON.stringify(v)`: `none` where it throws, and `some none` where it is undefined. -/
def stringify : Js F → Option (Option Text)
  | .undefined => some none
  | .null => some (some (text "null"))
  | .bool b => some (some (if b then text "true" else text "false"))
  | .number x => some (some (if P.finite x then P.numberText x else text "null"))
  | .bigint _ => none
  | .string s => some (some (quoteUnits s))
  | .array _ l => (stringifyItems l).map fun ts => some ('['.toNat :: (commas ts ++ [']'.toNat]))
  | .object _ l => (stringifyMembers l).map fun ts => some ('{'.toNat :: (commas ts ++ ['}'.toNat]))
  | .exotic _ t => P.exoticJson t

def stringifyItems : List (Js F) → Option (List Text)
  | [] => some []
  | v :: l => do
    let t ← stringify v
    let ts ← stringifyItems l
    some (t.getD (text "null") :: ts)

def stringifyMembers : List (Text × Js F) → Option (List Text)
  | [] => some []
  | (k, v) :: l => do
    let t ← stringify v
    let ts ← stringifyMembers l
    match t with
    | none => some ts
    | some t => some ((quoteUnits k ++ ':'.toNat :: t) :: ts)

end

/-- `JSON.stringify(left) === JSON.stringify(right)` -/
def same (left right : Js F) : Option Bool := do
  let a ← stringify P left
  let b ← stringify P right
  some (decide (a = b))

/-- Every high surrogate is followed by a low one, and there is no other low one. -/
def wellFormed : Text → Bool
  | [] => true
  | [c] => !isHigh c && !isLow c
  | c :: d :: s => if isHigh c then isLow d && wellFormed s else !isLow c && wellFormed (d :: s)

mutual

/-- `validateUnicode(v)` returns. -/
def unicode : Js F → Bool
  | .string s => wellFormed s && P.nfc s
  | .array _ l => unicodeItems l
  | .object _ l => unicodeMembers l
  | .exotic _ t => P.exoticUnicode t
  | _ => true

def unicodeItems : List (Js F) → Bool
  | [] => true
  | v :: l => unicode v && unicodeItems l

def unicodeMembers : List (Text × Js F) → Bool
  | [] => true
  | (k, v) :: l => wellFormed k && P.nfc k && unicode v && unicodeMembers l

end

mutual

/-- The `canonicalize` package: RFC 8785. -/
def canonicalize : Js F → Option Text
  | .undefined => none
  | .null => some (text "null")
  | .bool b => some (if b then text "true" else text "false")
  | .number x => if P.finite x then some (P.numberText x) else none
  | .bigint _ => none
  | .string s => if wellFormed s then some (quote s) else none
  | .array _ l => (canonicalItems l).map fun ts => '['.toNat :: (commas ts ++ [']'.toNat])
  | .object _ l => (canonicalMembers l).map fun ms =>
      '{'.toNat :: (commas ((ms.insertionSort fun a b => a.1 ≤ b.1).map (·.2)) ++ ['}'.toNat])
  | .exotic _ t => P.exoticCanonical t

def canonicalItems : List (Js F) → Option (List Text)
  | [] => some []
  | .undefined :: l => (canonicalItems l).map (text "null" :: ·)
  | v :: l => do
    let t ← canonicalize v
    let ts ← canonicalItems l
    some (t :: ts)

/-- Each member with its name. -/
def canonicalMembers : List (Text × Js F) → Option (List (Text × Text))
  | [] => some []
  | (_, .undefined) :: l => canonicalMembers l
  | (k, v) :: l => do
    let t ← canonicalize v
    let ms ← canonicalMembers l
    if wellFormed k then some ((k, quote k ++ ':'.toNat :: t) :: ms) else none

end

/-- `TextEncoder`: a lone surrogate is replaced. -/
def utf8 (s : Text) : List UInt8 := encode ((joinPairs s).map fun c => if Lib.Json.isScalar c then c else 0xfffd)

def canonicalBytes (v : Js F) : Option (List UInt8) := (canonicalize P v).map utf8

mutual

/-- A parsed value: each object and array is a new one, from `n` on. -/
def ofValue (n : Nat) : Value F → Js F × Nat
  | .null => (.null, n)
  | .bool b => (.bool b, n)
  | .int i => (.bigint i, n)
  | .float x => (.number x, n)
  | .str s => (.string s, n)
  | .arr l => let (l, m) := ofItems (n + 1) l; (.array n l, m)
  | .obj l => let (l, m) := ofMembers (n + 1) l; (.object n l, m)

def ofItems (n : Nat) : List (Value F) → List (Js F) × Nat
  | [] => ([], n)
  | v :: l => let (v, n) := ofValue n v; let (l, n) := ofItems n l; (v :: l, n)

def ofMembers (n : Nat) : List (Text × Value F) → List (Text × Js F) × Nat
  | [] => ([], n)
  | (k, v) :: l => let (v, n) := ofValue n v; let (l, n) := ofMembers n l; ((k, v) :: l, n)

end

/-! ## Identical values -/

variable {P}

theorem lookup_some_mem {α : Type} {l : List (Text × α)} {k : Text} {v : α} (h : l.lookup k = some v) : (k, v) ∈ l := by
  induction l with
  | nil => cases h
  | cons m l ih =>
    obtain ⟨j, w⟩ := m
    rw [List.lookup_cons] at h
    split at h
    · next hj =>
      cases h
      rw [beq_iff_eq.mp hj]
      exact List.mem_cons_self
    · exact List.mem_cons_of_mem _ (ih h)

theorem lookup_of_nodup {α : Type} {l : List (Text × α)} (hl : (l.map (·.1)).Nodup) {k : Text} {v : α} (hm : (k, v) ∈ l) :
    l.lookup k = some v := by
  induction l with
  | nil => cases hm
  | cons m l ih =>
    obtain ⟨j, w⟩ := m
    rw [List.map_cons, List.nodup_cons] at hl
    rw [List.lookup_cons]
    rcases List.mem_cons.mp hm with h | h
    · cases h
      simp
    · have hne : (k == j) = false := by
        rw [beq_eq_false_iff_ne]
        rintro rfl
        exact hl.1 (List.mem_map.mpr ⟨_, h, rfl⟩)
      rw [hne]
      exact ih hl.2 h

theorem identicalMembers_iff {l m : List (Text × Js F)} :
    identicalMembers P l m = true ↔ ∀ k v, (k, v) ∈ l → ∃ w, m.lookup k = some w ∧ identical P v w = true := by
  induction l with
  | nil => simp [identicalMembers]
  | cons a l ih =>
    obtain ⟨j, u⟩ := a
    rw [identicalMembers, Bool.and_eq_true, ih]
    constructor
    · rintro ⟨h, hl⟩ k v hm
      rcases List.mem_cons.mp hm with he | hm
      · cases he
        split at h
        · next w hw => exact ⟨w, hw, h⟩
        · cases h
      · exact hl k v hm
    · intro h
      obtain ⟨w, hw, hi⟩ := h j u List.mem_cons_self
      refine ⟨?_, fun k v hm => h k v (List.mem_cons_of_mem _ hm)⟩
      rw [hw]
      exact hi

/-- Two objects' members, name by name: the one list in the order of the other. -/
theorem identical_perm {l m : List (Text × Js F)} (hl : (l.map (·.1)).Nodup)
    (hlen : l.length = m.length) (hi : identicalMembers P l m = true) :
    ∃ n, n.Perm m ∧ List.Forall₂ (fun a b => a.1 = b.1 ∧ identical P a.2 b.2 = true) l n := by
  have hall := identicalMembers_iff.mp hi
  let f : Text × Js F → Text × Js F := fun a => (a.1, (m.lookup a.1).getD .undefined)
  have hf : ∀ a ∈ l, f a ∈ m ∧ identical P a.2 (f a).2 = true := by
    intro a ha
    obtain ⟨w, hw, hi⟩ := hall a.1 a.2 ha
    simp only [f, hw, Option.getD_some]
    exact ⟨lookup_some_mem hw, hi⟩
  refine ⟨l.map f, ?_, ?_⟩
  · have hnodup : (l.map f).Nodup := by
      refine List.Nodup.of_map (·.1) ?_
      rw [List.map_map]
      exact hl
    have hsub : l.map f ⊆ m := by
      intro b hb
      obtain ⟨a, ha, rfl⟩ := List.mem_map.mp hb
      exact (hf a ha).1
    refine (List.subperm_of_subset hnodup hsub).perm_of_length_le ?_
    rw [List.length_map]
    exact hlen.ge
  · rw [List.forall₂_map_right_iff]
    exact List.forall₂_same.mpr fun a ha => ⟨rfl, (hf a ha).2⟩

/-- Names alike, values identical. -/
abbrev Alike (P : Platform F) : List (Text × Js F) → List (Text × Js F) → Prop :=
  List.Forall₂ fun a b => a.1 = b.1 ∧ identical P a.2 b.2 = true

theorem lookup_perm {n m : List (Text × Js F)} (h : n.Perm m) (hn : (n.map (·.1)).Nodup) (k : Text) : n.lookup k = m.lookup k := by
  have hm : (m.map (·.1)).Nodup := (h.map (·.1)).nodup hn
  cases hk : n.lookup k with
  | some v => exact (lookup_of_nodup hm (h.subset (lookup_some_mem hk))).symm
  | none =>
    cases hk' : m.lookup k with
    | none => rfl
    | some v =>
      rw [lookup_of_nodup hn (h.symm.subset (lookup_some_mem hk'))] at hk
      cases hk

theorem lookup_alike {l n : List (Text × Js F)} (h : Alike P l n) (k : Text) : (l.lookup k = none ∧ n.lookup k = none) ∨
    ∃ u w, l.lookup k = some u ∧ n.lookup k = some w ∧ identical P u w = true := by
  induction h with
  | nil => exact .inl ⟨rfl, rfl⟩
  | @cons a b l n hab _ ih =>
    obtain ⟨j, u⟩ := a
    obtain ⟨i, w⟩ := b
    obtain ⟨rfl, hi⟩ := hab
    rw [List.lookup_cons, List.lookup_cons]
    cases hj : k == j with
    | true => exact .inr ⟨u, w, rfl, rfl, hi⟩
    | false => exact ih

theorem alike_keys {l n : List (Text × Js F)} (h : Alike P l n) : l.map (·.1) = n.map (·.1) := by
  induction h with
  | nil => rfl
  | cons hab _ ih => rw [List.map_cons, List.map_cons, hab.1, ih]

/-- Two identical objects, the second's members in the order of the first's. -/
theorem identical_object {r s : Nat} {l m : List (Text × Js F)} (hp : Proper (.object r l : Js F))
    (hi : identical P (.object r l) (.object s m) = true) : ∃ n, n.Perm m ∧ Alike P l n ∧ (n.map (·.1)).Nodup := by
  rw [identical, Bool.and_eq_true, decide_eq_true_iff] at hi
  rw [Proper] at hp
  obtain ⟨n, hn, ha⟩ := identical_perm hp.1 hi.1 hi.2
  exact ⟨n, hn, ha, alike_keys ha ▸ hp.1⟩

theorem identical_lookup {r s : Nat} {l m : List (Text × Js F)} (hp : Proper (.object r l : Js F))
    (hi : identical P (.object r l) (.object s m) = true) (k : Text) : (l.lookup k = none ∧ m.lookup k = none) ∨
    ∃ u w, l.lookup k = some u ∧ m.lookup k = some w ∧ identical P u w = true := by
  obtain ⟨n, hn, ha, hk⟩ := identical_object hp hi
  rw [← lookup_perm hn hk]
  exact lookup_alike ha k

theorem properMembers_perm {l m : List (Text × Js F)} (h : l.Perm m) (hm : ProperMembers m) : ProperMembers l := by
  have all : ∀ l : List (Text × Js F), ProperMembers l ↔ ∀ a ∈ l, Proper a.2 := by
    intro l
    induction l with
    | nil => simp [ProperMembers]
    | cons a l ih => rw [ProperMembers, ih]; simp
  rw [all] at hm ⊢
  exact fun a ha => hm a (h.subset ha)

theorem get_identical {a b : Js F} (hp : Proper a) (hi : identical P a b = true) (k : String) :
    (get a k = none ∧ get b k = none) ∨ ∃ u w, get a k = some u ∧ get b k = some w ∧ identical P u w = true := by
  cases a with
  | object r l =>
    cases b with
    | object s m =>
      right
      rcases identical_lookup hp hi (text k) with ⟨h1, h2⟩ | ⟨u, w, h1, h2, h3⟩
      · exact ⟨.undefined, .undefined, by rw [get, h1]; rfl, by rw [get, h2]; rfl, by rw [identical]⟩
      · exact ⟨u, w, by rw [get, h1]; rfl, by rw [get, h2]; rfl, h3⟩
    | _ => simp [identical] at hi
  | _ => cases b <;> simp_all [identical, get]

theorem sortedKeys_identical {a b : Js F} (hp : Proper a) (hi : identical P a b = true) : sortedKeys a = sortedKeys b := by
  cases a with
  | object r l =>
    cases b with
    | object s m =>
      obtain ⟨n, hn, ha, -⟩ := identical_object hp hi
      rw [sortedKeys, sortedKeys, alike_keys ha]
      refine congrArg some (List.Perm.eq_of_pairwise' (r := (· ≤ ·)) (List.pairwise_insertionSort _ _) (List.pairwise_insertionSort _ _) ?_)
      exact ((List.perm_insertionSort _ _).trans (hn.map _)).trans (List.perm_insertionSort _ _).symm
    | _ => simp [identical] at hi
  | _ => cases b <;> simp_all [identical, sortedKeys]

theorem strictEq_identical {a b : Js F} (hi : identical P a b = true) (t : Text) :
    strictEq P a (.string t) = strictEq P b (.string t) := by
  cases a <;> cases b <;> simp_all [identical, strictEq]

mutual

theorem toStr_identical : ∀ {a b : Js F}, Proper a → identical P a b = true → toStr P a = toStr P b
  | .array _ l, b, hp, hi => by
    cases b with
    | array _ m => rw [toStr, toStr, joined_identical hp (by rwa [identical] at hi)]
    | _ => simp [identical] at hi
  | .object _ l, b, hp, hi => by
    cases b with
    | object _ m =>
      rw [toStr, toStr]
      rcases identical_lookup hp hi (text "toString") with ⟨h1, h2⟩ | ⟨u, w, h1, h2, -⟩
      · rw [h1, h2]
      · rw [h1, h2]
        rfl
    | _ => simp [identical] at hi
  | .number x, b, _, hi => by
    cases b with
    | number y => rw [toStr, toStr, P.text_eq x y (by rwa [identical] at hi)]
    | _ => simp [identical] at hi
  | .undefined, b, _, hi => by cases b <;> simp_all [identical, toStr]
  | .null, b, _, hi => by cases b <;> simp_all [identical, toStr]
  | .bool _, b, _, hi => by cases b <;> simp_all [identical, toStr]
  | .bigint _, b, _, hi => by cases b <;> simp_all [identical, toStr]
  | .string _, b, _, hi => by cases b <;> simp_all [identical, toStr]
  | .exotic _ _, b, _, hi => by cases b <;> simp_all [identical, toStr]

theorem joined_identical : ∀ {l m : List (Js F)}, ProperItems l → identicalItems P l m = true →
    joined P l = joined P m
  | [], m, _, hi => by
    cases m with
    | nil => rfl
    | cons => simp [identicalItems] at hi
  | a :: l, m, hp, hi => by
    cases m with
    | nil => simp [identicalItems] at hi
    | cons b m =>
      rw [identicalItems, Bool.and_eq_true] at hi
      have ha := toStr_identical hp.1 hi.1
      have hl := joined_identical hp.2 hi.2
      cases a with
      | undefined => cases b <;> simp_all [identical, joined]
      | null => cases b <;> simp_all [identical, joined]
      | _ => cases b <;> simp_all [identical, joined]

end

theorem unicodeMembers_iff {l : List (Text × Js F)} : unicodeMembers P l = true ↔
    ∀ a ∈ l, (wellFormed a.1 = true ∧ P.nfc a.1 = true) ∧ unicode P a.2 = true := by
  induction l with
  | nil => simp [unicodeMembers]
  | cons a l ih =>
    rw [unicodeMembers, Bool.and_eq_true, Bool.and_eq_true, Bool.and_eq_true, ih]
    simp

theorem unicodeMembers_perm {l m : List (Text × Js F)} (h : l.Perm m) : unicodeMembers P l = unicodeMembers P m := by
  rw [Bool.eq_iff_iff, unicodeMembers_iff, unicodeMembers_iff]
  exact ⟨fun ha a hm => ha a (h.symm.subset hm), fun ha a hm => ha a (h.subset hm)⟩

mutual

theorem unicode_identical : ∀ {a b : Js F}, Proper a → identical P a b = true → unicode P a = unicode P b
  | .array _ l, b, hp, hi => by
    cases b with
    | array _ m => rw [unicode, unicode, unicodeItems_identical hp (by rwa [identical] at hi)]
    | _ => simp [identical] at hi
  | .object _ l, b, hp, hi => by
    cases b with
    | object _ m =>
      obtain ⟨n, hn, ha, -⟩ := identical_object hp hi
      rw [unicode, unicode, ← unicodeMembers_perm hn]
      exact unicodeMembers_alike hp.2 ha
    | _ => simp [identical] at hi
  | .number _, b, _, hi => by cases b <;> simp_all [identical, unicode]
  | .undefined, b, _, hi => by cases b <;> simp_all [identical, unicode]
  | .null, b, _, hi => by cases b <;> simp_all [identical, unicode]
  | .bool _, b, _, hi => by cases b <;> simp_all [identical, unicode]
  | .bigint _, b, _, hi => by cases b <;> simp_all [identical, unicode]
  | .string _, b, _, hi => by cases b <;> simp_all [identical, unicode]
  | .exotic _ _, b, _, hi => by cases b <;> simp_all [identical, unicode]

theorem unicodeItems_identical : ∀ {l m : List (Js F)}, ProperItems l → identicalItems P l m = true →
    unicodeItems P l = unicodeItems P m
  | [], m, _, hi => by
    cases m with
    | nil => rfl
    | cons => simp [identicalItems] at hi
  | a :: l, m, hp, hi => by
    cases m with
    | nil => simp [identicalItems] at hi
    | cons b m =>
      rw [identicalItems, Bool.and_eq_true] at hi
      rw [unicodeItems, unicodeItems, unicode_identical hp.1 hi.1, unicodeItems_identical hp.2 hi.2]

theorem unicodeMembers_alike : ∀ {l n : List (Text × Js F)}, ProperMembers l → Alike P l n →
    unicodeMembers P l = unicodeMembers P n
  | [], _, _, ha => by
    cases ha
    rfl
  | (k, v) :: l, _, hp, ha => by
    cases ha with
    | @cons _ b _ n hab ha =>
      obtain ⟨j, w⟩ := b
      obtain ⟨rfl, hi⟩ := hab
      rw [unicodeMembers, unicodeMembers, unicode_identical hp.1 hi, unicodeMembers_alike hp.2 ha]

end

/-! ### The canonical text -/

theorem canonicalMembers_cons {k : Text} {v : Js F} {l : List (Text × Js F)} {ms : List (Text × Text)} :
    canonicalMembers P ((k, v) :: l) = some ms ↔ (v = .undefined ∧ canonicalMembers P l = some ms) ∨
      ∃ t ns, canonicalize P v = some t ∧ canonicalMembers P l = some ns ∧ wellFormed k = true ∧
        ms = (k, quote k ++ ':'.toNat :: t) :: ns := by
  by_cases hv : v = .undefined
  · subst hv
    simp [canonicalMembers, canonicalize]
  · rw [canonicalMembers]
    · simp only [Option.bind_eq_bind, Option.bind_eq_some_iff, hv, false_and, false_or]
      constructor
      · rintro ⟨t, ht, ns, hn, h⟩
        split_ifs at h with hk
        exact ⟨t, ns, ht, hn, hk, (Option.some.inj h).symm⟩
      · rintro ⟨t, ns, ht, hn, hk, rfl⟩
        exact ⟨t, ht, ns, hn, by rw [if_pos hk]⟩
    · exact hv

theorem canonicalMembers_perm {l m : List (Text × Js F)} (h : l.Perm m) : ∀ {ms}, canonicalMembers P l = some ms →
    ∃ ns, canonicalMembers P m = some ns ∧ ms.Perm ns := by
  induction h with
  | nil => exact fun hl => ⟨_, hl, .refl _⟩
  | cons a _ ih =>
    intro ms hl
    rcases canonicalMembers_cons.mp hl with ⟨hv, hl⟩ | ⟨t, ns, ht, hn, hk, rfl⟩
    · obtain ⟨ns, hn, hp⟩ := ih hl
      exact ⟨ns, canonicalMembers_cons.mpr (.inl ⟨hv, hn⟩), hp⟩
    · obtain ⟨us, hu, hp⟩ := ih hn
      exact ⟨_, canonicalMembers_cons.mpr (.inr ⟨t, us, ht, hu, hk, rfl⟩), hp.cons _⟩
  | swap a b l =>
    intro ms hl
    rcases canonicalMembers_cons.mp hl with ⟨hb, hl⟩ | ⟨t, ns, ht, hn, hk, rfl⟩
    · rcases canonicalMembers_cons.mp hl with ⟨ha, hl⟩ | ⟨t, ns, ht, hn, hk, rfl⟩
      · exact ⟨ms, canonicalMembers_cons.mpr (.inl ⟨ha, canonicalMembers_cons.mpr (.inl ⟨hb, hl⟩)⟩), .refl _⟩
      · exact ⟨_, canonicalMembers_cons.mpr (.inr ⟨t, ns, ht, canonicalMembers_cons.mpr (.inl ⟨hb, hn⟩), hk, rfl⟩), .refl _⟩
    · rcases canonicalMembers_cons.mp hn with ⟨ha, hl⟩ | ⟨u, us, hu, hus, hj, rfl⟩
      · exact ⟨_, canonicalMembers_cons.mpr (.inl ⟨ha, canonicalMembers_cons.mpr (.inr ⟨t, ns, ht, hl, hk, rfl⟩)⟩), .refl _⟩
      · exact ⟨_, canonicalMembers_cons.mpr (.inr ⟨u, _, hu, canonicalMembers_cons.mpr (.inr ⟨t, us, ht, hus, hk, rfl⟩), hj, rfl⟩),
          .swap ..⟩
  | trans _ _ ih₁ ih₂ =>
    intro ms hl
    obtain ⟨ns, hn, hp⟩ := ih₁ hl
    obtain ⟨us, hu, hq⟩ := ih₂ hn
    exact ⟨us, hu, hp.trans hq⟩

theorem canonicalMembers_names {l : List (Text × Js F)} {ms : List (Text × Text)} (h : canonicalMembers P l = some ms) :
    (ms.map (·.1)).Sublist (l.map (·.1)) := by
  induction l generalizing ms with
  | nil =>
    cases h
    exact .slnil
  | cons a l ih =>
    rcases canonicalMembers_cons.mp h with ⟨-, hl⟩ | ⟨t, ns, -, hn, -, rfl⟩
    · exact (ih hl).cons _
    · exact (ih hn).cons_cons _

/-- Members are written in the order of their names, so it does not matter in which they come. -/
theorem sort_perm {ms ns : List (Text × Text)} (h : ms.Perm ns) (hn : (ms.map (·.1)).Nodup) :
    ms.insertionSort (fun a b => a.1 ≤ b.1) = ns.insertionSort fun a b => a.1 ≤ b.1 := by
  have hperm := ((List.perm_insertionSort (fun a b : Text × Text => a.1 ≤ b.1) ms).trans h).trans
    (List.perm_insertionSort (fun a b : Text × Text => a.1 ≤ b.1) ns).symm
  have hmem : ∀ a, a ∈ ms.insertionSort (fun a b => a.1 ≤ b.1) → a ∈ ms := fun a ha =>
    (List.perm_insertionSort _ _).subset ha
  refine hperm.eq_of_pairwise ?_ (List.pairwise_insertionSort _ _) (List.pairwise_insertionSort _ _)
  intro a b ha hb hab hba
  have hb' := hmem b (hperm.symm.subset hb)
  have he : a.1 = b.1 := le_antisymm hab hba
  exact List.inj_on_of_nodup_map hn (hmem a ha) hb' he

theorem canonicalMembers_text_perm {l m : List (Text × Js F)} (h : l.Perm m) (hl : (l.map (·.1)).Nodup) :
    (canonicalMembers P l).map (fun ms => '{'.toNat :: (commas ((ms.insertionSort fun a b => a.1 ≤ b.1).map (·.2)) ++ ['}'.toNat])) =
    (canonicalMembers P m).map fun ms => '{'.toNat :: (commas ((ms.insertionSort fun a b => a.1 ≤ b.1).map (·.2)) ++ ['}'.toNat]) := by
  cases hc : canonicalMembers P l with
  | some ms =>
    obtain ⟨ns, hn, hp⟩ := canonicalMembers_perm h hc
    rw [hn, Option.map_some, Option.map_some, sort_perm hp ((canonicalMembers_names hc).nodup hl)]
  | none =>
    cases hd : canonicalMembers P m with
    | none => rfl
    | some ns =>
      obtain ⟨us, hu, -⟩ := canonicalMembers_perm h.symm hd
      rw [hc] at hu
      cases hu

mutual

theorem canonicalize_identical : ∀ {a b : Js F}, Proper a → identical P a b = true →
    canonicalize P a = canonicalize P b
  | .array _ l, b, hp, hi => by
    cases b with
    | array _ m => rw [canonicalize, canonicalize, canonicalItems_identical hp (by rwa [identical] at hi)]
    | _ => simp [identical] at hi
  | .object _ l, b, hp, hi => by
    cases b with
    | object _ m =>
      obtain ⟨n, hn, ha, hk⟩ := identical_object hp hi
      rw [canonicalize, canonicalize, ← canonicalMembers_text_perm hn hk, canonicalMembers_alike hp.2 ha]
    | _ => simp [identical] at hi
  | .number x, b, _, hi => by
    cases b with
    | number y =>
      rw [identical] at hi
      rw [canonicalize, canonicalize, P.text_eq x y hi, P.finite_eq x y hi]
    | _ => simp [identical] at hi
  | .undefined, b, _, hi => by cases b <;> simp_all [identical, canonicalize]
  | .null, b, _, hi => by cases b <;> simp_all [identical, canonicalize]
  | .bool _, b, _, hi => by cases b <;> simp_all [identical, canonicalize]
  | .bigint _, b, _, hi => by cases b <;> simp_all [identical, canonicalize]
  | .string _, b, _, hi => by cases b <;> simp_all [identical, canonicalize]
  | .exotic _ _, b, _, hi => by cases b <;> simp_all [identical, canonicalize]

theorem canonicalItems_identical : ∀ {l m : List (Js F)}, ProperItems l → identicalItems P l m = true →
    canonicalItems P l = canonicalItems P m
  | [], m, _, hi => by
    cases m with
    | nil => rfl
    | cons => simp [identicalItems] at hi
  | a :: l, m, hp, hi => by
    cases m with
    | nil => simp [identicalItems] at hi
    | cons b m =>
      rw [identicalItems, Bool.and_eq_true] at hi
      have ha := canonicalize_identical hp.1 hi.1
      have hl := canonicalItems_identical hp.2 hi.2
      cases a with
      | undefined => cases b <;> simp_all [identical, canonicalItems]
      | _ => cases b <;> simp_all [identical, canonicalItems]

theorem canonicalMembers_alike : ∀ {l n : List (Text × Js F)}, ProperMembers l → Alike P l n →
    canonicalMembers P l = canonicalMembers P n
  | [], _, _, ha => by
    cases ha
    rfl
  | (k, v) :: l, _, hp, ha => by
    cases ha with
    | @cons _ b _ n hab ha =>
      obtain ⟨j, w⟩ := b
      obtain ⟨rfl, hi⟩ := hab
      have hv := canonicalize_identical hp.1 hi
      have hl := canonicalMembers_alike hp.2 ha
      cases v with
      | undefined => cases w <;> simp_all [identical, canonicalMembers]
      | _ => cases w <;> simp_all [identical, canonicalMembers]

end

end Js

end BettingHelper.Extension
