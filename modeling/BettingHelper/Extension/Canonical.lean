/-
  BettingHelper.Extension.Canonical — `parseStrictJson` and `canonicalContentHash` of
  canonical.ts.

  SHA-256 is a parameter (`digest`, its result in hexadecimal). A registry is what its type
  says, without other members.

  Proved:
  - `parseStrictJson_proper`: a parsed value has no object with two members of one name.
  - `hash_identical`: values that `identicalEntry` takes for one have one content hash.
-/

import BettingHelper.Extension.Js
import BettingHelper.Extension.StrictJson

namespace BettingHelper.Extension

open Lib.Json (Text Value Literal text decode utf16)

structure CanonicalDomain where
  artifactType : Text
  domain : Text
  excludedJsonPointers : List Text
  deriving DecidableEq

structure DomainValidationClass where
  artifactTypes : List Text
  classId : Text
  deriving DecidableEq

structure SchemaBindingGroup where
  artifactTypes : List Text
  requiredExcludedJsonPointers : List Text
  deriving DecidableEq

structure CanonicalRegistry where
  domains : List CanonicalDomain
  domainValidationClasses : List DomainValidationClass
  schemaBindingGroups : List SchemaBindingGroup
  deriving DecidableEq

variable {F : Type}

/-- The parser and the Unicode check; `none` where they throw. -/
def parseStrictJson (P : Platform F) (raw : List UInt8) : Option (Js F) :=
  if raw.take 3 = [0xef, 0xbb, 0xbf] then none
  else
    match decode raw with
    | none => none
    | some source =>
      match StrictJson.parse P.number (utf16 source) with
      | .error _ => none
      | .ok value => if ((Js.ofValue 0 value).1).unicode P then some (Js.ofValue 0 value).1 else none

theorem parseStrictJson_ok {bytes : List UInt8} {source : Text} {value : Value F} (hb : bytes.take 3 ≠ [0xef, 0xbb, 0xbf])
    (hd : decode bytes = some source) (hp : StrictJson.parse P.number (utf16 source) = .ok value)
    (hu : ((Js.ofValue 0 value).1).unicode P = true) : parseStrictJson P bytes = some (Js.ofValue 0 value).1 := by
  rw [parseStrictJson, if_neg hb, hd]
  simp only [hp]
  rw [if_pos hu]

def validateRegisteredExclusions (artifactType : Text) (exclusions : List Text) (registry : CanonicalRegistry) : Bool :=
  match registry.domainValidationClasses.filter fun c => artifactType ∈ c.artifactTypes with
  | [c] =>
    if c.classId = text "GOVERNED_NO_EXCLUSION" then exclusions = []
    else if c.classId = text "SCHEMA_GATED_SELF_HASH" then
      match registry.schemaBindingGroups.filter fun g => artifactType ∈ g.artifactTypes with
      | [g] => g.requiredExcludedJsonPointers = exclusions
      | _ => false
    else false
  | _ => false

/-- One reference token: `(?:[^/~]|~[01])+`, read. -/
def pointerToken : Text → Option Text
  | [] => some []
  | [c] => if c = '/'.toNat ∨ c = '~'.toNat then none else some [c]
  | c :: d :: s =>
    if c = '/'.toNat then none
    else if c = '~'.toNat then
      if d = '0'.toNat then (pointerToken s).map ('~'.toNat :: ·)
      else if d = '1'.toNat then (pointerToken s).map ('/'.toNat :: ·)
      else none
    else (pointerToken (d :: s)).map (c :: ·)

/-- The member a pointer excludes. -/
def pointerKey (pointer : Text) : Option Text :=
  match pointer with
  | c :: s => if c = '/'.toNat ∧ s ≠ [] then pointerToken s else none
  | [] => none

def hasOwn (l : List (Text × Js F)) (k : Text) : Bool := (l.lookup k).isSome

/-- The names that the pointers exclude from an object that has them all. -/
def excludedKeys (pointers : List Text) (l : List (Text × Js F)) : Option (List Text) :=
  match pointers.mapM pointerKey with
  | none => none
  | some keys => if keys.all (hasOwn l) then some keys else none

/-- The bytes of an object's members, those excluded left out. -/
def canonicalMemberBytes (P : Platform F) (registry : CanonicalRegistry) (artifactType : Text) (l : List (Text × Js F)) :
    Option (List UInt8) :=
  match registry.domains.filter fun d => d.artifactType = artifactType with
  | [domain] =>
    if validateRegisteredExclusions artifactType domain.excludedJsonPointers registry then
      match excludedKeys domain.excludedJsonPointers l with
      | none => none
      | some keys =>
        let hashable : Js F := .object 0 (l.filter fun m => m.1 ∉ keys)
        if hashable.unicode P then
          (hashable.canonicalize P).map fun canonical => Js.utf8 domain.domain ++ Js.utf8 canonical
        else none
    else none
  | _ => none

/-- An exotic object has no members here; no caller hashes one. -/
def canonicalPreimage (P : Platform F) (registry : CanonicalRegistry) (artifactType : Text) (v : Js F) : Option (List UInt8) :=
  match v with
  | .object _ l => canonicalMemberBytes P registry artifactType l
  | _ => none

def canonicalContentHash (P : Platform F) (digest : List UInt8 → Text) (registry : CanonicalRegistry) (artifactType : Text)
    (v : Js F) : Option Text :=
  (canonicalPreimage P registry artifactType v).map digest

/-! ## What is parsed -/

section Parsed

mutual

theorem proper_ofValue : ∀ (n : Nat) (v : Value F), Lib.Json.Distinct v → (Js.ofValue n v).1.Proper
  | _, .null, _ => trivial
  | _, .bool _, _ => trivial
  | _, .int _, _ => trivial
  | _, .float _, _ => trivial
  | _, .str _, _ => trivial
  | n, .arr l, h => proper_ofItems (n + 1) l h
  | n, .obj l, h => ⟨by rw [names_ofMembers]; exact h.1, proper_ofMembers (n + 1) l h.2⟩

theorem proper_ofItems : ∀ (n : Nat) (l : List (Value F)), Lib.Json.DistinctItems l → Js.ProperItems (Js.ofItems n l).1
  | _, [], _ => trivial
  | _, _ :: l, h => ⟨proper_ofValue _ _ h.1, proper_ofItems _ l h.2⟩

theorem proper_ofMembers : ∀ (n : Nat) (l : List (Text × Value F)), Lib.Json.DistinctMembers l →
    Js.ProperMembers (Js.ofMembers n l).1
  | _, [], _ => trivial
  | _, (_, _) :: l, h => ⟨proper_ofValue _ _ h.1, proper_ofMembers _ l h.2⟩

theorem names_ofMembers : ∀ (n : Nat) (l : List (Text × Value F)), (Js.ofMembers n l).1.map (·.1) = l.map (·.1)
  | _, [] => rfl
  | _, (k, _) :: l => congrArg (k :: ·) (names_ofMembers _ l)

end

theorem parseStrictJson_some {P : Platform F} {raw : List UInt8} {v : Js F} (h : parseStrictJson P raw = some v) :
    ∃ source value, decode raw = some source ∧ StrictJson.parse P.number (utf16 source) = .ok value ∧
      v = (Js.ofValue 0 value).1 ∧ v.unicode P = true := by
  unfold parseStrictJson at h
  split_ifs at h
  split at h
  · cases h
  · next source hs =>
    split at h
    · cases h
    · next value hv =>
      split_ifs at h with hu
      cases h
      exact ⟨source, value, hs, hv, rfl, hu⟩

theorem parseStrictJson_proper {P : Platform F} {raw : List UInt8} {v : Js F} (h : parseStrictJson P raw = some v) : v.Proper := by
  obtain ⟨_, value, -, hv, rfl, -⟩ := parseStrictJson_some h
  exact proper_ofValue 0 value ((StrictJson.parse_ok_iff _ _ _).mp hv).distinct

end Parsed

/-! ## One hash for identical values -/

section Identical

variable {P : Platform F}

theorem excludedKeys_congr {l m : List (Text × Js F)} (h : ∀ k, hasOwn l k = hasOwn m k) (pointers : List Text) :
    excludedKeys pointers l = excludedKeys pointers m := by
  have : hasOwn l = hasOwn m := funext h
  unfold excludedKeys
  rw [this]

theorem alike_filter {l n : List (Text × Js F)} (h : Js.Alike P l n) (p : Text → Bool) :
    Js.Alike P (l.filter fun m => p m.1) (n.filter fun m => p m.1) := by
  induction h with
  | nil => exact .nil
  | @cons a b _ _ hab _ ih =>
    rw [List.filter_cons, List.filter_cons, ← hab.1]
    cases p a.1 with
    | true => exact .cons hab ih
    | false => exact ih

theorem properMembers_filter {l : List (Text × Js F)} (h : Js.ProperMembers l) (p : Text × Js F → Bool) :
    Js.ProperMembers (l.filter p) := by
  induction l with
  | nil => exact h
  | cons a l ih =>
    rw [List.filter_cons]
    cases p a with
    | true => exact ⟨h.1, ih h.2⟩
    | false => exact ih h.2

/-- The bytes do not depend on the order of the members, nor on what of them is only identical. -/
theorem memberBytes_alike {l n m : List (Text × Js F)} (hl : (l.map (·.1)).Nodup) (hp : Js.ProperMembers l)
    (ha : Js.Alike P l n) (hn : n.Perm m) (registry : CanonicalRegistry) (artifactType : Text) :
    canonicalMemberBytes P registry artifactType l = canonicalMemberBytes P registry artifactType m := by
  have hk : (n.map (·.1)).Nodup := Js.alike_keys ha ▸ hl
  have hown : ∀ k, hasOwn l k = hasOwn m k := by
    intro k
    unfold hasOwn
    rw [← Js.lookup_perm hn hk]
    rcases Js.lookup_alike ha k with ⟨h1, h2⟩ | ⟨u, w, h1, h2, -⟩
    · rw [h1, h2]
    · rw [h1, h2]
      rfl
  have hashable : ∀ keys : List Text,
      ((Js.object 0 (l.filter fun m => m.1 ∉ keys)).unicode P = (Js.object 0 (m.filter fun m => m.1 ∉ keys)).unicode P) ∧
      ((Js.object 0 (l.filter fun m => m.1 ∉ keys)).canonicalize P = (Js.object 0 (m.filter fun m => m.1 ∉ keys)).canonicalize P) := by
    intro keys
    have hf := alike_filter ha fun k => decide (k ∉ keys)
    have hpf := properMembers_filter hp fun m => decide (m.1 ∉ keys)
    have hperm := hn.filter fun m => decide (m.1 ∉ keys)
    have hkf : ((n.filter fun m => decide (m.1 ∉ keys)).map (·.1)).Nodup := hk.sublist (List.filter_sublist.map _)
    constructor
    · rw [Js.unicode, Js.unicode, ← Js.unicodeMembers_perm hperm]
      exact Js.unicodeMembers_alike hpf hf
    · rw [Js.canonicalize, Js.canonicalize, ← Js.canonicalMembers_text_perm hperm hkf, Js.canonicalMembers_alike hpf hf]
  unfold canonicalMemberBytes
  split
  · split_ifs
    · rw [excludedKeys_congr hown]
      split
      · rfl
      · next keys _ =>
        obtain ⟨h1, h2⟩ := hashable keys
        simp only [h1, h2]
    · rfl
  · rfl

theorem hash_identical {a b : Js F} (hp : a.Proper) (hi : Js.identical P a b = true)
    (digest : List UInt8 → Text) (registry : CanonicalRegistry) (artifactType : Text) :
    canonicalContentHash P digest registry artifactType a = canonicalContentHash P digest registry artifactType b := by
  cases a with
  | object r l =>
    cases b with
    | object s m =>
      obtain ⟨n, hn, ha, -⟩ := Js.identical_object hp hi
      rw [canonicalContentHash, canonicalContentHash, canonicalPreimage, canonicalPreimage,
        memberBytes_alike hp.1 hp.2 ha hn]
    | _ => simp [Js.identical] at hi
  | _ => cases b <;> simp_all [Js.identical, canonicalContentHash, canonicalPreimage]

end Identical

end BettingHelper.Extension
