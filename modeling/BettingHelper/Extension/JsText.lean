/-
  BettingHelper.Extension.JsText — the bytes of JSON.stringify and of the canonical text.

  Proved, of a value without numbers whose texts are well formed: both texts have as many
  bytes (`stringify_size`, `canonicalize_size`), and as many as the text `rfc8785.dumps`
  writes of the value that json.loads reads (`size_toJs`).
-/

import BettingHelper.Extension.Js
import BettingHelper.Lib.JsonAscii
import BettingHelper.Lib.JsonSize

namespace BettingHelper.Extension

open Lib.Json

variable {F G : Type}

namespace Js

/-! ## Texts in UTF-16 units -/

theorem joinPairs_append {a : Text} (ha : wellFormed a = true) (b : Text) : joinPairs (a ++ b) = joinPairs a ++ joinPairs b := by
  induction a using wellFormed.induct with
  | case1 => rfl
  | case2 c =>
    simp only [wellFormed, Bool.and_eq_true, Bool.not_eq_true'] at ha
    exact joinPairs_cons ha.1 b
  | case3 c d s hc ih =>
    rw [wellFormed, if_pos hc, Bool.and_eq_true] at ha
    have hp : (isHigh c && isLow d) = true := by rw [hc, ha.1]; rfl
    rw [List.cons_append, List.cons_append, joinPairs, if_pos hp, joinPairs, if_pos hp, ih ha.2, List.cons_append]
  | case4 c d s hc ih =>
    rw [wellFormed, if_neg hc, Bool.and_eq_true] at ha
    have hc' : isHigh c = false := Bool.eq_false_iff.mpr hc
    rw [List.cons_append, joinPairs_cons hc', joinPairs_cons hc', ih ha.2, List.cons_append]

theorem utf8_append {a : Text} (ha : wellFormed a = true) (b : Text) : utf8 (a ++ b) = utf8 a ++ utf8 b := by
  rw [utf8, joinPairs_append ha, List.map_append, encode_append]
  rfl

theorem wellFormed_append {a b : Text} (ha : wellFormed a = true) (hb : wellFormed b = true) : wellFormed (a ++ b) = true := by
  induction a using wellFormed.induct with
  | case1 => exact hb
  | case2 c =>
    simp only [wellFormed, Bool.and_eq_true, Bool.not_eq_true'] at ha
    cases b with
    | nil => simp [wellFormed, ha]
    | cons d s => simp [wellFormed, ha, hb]
  | case3 c d s hc ih =>
    rw [wellFormed, if_pos hc, Bool.and_eq_true] at ha
    rw [List.cons_append, List.cons_append, wellFormed, if_pos hc, ha.1, ih ha.2]
    rfl
  | case4 c d s hc ih =>
    rw [wellFormed, if_neg hc, Bool.and_eq_true] at ha
    have := ih ha.2
    rw [List.cons_append] at this ⊢
    rw [List.cons_append, wellFormed, if_neg hc, ha.1, this]
    rfl

/-- Units that are no surrogates. -/
theorem wellFormed_ascii {a : Text} (ha : ∀ c ∈ a, c < 0xd800) : wellFormed a = true := by
  induction a using wellFormed.induct with
  | case1 => rfl
  | case2 c =>
    have := ha c (List.mem_singleton_self c)
    simp [wellFormed, isHigh, isLow]
    omega
  | case3 c d s hc ih =>
    have := ha c List.mem_cons_self
    simp [isHigh] at hc
    omega
  | case4 c d s hc ih =>
    have := ha c List.mem_cons_self
    rw [wellFormed, if_neg hc, ih fun x hx => ha x (List.mem_cons_of_mem c hx)]
    simp [isLow]
    omega

theorem escape_ascii {c : Nat} (hc : c < 0x80) : ∀ x ∈ escape c, x < 0x80 := by
  revert c
  decide

theorem escape_large {c : Nat} (hc : 0x80 ≤ c) : escape c = [c] := by
  have h1 : c ≠ '"'.toNat := fun h => by rw [h] at hc; exact absurd hc (by decide)
  have h2 : c ≠ '\\'.toNat := fun h => by rw [h] at hc; exact absurd hc (by decide)
  rw [escape, if_neg h1, if_neg h2, if_neg (by omega), if_neg (by omega), if_neg (by omega), if_neg (by omega),
    if_neg (by omega), if_neg (by omega)]

theorem escape_surrogate {c : Nat} (hc : (isHigh c || isLow c) = true) : escape c = [c] := by
  refine escape_large ?_
  simp [isHigh, isLow] at hc
  omega

/-- A text that is well formed is written as `rfc8785.dumps` writes it. -/
theorem escapeUnits_eq {s : Text} (hs : wellFormed s = true) : escapeUnits s = s.flatMap escape := by
  induction s using wellFormed.induct with
  | case1 => rfl
  | case2 c =>
    simp only [wellFormed, Bool.and_eq_true, Bool.not_eq_true'] at hs
    simp [escapeUnits, hs]
  | case3 c d s hc ih =>
    rw [wellFormed, if_pos hc, Bool.and_eq_true] at hs
    rw [escapeUnits, hc, hs.1, Bool.and_true, if_pos rfl, ih hs.2, List.flatMap_cons, List.flatMap_cons,
      escape_surrogate (by rw [hc]; rfl), escape_surrogate (by rw [hs.1, Bool.or_true])]
    rfl
  | case4 c d s hc ih =>
    rw [wellFormed, if_neg hc, Bool.and_eq_true, Bool.not_eq_true'] at hs
    have hc' : isHigh c = false := Bool.eq_false_iff.mpr hc
    rw [escapeUnits, hc', hs.1, Bool.false_and, if_neg (by simp), Bool.or_false, if_neg (by simp), ih hs.2]
    rfl

theorem quoteUnits_eq {s : Text} (hs : wellFormed s = true) : quoteUnits s = quote s := by
  rw [quoteUnits, escapeUnits_eq hs, quote]

theorem wellFormed_escape {s : Text} (hs : wellFormed s = true) : wellFormed (s.flatMap escape) = true := by
  induction s using wellFormed.induct with
  | case1 => rfl
  | case2 c =>
    rw [List.flatMap_cons, List.flatMap_nil, List.append_nil]
    by_cases hc : c < 0x80
    · exact wellFormed_ascii fun x hx => by have := escape_ascii hc x hx; omega
    · rw [escape_large (by omega)]
      exact hs
  | case3 c d s hc ih =>
    rw [wellFormed, if_pos hc, Bool.and_eq_true] at hs
    rw [List.flatMap_cons, List.flatMap_cons, escape_surrogate (by rw [hc]; rfl),
      escape_surrogate (by rw [hs.1, Bool.or_true]), List.singleton_append, List.singleton_append, wellFormed, if_pos hc,
      hs.1, ih hs.2]
    rfl
  | case4 c d s hc ih =>
    rw [wellFormed, if_neg hc, Bool.and_eq_true, Bool.not_eq_true'] at hs
    have hc' : isHigh c = false := Bool.eq_false_iff.mpr hc
    rw [List.flatMap_cons]
    refine wellFormed_append ?_ (ih hs.2)
    by_cases hlt : c < 0x80
    · exact wellFormed_ascii fun x hx => by have := escape_ascii hlt x hx; omega
    · rw [escape_large (by omega), wellFormed, hc', hs.1]
      rfl

theorem wellFormed_quote {s : Text} (hs : wellFormed s = true) : wellFormed (quote s) = true := by
  rw [quote, show '"'.toNat :: (s.flatMap escape ++ ['"'.toNat]) = ['"'.toNat] ++ (s.flatMap escape ++ ['"'.toNat]) from rfl]
  exact wellFormed_append (by decide) (wellFormed_append (wellFormed_escape hs) (by decide))

theorem wellFormed_commas {ts : List Text} (h : ∀ t ∈ ts, wellFormed t = true) : wellFormed (commas ts) = true := by
  induction ts with
  | nil => rfl
  | cons t l ih =>
    cases l with
    | nil => exact h t List.mem_cons_self
    | cons u l =>
      rw [commas_cons t (List.cons_ne_nil u l)]
      refine wellFormed_append (h t List.mem_cons_self) ?_
      exact wellFormed_append (a := [','.toNat]) (by decide) (ih fun x hx => h x (List.mem_cons_of_mem t hx))

theorem utf8_commas {ts : List Text} (h : ∀ t ∈ ts, wellFormed t = true) :
    (utf8 (commas ts)).length = joinedSize (ts.map fun t => (utf8 t).length) := by
  induction ts with
  | nil => rfl
  | cons t l ih =>
    cases l with
    | nil => simp [commas, joinedSize]
    | cons u l =>
      have hl := ih fun x hx => h x (List.mem_cons_of_mem t hx)
      have hcomma : (utf8 (','.toNat :: commas (u :: l))).length = (utf8 (commas (u :: l))).length + 1 := by
        rw [show ','.toNat :: commas (u :: l) = [','.toNat] ++ commas (u :: l) from rfl, utf8_append (by decide),
          List.length_append, Nat.add_comm]
        rfl
      rw [commas_cons t (List.cons_ne_nil u l), utf8_append (h t List.mem_cons_self), List.length_append, hcomma, hl]
      simp only [joinedSize, List.map_cons, List.sum_cons, List.length_cons, List.length_map]
      omega

theorem utf8_enclosed {a b : Nat} (ha : a < 0x80) (hb : b < 0x80) {t : Text} (ht : wellFormed t = true) :
    (utf8 (a :: (t ++ [b]))).length = (utf8 t).length + 2 := by
  have hone : ∀ c < 0x80, wellFormed [c] = true ∧ (utf8 [c]).length = 1 := by decide
  rw [show a :: (t ++ [b]) = [a] ++ (t ++ [b]) from rfl, utf8_append (hone a ha).1, utf8_append ht, List.length_append,
    List.length_append, (hone a ha).2, (hone b hb).2]
  omega

/-! ## Values -/

mutual

/-- No number and nothing that JSON has not, and every text is well formed. -/
def Written : Js F → Prop
  | .null => True
  | .bool _ => True
  | .string s => wellFormed s = true
  | .array _ l => WrittenItems l
  | .object _ l => WrittenMembers l
  | _ => False

def WrittenItems : List (Js F) → Prop
  | [] => True
  | v :: l => Written v ∧ WrittenItems l

def WrittenMembers : List (Text × Js F) → Prop
  | [] => True
  | (k, v) :: l => wellFormed k = true ∧ Written v ∧ WrittenMembers l

end

mutual

def size : Js F → Nat
  | .null => 4
  | .bool b => if b then 4 else 5
  | .string s => (utf8 (quote s)).length
  | .array _ l => joinedSize (itemSizes l) + 2
  | .object _ l => joinedSize (memberSizes l) + 2
  | _ => 0

def itemSizes : List (Js F) → List Nat
  | [] => []
  | v :: l => size v :: itemSizes l

def memberSizes : List (Text × Js F) → List Nat
  | [] => []
  | (k, v) :: l => ((utf8 (quote k)).length + 1 + size v) :: memberSizes l

end

variable {P : Platform F}

theorem wellFormed_member {k t : Text} (hk : wellFormed k = true) (ht : wellFormed t = true) :
    wellFormed (quote k ++ ':'.toNat :: t) = true :=
  wellFormed_append (wellFormed_quote hk) (wellFormed_append (a := [':'.toNat]) (by decide) ht)

theorem utf8_member {k t : Text} (hk : wellFormed k = true) :
    (utf8 (quote k ++ ':'.toNat :: t)).length = (utf8 (quote k)).length + 1 + (utf8 t).length := by
  rw [utf8_append (wellFormed_quote hk), show ':'.toNat :: t = [':'.toNat] ++ t from rfl, utf8_append (by decide),
    List.length_append, List.length_append, Nat.add_assoc]
  rfl

theorem wellFormed_enclosed {a b : Nat} (ha : a < 0x80) (hb : b < 0x80) {t : Text} (ht : wellFormed t = true) :
    wellFormed (a :: (t ++ [b])) = true := by
  have hone : ∀ c < 0x80, wellFormed [c] = true := by decide
  exact wellFormed_append (hone a ha) (wellFormed_append ht (hone b hb))

mutual

theorem stringify_size : ∀ v : Js F, Written v → ∃ t, v.stringify P = some (some t) ∧ wellFormed t = true ∧ (utf8 t).length = size v
  | .null, _ => ⟨_, rfl, by decide, rfl⟩
  | .bool true, _ => ⟨_, rfl, by decide, rfl⟩
  | .bool false, _ => ⟨_, rfl, by decide, rfl⟩
  | .string s, h => ⟨quote s, by rw [stringify, quoteUnits_eq h], wellFormed_quote h, rfl⟩
  | .array _ l, h => by
    obtain ⟨ts, ht, hw, hs⟩ := stringifyItems_size l h
    refine ⟨_, by rw [stringify, ht]; rfl, wellFormed_enclosed (by decide) (by decide) (wellFormed_commas hw), ?_⟩
    rw [utf8_enclosed (by decide) (by decide) (wellFormed_commas hw), utf8_commas hw, hs, size]
  | .object _ l, h => by
    obtain ⟨ts, ht, hw, hs⟩ := stringifyMembers_size l h
    refine ⟨_, by rw [stringify, ht]; rfl, wellFormed_enclosed (by decide) (by decide) (wellFormed_commas hw), ?_⟩
    rw [utf8_enclosed (by decide) (by decide) (wellFormed_commas hw), utf8_commas hw, hs, size]

theorem stringifyItems_size : ∀ l : List (Js F), WrittenItems l → ∃ ts, stringifyItems P l = some ts ∧
    (∀ t ∈ ts, wellFormed t = true) ∧ (ts.map fun t => (utf8 t).length) = itemSizes l
  | [], _ => ⟨[], rfl, fun _ ht => (nomatch ht), rfl⟩
  | v :: l, h => by
    obtain ⟨t, ht, hw, hs⟩ := stringify_size v h.1
    obtain ⟨ts, hts, hws, hss⟩ := stringifyItems_size l h.2
    exact ⟨t :: ts, by rw [stringifyItems, ht, hts]; rfl, List.forall_mem_cons.mpr ⟨hw, hws⟩,
      by rw [List.map_cons, hs, hss, itemSizes]⟩

theorem stringifyMembers_size : ∀ l : List (Text × Js F), WrittenMembers l → ∃ ts, stringifyMembers P l = some ts ∧
    (∀ t ∈ ts, wellFormed t = true) ∧ (ts.map fun t => (utf8 t).length) = memberSizes l
  | [], _ => ⟨[], rfl, fun _ ht => (nomatch ht), rfl⟩
  | (k, v) :: l, h => by
    obtain ⟨t, ht, hw, hs⟩ := stringify_size v h.2.1
    obtain ⟨ts, hts, hws, hss⟩ := stringifyMembers_size l h.2.2
    refine ⟨(quote k ++ ':'.toNat :: t) :: ts, ?_, List.forall_mem_cons.mpr ⟨wellFormed_member h.1 hw, hws⟩, ?_⟩
    · rw [stringifyMembers, ht, hts, quoteUnits_eq h.1]
      rfl
    · rw [List.map_cons, utf8_member h.1, hs, hss, memberSizes]

end

theorem canonicalItems_cons {v : Js F} (hv : Written v) (l : List (Js F)) : canonicalItems P (v :: l) =
    (v.canonicalize P).bind fun t => (canonicalItems P l).map (t :: ·) := by
  cases v with
  | undefined => exact hv.elim
  | _ => simp [canonicalItems, Option.map_eq_bind]

mutual

theorem canonicalize_size : ∀ v : Js F, Written v → ∃ t, v.canonicalize P = some t ∧ wellFormed t = true ∧ (utf8 t).length = size v
  | .null, _ => ⟨_, rfl, by decide, rfl⟩
  | .bool true, _ => ⟨_, rfl, by decide, rfl⟩
  | .bool false, _ => ⟨_, rfl, by decide, rfl⟩
  | .string s, h => ⟨quote s, if_pos h, wellFormed_quote h, rfl⟩
  | .array _ l, h => by
    obtain ⟨ts, ht, hw, hs⟩ := canonicalItems_size l h
    refine ⟨_, by rw [canonicalize, ht]; rfl, wellFormed_enclosed (by decide) (by decide) (wellFormed_commas hw), ?_⟩
    rw [utf8_enclosed (by decide) (by decide) (wellFormed_commas hw), utf8_commas hw, hs, size]
  | .object _ l, h => by
    obtain ⟨ms, hm, hw, hs⟩ := canonicalMembers_size l h
    -- sorting the members only permutes them
    have hp := List.perm_insertionSort (fun a b : Text × Text => a.1 ≤ b.1) ms
    have hw' : ∀ t ∈ (ms.insertionSort fun a b => a.1 ≤ b.1).map (·.2), wellFormed t = true := by
      intro t ht
      obtain ⟨m, hm, rfl⟩ := List.mem_map.mp ht
      exact hw m (hp.mem_iff.mp hm)
    refine ⟨_, by rw [canonicalize, hm]; rfl, wellFormed_enclosed (by decide) (by decide) (wellFormed_commas hw'), ?_⟩
    rw [utf8_enclosed (by decide) (by decide) (wellFormed_commas hw'), utf8_commas hw', List.map_map, size]
    exact congrArg (· + 2) ((joinedSize_perm (hp.map fun m : Text × Text => (utf8 m.2).length)).trans (congrArg joinedSize hs))

theorem canonicalItems_size : ∀ l : List (Js F), WrittenItems l → ∃ ts, canonicalItems P l = some ts ∧
    (∀ t ∈ ts, wellFormed t = true) ∧ (ts.map fun t => (utf8 t).length) = itemSizes l
  | [], _ => ⟨[], rfl, fun _ ht => (nomatch ht), rfl⟩
  | v :: l, h => by
    obtain ⟨t, ht, hw, hs⟩ := canonicalize_size v h.1
    obtain ⟨ts, hts, hws, hss⟩ := canonicalItems_size l h.2
    exact ⟨t :: ts, by rw [canonicalItems_cons h.1, ht, hts]; rfl, List.forall_mem_cons.mpr ⟨hw, hws⟩,
      by rw [List.map_cons, hs, hss, itemSizes]⟩

theorem canonicalMembers_size : ∀ l : List (Text × Js F), WrittenMembers l → ∃ ms, canonicalMembers P l = some ms ∧
    (∀ m ∈ ms, wellFormed m.2 = true) ∧ (ms.map fun m => (utf8 m.2).length) = memberSizes l
  | [], _ => ⟨[], rfl, fun _ ht => (nomatch ht), rfl⟩
  | (k, v) :: l, h => by
    obtain ⟨t, ht, hw, hs⟩ := canonicalize_size v h.2.1
    obtain ⟨ms, hms, hws, hss⟩ := canonicalMembers_size l h.2.2
    refine ⟨(k, quote k ++ ':'.toNat :: t) :: ms, canonicalMembers_cons.mpr (.inr ⟨t, ms, ht, hms, h.1, rfl⟩),
      List.forall_mem_cons.mpr ⟨wellFormed_member h.1 hw, hws⟩, ?_⟩
    rw [List.map_cons, utf8_member h.1, hs, hss, memberSizes]

end

end Js

/-! ## What JSON.parse reads where json.loads reads a value -/

mutual

def toJs (num : Int → G) (flt : F → G) : Value F → Js G
  | .null => .null
  | .bool b => .bool b
  | .int n => .number (num n)
  | .float x => .number (flt x)
  | .str s => .string (utf16 s)
  | .arr l => .array 0 (toJsItems num flt l)
  | .obj l => .object 0 (toJsMembers num flt l)

def toJsItems (num : Int → G) (flt : F → G) : List (Value F) → List (Js G)
  | [] => []
  | v :: l => toJs num flt v :: toJsItems num flt l

def toJsMembers (num : Int → G) (flt : F → G) : List (Text × Value F) → List (Text × Js G)
  | [] => []
  | (k, v) :: l => (utf16 k, toJs num flt v) :: toJsMembers num flt l

end

variable {num : Int → G} {flt : F → G}

theorem wellFormed_utf16 {s : Text} (hs : s.all isScalar) : Js.wellFormed (utf16 s) = true := by
  induction s with
  | nil => rfl
  | cons c s ih =>
    rw [List.all_cons, Bool.and_eq_true] at hs
    refine Js.wellFormed_append ?_ (ih hs.2)
    have hc := hs.1
    simp [isScalar] at hc
    unfold utf16Units
    split_ifs with h
    · simp [Js.wellFormed, isHigh, isLow]
      omega
    · have hhigh : isHigh (0xd800 + (c - 0x10000) / 0x400) = true := by
        simp [isHigh]
        omega
      have hlow : isLow (0xdc00 + (c - 0x10000) % 0x400) = true := by
        simp [isLow]
        omega
      rw [Js.wellFormed, if_pos hhigh, hlow]
      rfl

theorem utf8_utf16 {s : Text} (hs : s.all isScalar) : Js.utf8 (utf16 s) = encode s := by
  rw [Js.utf8, joinPairs_utf16 hs]
  congr 1
  conv_rhs => rw [← List.map_id s]
  refine List.map_congr_left fun c hc => ?_
  rw [if_pos (List.all_eq_true.mp hs c hc), id]

theorem escape_utf16 (s : Text) : (utf16 s).flatMap escape = utf16 (s.flatMap escape) := by
  induction s with
  | nil => rfl
  | cons c s ih =>
    have hone : (utf16Units c).flatMap escape = utf16 (escape c) := by
      by_cases hlt : c < 0x80
      · have ha : (escape c).all (· < 0x80) := List.all_eq_true.mpr fun x hx => decide_eq_true (Js.escape_ascii hlt x hx)
        rw [utf16_ascii ha, utf16Units, if_pos (by omega), List.flatMap_cons, List.flatMap_nil, List.append_nil]
      · rw [Js.escape_large (by omega), utf16, List.flatMap_cons, List.flatMap_nil, List.append_nil, utf16Units]
        split_ifs with h
        · rw [List.flatMap_cons, List.flatMap_nil, List.append_nil, Js.escape_large (by omega)]
        · rw [List.flatMap_cons, List.flatMap_cons, List.flatMap_nil, List.append_nil, Js.escape_large (by omega),
            Js.escape_large (by omega)]
          rfl
    rw [utf16, List.flatMap_cons, List.flatMap_append, hone, ← utf16, ih, List.flatMap_cons, utf16, utf16, utf16,
      List.flatMap_append]

theorem quote_utf16 (s : Text) : quote (utf16 s) = utf16 (quote s) := by
  have hq : utf16 ['"'.toNat] = ['"'.toNat] := rfl
  have happ : ∀ a b, utf16 (a ++ b) = utf16 a ++ utf16 b := fun a b => List.flatMap_append
  rw [quote, escape_utf16, quote, show '"'.toNat :: (s.flatMap escape ++ ['"'.toNat]) = ['"'.toNat] ++ (s.flatMap escape ++ ['"'.toNat])
    from rfl, happ, happ, hq]
  rfl

theorem utf8_quote {s : Text} (hs : s.all isScalar) : Js.utf8 (quote (utf16 s)) = encode (quote s) := by
  rw [quote_utf16, utf8_utf16 (quote_scalar hs)]

mutual

theorem written_toJs : ∀ v : Value F, Free v → (toJs num flt v).Written
  | .null, _ => trivial
  | .bool _, _ => trivial
  | .int _, h => h.elim
  | .float _, h => h.elim
  | .str _, h => wellFormed_utf16 h
  | .arr l, h => written_toJsItems l h
  | .obj l, h => written_toJsMembers l h

theorem written_toJsItems : ∀ l : List (Value F), FreeItems l → Js.WrittenItems (toJsItems num flt l)
  | [], _ => trivial
  | v :: l, h => ⟨written_toJs v h.1, written_toJsItems l h.2⟩

theorem written_toJsMembers : ∀ l : List (Text × Value F), FreeMembers l → Js.WrittenMembers (toJsMembers num flt l)
  | [], _ => trivial
  | (_, v) :: l, h => ⟨wellFormed_utf16 h.1, written_toJs v h.2.1, written_toJsMembers l h.2.2⟩

end

mutual

theorem size_toJs : ∀ v : Value F, Free v → (toJs num flt v).size = size v
  | .null, _ => rfl
  | .bool _, _ => rfl
  | .int _, h => h.elim
  | .float _, h => h.elim
  | .str _, h => congrArg List.length (utf8_quote h)
  | .arr l, h => by rw [toJs, Js.size, size, itemSizes_toJs l h]
  | .obj l, h => by rw [toJs, Js.size, size, memberSizes_toJs l h]

theorem itemSizes_toJs : ∀ l : List (Value F), FreeItems l → Js.itemSizes (toJsItems num flt l) = itemSizes l
  | [], _ => rfl
  | v :: l, h => by rw [toJsItems, Js.itemSizes, itemSizes, size_toJs v h.1, itemSizes_toJs l h.2]

theorem memberSizes_toJs : ∀ l : List (Text × Value F), FreeMembers l → Js.memberSizes (toJsMembers num flt l) = memberSizes l
  | [], _ => rfl
  | (k, v) :: l, h => by
    rw [toJsMembers, Js.memberSizes, memberSizes, size_toJs v h.2.1, memberSizes_toJs l h.2.2, utf8_quote h.1]

end

end BettingHelper.Extension
