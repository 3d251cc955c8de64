/-
  BettingHelper.Lib.JsonIndent — what `json.dumps(_, ensure_ascii=False, indent=2)` writes,
  and that it is read back.

  Members are written in the order they are in; a reader that keeps them sorted by name
  reads the `normal` value.
-/

import BettingHelper.Lib.JsonDict
import BettingHelper.Lib.JsonGrammar
import BettingHelper.Lib.PyValue

namespace BettingHelper.Lib.Json

variable {F ε : Type}

/-! ## Writing -/

def newline (depth : Nat) : Text := '\n'.toNat :: List.replicate (2 * depth) ' '.toNat

mutual

def indented (floatText : F → Text) : Nat → Value F → Text
  | _, .null => text "null"
  | _, .bool b => if b then text "true" else text "false"
  | _, .int n => decimal n
  | _, .float x => floatText x
  | _, .str s => quote s
  | _, .arr [] => text "[]"
  | depth, .arr (v :: l) => '['.toNat :: (indentedItems floatText (depth + 1) (v :: l) ++ (newline depth ++ [']'.toNat]))
  | _, .obj [] => text "\x7b\x7d"
  | depth, .obj (m :: l) => '{'.toNat :: (indentedMembers floatText (depth + 1) (m :: l) ++ (newline depth ++ ['}'.toNat]))

def indentedItems (floatText : F → Text) : Nat → List (Value F) → Text
  | _, [] => []
  | depth, [v] => newline depth ++ indented floatText depth v
  | depth, v :: l => newline depth ++ (indented floatText depth v ++ ','.toNat :: indentedItems floatText depth l)

def indentedMembers (floatText : F → Text) : Nat → List (Text × Value F) → Text
  | _, [] => []
  | depth, [(k, v)] => newline depth ++ (quote k ++ (text ": " ++ indented floatText depth v))
  | depth, (k, v) :: l => newline depth ++ (quote k ++ (text ": " ++
      (indented floatText depth v ++ ','.toNat :: indentedMembers floatText depth l)))

end

/-! ## What is read -/

mutual

/-- The members of every object in the order of their names. -/
def normal : Value F → Value F
  | .arr l => .arr (normalItems l)
  | .obj l => .obj (dict (normalMembers l))
  | v => v

def normalItems : List (Value F) → List (Value F)
  | [] => []
  | v :: l => normal v :: normalItems l

def normalMembers : List (Text × Value F) → List (Text × Value F)
  | [] => []
  | (k, v) :: l => (k, normal v) :: normalMembers l

end

mutual

/-- No float, every text one of scalars, no name twice in an object. -/
def Legible : Value F → Prop
  | .float _ => False
  | .str s => s.all isScalar
  | .arr l => LegibleItems l
  | .obj l => (l.map (·.1)).Nodup ∧ LegibleMembers l
  | _ => True

def LegibleItems : List (Value F) → Prop
  | [] => True
  | v :: l => Legible v ∧ LegibleItems l

def LegibleMembers : List (Text × Value F) → Prop
  | [] => True
  | (k, v) :: l => k.all isScalar ∧ Legible v ∧ LegibleMembers l

end

theorem normalMembers_keys (l : List (Text × Value F)) : (normalMembers l).map (·.1) = l.map (·.1) := by
  induction l with
  | nil => rfl
  | cons m l ih => rw [normalMembers, List.map_cons, List.map_cons, ih]

/-- The hook sorts the members of an object that names none twice. -/
def Hooks.Sorts (h : Hooks F ε) : Prop := ∀ l : List (Text × Value F), (l.map (·.1)).Nodup → h.pairs l = .ok (.obj (dict l))

/-! ## Reading back -/

theorem newline_blanks (depth : Nat) : Blanks (newline depth) := by
  intro c hc
  rcases List.mem_cons.mp hc with rfl | hc
  · rfl
  · rw [List.eq_of_mem_replicate hc]
    rfl

theorem skip_newline (depth : Nat) (s : Text) : skip (newline depth ++ s) = skip s := skip_blanks (newline_blanks depth) s

theorem newline_stops (depth : Nat) (s : Text) : Stops (newline depth ++ s) := by
  intro c hc
  cases hc
  decide

theorem comma_stops (s : Text) : Stops (','.toNat :: s) := by
  intro c hc
  cases hc
  decide

theorem digits_valid (n : Int) : (⟨n < 0, (Nat.toDigits 10 n.natAbs).map Char.toNat, [], []⟩ : Literal).Valid := by
  refine ⟨?_, .inl rfl, .inl rfl⟩
  rcases Nat.eq_zero_or_pos n.natAbs with h | h
  · rw [h]
    exact .inl rfl
  · refine .inr ⟨⟨?_, digits_isDigit _⟩, digits_head h⟩
    simp [Nat.toDigits_ne_nil]

variable {h : Hooks F ε} {floatText : F → Text}

/-- An integer is read whole when nothing follows that could be part of it. -/
theorem number_stops (n : Int) {r : Text} (hr : Stops r) : h.number (decimal n ++ r) = .ok (.int n, r) := by
  have hm := matchNumber_text (digits_valid n) hr
  have ht : Literal.text ⟨n < 0, (Nat.toDigits 10 n.natAbs).map Char.toNat, [], []⟩ = decimal n := by
    simp only [Literal.text, decimal, List.append_nil, decide_eq_true_eq]
  rw [ht] at hm
  rw [Hooks.number, hm]
  exact congrArg (fun i => Except.ok (Value.int i, r)) (int_decimal n)

theorem scalar_stops {n : Int} {c : Nat} {u r : Text} (hc : decimal n = c :: u) (hr : Stops r) :
    scalar h c (u ++ r) = .ok (.int n, r) := by
  have hn : h.number (c :: (u ++ r)) = .ok (.int n, r) := by
    rw [← List.cons_append, ← hc]
    exact number_stops n hr
  rw [← hn]
  obtain ⟨d, v, hd, he | he⟩ := decimal_cons n
  · rw [he] at hc
    cases hc
    simp [isDigit] at hd
    unfold scalar
    repeat rw [if_neg (by simp; omega)]
  · rw [he] at hc
    cases hc
    have hi : after (text "Infinity") (d :: v ++ r) = none := by
      cases ha : after (text "Infinity") (d :: v ++ r) with
      | none => rfl
      | some t =>
        cases (List.cons.inj (after_eq.mp ha)).1
        cases hd
    unfold scalar
    rw [hi]
    rfl

/-- The text of a value starts with no blank and with nothing that closes. -/
theorem indented_head {v : Value F} (hv : Legible v) (depth : Nat) :
    ∃ c u, indented floatText depth v = c :: u ∧ isBlank c = false ∧ c ≠ '}'.toNat ∧ c ≠ ']'.toNat := by
  cases v with
  | null => exact ⟨_, _, rfl, by decide⟩
  | bool b => cases b <;> exact ⟨_, _, rfl, by decide⟩
  | int n =>
    obtain ⟨d, u, hd, hc | hc⟩ := decimal_cons n
    · refine ⟨d, u, by rw [indented, hc], ?_⟩
      simp [isDigit] at hd
      simp [isBlank]
      omega
    · exact ⟨_, _, by rw [indented, hc], by decide⟩
  | float x => exact hv.elim
  | str s => exact ⟨_, _, by rw [indented]; rfl, by decide⟩
  | arr l =>
    cases l with
    | nil => exact ⟨'['.toNat, [']'.toNat], by rw [indented]; rfl, by decide⟩
    | cons v l => exact ⟨'['.toNat, _, by rw [indented], by decide⟩
  | obj l =>
    cases l with
    | nil => exact ⟨'{'.toNat, ['}'.toNat], by rw [indented]; rfl, by decide⟩
    | cons m l => exact ⟨'{'.toNat, _, by rw [indented], by decide⟩

theorem skip_indented {v : Value F} (hv : Legible v) (depth : Nat) (s : Text) :
    skip (indented floatText depth v ++ s) = indented floatText depth v ++ s := by
  obtain ⟨c, u, hu, hb, -⟩ := @indented_head F floatText v hv depth
  rw [hu, List.cons_append, skip_cons hb]

theorem indentedItems_cons {v w : Value F} {l : List (Value F)} (depth : Nat) :
    indentedItems floatText depth (v :: w :: l) =
      newline depth ++ (indented floatText depth v ++ ','.toNat :: indentedItems floatText depth (w :: l)) := by
  rw [indentedItems]
  exact List.cons_ne_nil _ _

theorem indentedMembers_cons {k : Text} {v : Value F} {m : Text × Value F} {l : List (Text × Value F)} (depth : Nat) :
    indentedMembers floatText depth ((k, v) :: m :: l) = newline depth ++ (quote k ++ (text ": " ++
      (indented floatText depth v ++ ','.toNat :: indentedMembers floatText depth (m :: l)))) := by
  rw [indentedMembers]
  exact List.cons_ne_nil _ _

theorem name_indented {k s : Text} (hk : k.all isScalar) : name (quote k ++ (text ": " ++ s)) = some (k, skip s) := by
  have := @name_quote k (0x20 :: s) hk
  rwa [show skip (0x20 :: s) = skip s from skip_blanks (b := [0x20]) (by simp [Blanks, isBlank]) s] at this

theorem skip_quote (k s : Text) : skip (quote k ++ s) = quote k ++ s := skip_cons rfl

theorem newline_length (depth : Nat) : 1 ≤ (newline depth).length := by simp [newline]

/-- What the first item is read from. -/
theorem skip_items {v : Value F} (hv : Legible v) (l : List (Value F)) (depth : Nat) (s : Text) :
    ∃ c u, skip (indentedItems floatText depth (v :: l) ++ s) = c :: u ∧ c ≠ ']'.toNat := by
  obtain ⟨c, u, hu, hb, -, hc⟩ := @indented_head F floatText v hv depth
  cases l with
  | nil =>
    rw [indentedItems, List.append_assoc, skip_newline, skip_indented hv, hu]
    exact ⟨c, _, rfl, hc⟩
  | cons w l =>
    rw [indentedItems_cons, List.append_assoc, skip_newline, List.append_assoc, skip_indented hv, hu]
    exact ⟨c, _, rfl, hc⟩

theorem skip_members (m : Text × Value F) (l : List (Text × Value F)) (depth : Nat) (s : Text) :
    ∃ u, skip (indentedMembers floatText depth (m :: l) ++ s) = '"'.toNat :: u := by
  cases l with
  | nil =>
    rw [indentedMembers, List.append_assoc, skip_newline]
    exact ⟨_, rfl⟩
  | cons w l =>
    rw [indentedMembers_cons, List.append_assoc, skip_newline]
    exact ⟨_, rfl⟩

mutual

theorem value_indented (hh : h.Sorts) : ∀ (v : Value F) {d n : Nat} {r : Text}, Legible v → Stops r →
    2 * (indented floatText d v ++ r).length < n → value h n (indented floatText d v ++ r) = .ok (normal v, r)
  | v, _, 0, _, _, _, hn => absurd hn (Nat.not_lt_zero _)
  | .null, _, n + 1, _, _, _, _ => value_scalar (by decide) rfl
  | .bool b, _, n + 1, _, _, _, _ => by cases b <;> exact value_scalar (by decide) rfl
  | .int i, d, n + 1, r, hv, hr, _ => by
    obtain ⟨c, u, hu, hb, hc⟩ := @indented_head F floatText (.int i) hv d
    rw [hu, List.cons_append]
    rw [indented] at hu
    refine value_scalar ?_ (scalar_stops hu hr)
    obtain ⟨e, v, hd, he | he⟩ := decimal_cons i <;> rw [he] at hu <;> cases hu
    · refine ⟨?_, ?_, ?_⟩ <;> rintro rfl <;> cases hd
    · decide
  | .float x, _, _ + 1, _, hv, _, _ => hv.elim
  | .str s, d, n + 1, r, hv, _, _ => by
    refine value_ok.mpr ⟨_, s.flatMap escape ++ '"'.toNat :: r, ?_, .inl ⟨rfl, s, string_quote hv r, rfl⟩⟩
    rw [indented]
    simp [quote]
  | .arr [], _, n + 1, r, _, _, _ => value_ok.mpr ⟨'['.toNat, ']'.toNat :: r, rfl, .inr (.inr (.inr (.inl ⟨rfl, rfl, rfl⟩)))⟩
  | .arr (v :: l), d, n + 1, r, hv, _, hn => by
    rw [indented] at hn ⊢
    have hi := items_indented hh (v :: l) (d := d + 1) (n := n) (s := newline d ++ ']'.toNat :: r) (r := r)
      (List.cons_ne_nil v l) hv (skip_newline _ _) (newline_stops _ _) (by simp at hn ⊢; omega)
    obtain ⟨c, u, hu, hc⟩ := @skip_items F floatText v hv.1 l (d + 1) (newline d ++ ']'.toNat :: r)
    refine value_ok.mpr ⟨'['.toNat, indentedItems floatText (d + 1) (v :: l) ++ (newline d ++ ']'.toNat :: r), by simp,
      .inr (.inr (.inr (.inr (.inl ⟨rfl, ?_, normalItems (v :: l), hi, rfl⟩))))⟩
    rw [hu]
    exact after_none hc
  | .obj [], _, n + 1, r, _, _, _ =>
    value_ok.mpr ⟨'{'.toNat, '}'.toNat :: r, rfl, .inr (.inl ⟨rfl, rfl, hh [] List.nodup_nil⟩)⟩
  | .obj (m :: l), d, n + 1, r, hv, _, hn => by
    rw [indented] at hn ⊢
    have hi := members_indented hh (m :: l) (d := d + 1) (n := n) (s := newline d ++ '}'.toNat :: r) (r := r)
      (List.cons_ne_nil m l) hv.2 (skip_newline _ _) (newline_stops _ _) (by simp at hn ⊢; omega)
    obtain ⟨u, hu⟩ := @skip_members F floatText m l (d + 1) (newline d ++ '}'.toNat :: r)
    refine value_ok.mpr ⟨'{'.toNat, indentedMembers floatText (d + 1) (m :: l) ++ (newline d ++ '}'.toNat :: r), by simp,
      .inr (.inr (.inl ⟨rfl, ?_, normalMembers (m :: l), hi, hh _ ?_⟩))⟩
    · rw [hu]
      exact after_none (by decide)
    · rw [normalMembers_keys]
      exact hv.1

theorem items_indented (hh : h.Sorts) : ∀ (l : List (Value F)) {d n : Nat} {s r : Text}, l ≠ [] → LegibleItems l →
    skip s = ']'.toNat :: r → Stops s → 2 * (indentedItems floatText d l ++ s).length < n →
    items h n (skip (indentedItems floatText d l ++ s)) = .ok (normalItems l, r)
  | [], _, _, _, _, hl, _, _, _, _ => absurd rfl hl
  | _ :: _, _, 0, _, _, _, _, _, _, hn => absurd hn (Nat.not_lt_zero _)
  | [v], d, n + 1, s, r, _, hv, hs, hstop, hn => by
    have hlen := newline_length d
    rw [indentedItems, List.append_assoc, skip_newline, skip_indented hv.1]
    rw [indentedItems] at hn
    have h1 := value_indented hh v (d := d) (n := n) (r := s) hv.1 hstop (by simp at hn ⊢; omega)
    exact items_ok.mpr ⟨normal v, s, h1, .inl ⟨hs, rfl⟩⟩
  | v :: w :: l, d, n + 1, s, r, _, hv, hs, hstop, hn => by
    have hlen := newline_length d
    rw [indentedItems_cons, List.append_assoc, skip_newline, List.append_assoc, skip_indented hv.1, List.cons_append]
    rw [indentedItems_cons] at hn
    have h1 := value_indented hh v (d := d) (n := n)
      (r := ','.toNat :: (indentedItems floatText d (w :: l) ++ s)) hv.1 (comma_stops _) (by simp at hn ⊢; omega)
    have h2 := items_indented hh (w :: l) (d := d) (n := n) (List.cons_ne_nil w l) hv.2 hs hstop
      (by simp at hn ⊢; omega)
    exact items_ok.mpr ⟨normal v, _, h1, .inr ⟨_, normalItems (w :: l), skip_cons rfl, h2, rfl⟩⟩

theorem members_indented (hh : h.Sorts) : ∀ (l : List (Text × Value F)) {d n : Nat} {s r : Text}, l ≠ [] →
    LegibleMembers l → skip s = '}'.toNat :: r → Stops s → 2 * (indentedMembers floatText d l ++ s).length < n →
    members h n (skip (indentedMembers floatText d l ++ s)) = .ok (normalMembers l, r)
  | [], _, _, _, _, hl, _, _, _, _ => absurd rfl hl
  | _ :: _, _, 0, _, _, _, _, _, _, hn => absurd hn (Nat.not_lt_zero _)
  | [(k, v)], d, n + 1, s, r, _, hv, hs, hstop, hn => by
    have hlen := newline_length d
    rw [indentedMembers, List.append_assoc, skip_newline, List.append_assoc, skip_quote]
    rw [indentedMembers] at hn
    have h1 := value_indented hh v (d := d) (n := n) (r := s) hv.2.1 hstop (by simp at hn ⊢; omega)
    refine members_ok.mpr ⟨k, normal v, indented floatText d v ++ s, s, ?_, h1, .inl ⟨hs, rfl⟩⟩
    have := @name_indented k (indented floatText d v ++ s) hv.1
    rw [skip_indented hv.2.1] at this
    simpa using this
  | (k, v) :: m :: l, d, n + 1, s, r, _, hv, hs, hstop, hn => by
    have hlen := newline_length d
    rw [indentedMembers_cons, List.append_assoc, skip_newline, List.append_assoc, skip_quote]
    rw [indentedMembers_cons] at hn
    have h1 := value_indented hh v (d := d) (n := n)
      (r := ','.toNat :: (indentedMembers floatText d (m :: l) ++ s)) hv.2.1 (comma_stops _) (by simp at hn ⊢; omega)
    have h2 := members_indented hh (m :: l) (d := d) (n := n) (List.cons_ne_nil m l) hv.2.2 hs hstop
      (by simp at hn ⊢; omega)
    refine members_ok.mpr ⟨k, normal v, _, _, ?_, h1, .inr ⟨_, normalMembers (m :: l), skip_cons rfl, h2, rfl⟩⟩
    have := @name_indented k (indented floatText d v ++ ','.toNat :: (indentedMembers floatText d (m :: l) ++ s)) hv.1
    rw [skip_indented hv.2.1] at this
    simpa using this

end

/-! ## Bytes -/

theorem newline_scalar (depth : Nat) : (newline depth).all isScalar := by
  refine List.all_eq_true.mpr fun c hc => ?_
  rcases List.mem_cons.mp hc with rfl | hc
  · rfl
  · rw [List.eq_of_mem_replicate hc]
    rfl

mutual

theorem indented_scalar : ∀ (v : Value F) (depth : Nat), Legible v → (indented floatText depth v).all isScalar
  | .null, _, _ => rfl
  | .bool b, _, _ => by cases b <;> rfl
  | .int n, _, _ => by rw [indented]; exact decimal_scalar n
  | .float _, _, hv => hv.elim
  | .str s, _, hv => by rw [indented]; exact quote_scalar hv
  | .arr [], _, _ => rfl
  | .arr (v :: l), depth, hv => by
    rw [indented, List.all_cons, List.all_append, List.all_append, items_indented_scalar (v :: l) (depth + 1) hv,
      newline_scalar]
    rfl
  | .obj [], _, _ => rfl
  | .obj (m :: l), depth, hv => by
    rw [indented, List.all_cons, List.all_append, List.all_append, members_indented_scalar (m :: l) (depth + 1) hv.2,
      newline_scalar]
    rfl

theorem items_indented_scalar : ∀ (l : List (Value F)) (depth : Nat), LegibleItems l →
    (indentedItems floatText depth l).all isScalar
  | [], _, _ => rfl
  | [v], depth, hv => by
    rw [indentedItems, List.all_append, newline_scalar, indented_scalar v depth hv.1]
    rfl
  | v :: w :: l, depth, hv => by
    rw [indentedItems_cons, List.all_append, newline_scalar, List.all_append, indented_scalar v depth hv.1, List.all_cons,
      items_indented_scalar (w :: l) depth hv.2]
    rfl

theorem members_indented_scalar : ∀ (l : List (Text × Value F)) (depth : Nat), LegibleMembers l →
    (indentedMembers floatText depth l).all isScalar
  | [], _, _ => rfl
  | [(k, v)], depth, hv => by
    rw [indentedMembers, List.all_append, newline_scalar, List.all_append, quote_scalar hv.1, List.all_append,
      indented_scalar v depth hv.2.1]
    rfl
  | (k, v) :: m :: l, depth, hv => by
    rw [indentedMembers_cons, List.all_append, newline_scalar, List.all_append, quote_scalar hv.1, List.all_append,
      List.all_append, indented_scalar v depth hv.2.1, List.all_cons, members_indented_scalar (m :: l) depth hv.2.2]
    rfl

end

theorem legibleItems_iff {l : List (Value F)} : LegibleItems l ↔ ∀ v ∈ l, Legible v := by
  induction l with
  | nil => simp [LegibleItems]
  | cons v l ih => rw [LegibleItems, ih, List.forall_mem_cons]

theorem legibleMembers_iff {l : List (Text × Value F)} : LegibleMembers l ↔ ∀ m ∈ l, m.1.all isScalar ∧ Legible m.2 := by
  induction l with
  | nil => simp [LegibleMembers]
  | cons m l ih => rw [LegibleMembers, ih, List.forall_mem_cons, and_assoc]

/-- What is written is read as the normal value, blanks after it or none. -/
theorem loads_indented (hh : h.Sorts) {v : Value F} (hv : Legible v) {r : Text} (hr : Blanks r) :
    loads h (indented floatText 0 v ++ r) = .ok (normal v) := by
  have hstop : Stops r := by
    intro c hc
    cases r with
    | nil => cases hc
    | cons d r =>
      cases hc
      have := hr c List.mem_cons_self
      simp only [isBlank, Bool.or_eq_true, decide_eq_true_eq] at this
      rcases this with ((rfl | rfl) | rfl) | rfl <;> decide
  have hskip : skip r = [] := by
    have := skip_blanks hr []
    rwa [List.append_nil] at this
  rw [loads, skip_indented hv, value_indented hh v hv hstop (by omega)]
  show (if skip r = [] then _ else _) = _
  rw [if_pos hskip]

/-! ## Normal values -/

theorem normalMembers_map (l : List (Text × Value F)) : normalMembers l = l.map fun m => (m.1, normal m.2) := by
  induction l with
  | nil => rfl
  | cons m l ih => rw [normalMembers, ih, List.map_cons]

theorem normalItems_map (l : List (Value F)) : normalItems l = l.map normal := by
  induction l with
  | nil => rfl
  | cons v l ih => rw [normalItems, ih, List.map_cons]

/-- A member of a legible object is looked up in its normal value. -/
theorem lookup_normal {l : List (Text × Value F)} (hl : (l.map (·.1)).Nodup) {k : Text} {v : Value F} (hm : (k, v) ∈ l) :
    (dict (normalMembers l)).lookup k = some (normal v) := by
  refine lookup_dict ?_ ?_
  · rw [normalMembers_keys]
    exact hl
  · rw [normalMembers_map]
    exact List.mem_map.mpr ⟨(k, v), hm, rfl⟩

mutual

theorem legible_normal : ∀ {v : Value F}, Legible v → Legible (normal v)
  | .null, _ => trivial
  | .bool _, _ => trivial
  | .int _, _ => trivial
  | .float _, hv => hv.elim
  | .str _, hv => hv
  | .arr _, hv => legible_normalItems hv
  | .obj l, hv => by
    refine ⟨dict_nodup _, legibleMembers_iff.mpr fun m hm => ?_⟩
    exact legibleMembers_iff.mp (legible_normalMembers hv.2) m (dict_mem hm)

theorem legible_normalItems : ∀ {l : List (Value F)}, LegibleItems l → LegibleItems (normalItems l)
  | [], _ => trivial
  | _ :: _, hl => ⟨legible_normal hl.1, legible_normalItems hl.2⟩

theorem legible_normalMembers : ∀ {l : List (Text × Value F)}, LegibleMembers l → LegibleMembers (normalMembers l)
  | [], _ => trivial
  | (_, _) :: _, hl => ⟨hl.1, legible_normal hl.2.1, legible_normalMembers hl.2.2⟩

end

/-! ## Equality with itself -/

section Equal

variable [DecidableEq F] {whole : F → Option Int}

mutual

theorem equal_self : ∀ {v : Value F}, Legible v → equal whole v v = true
  | .null, _ => rfl
  | .bool _, _ => by simp [equal, integral]
  | .int _, _ => by simp [equal, integral]
  | .float _, hv => hv.elim
  | .str _, _ => by simp [equal]
  | .arr _, hv => by
    rw [equal]
    exact equalItems_self hv
  | .obj l, hv => by
    rw [equal, decide_eq_true rfl, Bool.true_and]
    exact equalMembers_self hv.2 fun k v hm => lookup_eq hv.1 hm

theorem equalItems_self : ∀ {l : List (Value F)}, LegibleItems l → equalItems whole l l = true
  | [], _ => rfl
  | _ :: _, hl => by rw [equalItems, equal_self hl.1, equalItems_self hl.2]; rfl

theorem equalMembers_self : ∀ {l m : List (Text × Value F)}, LegibleMembers l → (∀ k v, (k, v) ∈ l → m.lookup k = some v) →
    equalMembers whole l m = true
  | [], _, _, _ => rfl
  | (k, v) :: l, m, hl, hm => by
    rw [equalMembers, hm k v List.mem_cons_self]
    simp only [equal_self hl.2.1, Bool.true_and]
    exact equalMembers_self hl.2.2 fun j w hw => hm j w (List.mem_cons_of_mem _ hw)

end

end Equal

end BettingHelper.Lib.Json
