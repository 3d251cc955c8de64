/-
  BettingHelper.Lib.JsonAscii — the text `json.dumps` writes with `sort_keys` and no blanks:
  every character outside printable ASCII is escaped, by its UTF-16 units.

  Proved: `loads_ascii`, an object whose members are texts and integers is read back as it was. A text
  is read back when no high surrogate is in it, which holds of every name of a file.
-/

import BettingHelper.Lib.JsonText

namespace BettingHelper.Lib.Json

/-! ## Writing -/

def asciiUnit (u : Nat) : Text :=
  text "\\u" ++ [hexChar (u / 0x1000), hexChar (u / 0x100 % 16), hexChar (u / 16 % 16), hexChar (u % 16)]

def asciiEscape (c : Nat) : Text := if c < 0x7f then escape c else (utf16Units c).flatMap asciiUnit

def asciiQuote (s : Text) : Text := '"'.toNat :: (s.flatMap asciiEscape ++ ['"'.toNat])

mutual

/-- `json.dumps(value, sort_keys=True, separators=(",", ":"))`. -/
def asciiDumps : Doc → Text
  | .null => text "null"
  | .bool b => if b then text "true" else text "false"
  | .int n => decimal n
  | .float x => x
  | .str s => asciiQuote s
  | .arr l => '['.toNat :: (commas (asciiItems l) ++ [']'.toNat])
  | .obj l =>
    '{'.toNat :: (commas (((asciiMembers l).insertionSort fun a b => a.1 ≤ b.1).map (·.2)) ++ ['}'.toNat])

def asciiItems : List Doc → List Text
  | [] => []
  | v :: l => asciiDumps v :: asciiItems l

def asciiMembers : List (Text × Doc) → List (Text × Text)
  | [] => []
  | (k, v) :: l => (k, asciiQuote k ++ ':'.toNat :: asciiDumps v) :: asciiMembers l

end

/-! ## Reading back -/

theorem units_asciiUnit {u : Nat} (hu : u < 0x10000) (s : Text) :
    units (asciiUnit u ++ s) = (units s).map fun (l, r) => (u :: l, r) := by
  have hx : hex4 (hexChar (u / 0x1000)) (hexChar (u / 0x100 % 16)) (hexChar (u / 16 % 16)) (hexChar (u % 16)) = some u := by
    simp only [hex4, hexDigit_hexChar (show u / 0x1000 < 16 by omega), hexDigit_hexChar (show u / 0x100 % 16 < 16 by omega),
      hexDigit_hexChar (show u / 16 % 16 < 16 by omega), hexDigit_hexChar (show u % 16 < 16 by omega)]
    show some _ = some u
    congr 1
    omega
  show units ('\\'.toNat :: 'u'.toNat :: hexChar (u / 0x1000) :: hexChar (u / 0x100 % 16) :: hexChar (u / 16 % 16) ::
    hexChar (u % 16) :: s) = _
  rw [units.eq_def]
  simp only [hx]
  rfl

theorem units_asciiEscape {c : Nat} (hc : c < 0x110000) (s : Text) :
    units (asciiEscape c ++ s) = (units s).map fun (l, r) => (utf16Units c ++ l, r) := by
  unfold asciiEscape
  by_cases h : c < 0x7f
  · rw [if_pos h, units_escape, utf16Units, if_pos (by omega)]
    rfl
  · rw [if_neg h, utf16Units]
    split_ifs with hb
    · rw [List.flatMap_cons, List.flatMap_nil, List.append_nil, units_asciiUnit hb]
      rfl
    · rw [List.flatMap_cons, List.flatMap_cons, List.flatMap_nil, List.append_nil, List.append_assoc,
        units_asciiUnit (by omega), units_asciiUnit (by omega)]
      cases units s <;> rfl

theorem units_asciiQuote {s : Text} (hs : s.all isPaired) (r : Text) :
    units (s.flatMap asciiEscape ++ '"'.toNat :: r) = some (utf16 s, r) := by
  induction s with
  | nil => rw [List.flatMap_nil, List.nil_append, units.eq_def]; rfl
  | cons c s ih =>
    rw [List.all_cons, Bool.and_eq_true] at hs
    have hc : c < 0x110000 := by
      have := hs.1
      simp [isPaired] at this
      exact this.1
    rw [List.flatMap_cons, List.append_assoc, units_asciiEscape hc, ih hs.2]
    rfl

theorem string_asciiQuote {s : Text} (hs : s.all isPaired) (r : Text) :
    string (s.flatMap asciiEscape ++ '"'.toNat :: r) = some (s, r) := by
  rw [string, units_asciiQuote hs]
  exact congrArg (fun l => some (l, r)) (joinPairs_paired hs)

/-! ### Objects whose members are texts and integers -/

def Simple : Doc → Prop
  | .int _ => True
  | .str s => s.all isPaired
  | _ => False

/-- Members in the order of their names, each a text or an integer. -/
structure Flat (l : List (Text × Doc)) : Prop where
  sorted : (l.map fun m => utf16 m.1).Pairwise (· < ·)
  names : ∀ m ∈ l, m.1.all (· < 0x80)
  values : ∀ m ∈ l, Simple m.2

variable {ε : Type} {h : Hooks Text ε}

theorem paired_ascii {s : Text} (hs : s.all (· < 0x80)) : s.all isPaired := by
  refine List.all_eq_true.mpr fun c hc => ?_
  have := of_decide_eq_true (List.all_eq_true.mp hs c hc)
  simp [isPaired, isHigh]
  omega

theorem utf16_ascii {s : Text} (hs : s.all (· < 0x80)) : utf16 s = s := by
  induction s with
  | nil => rfl
  | cons c s ih =>
    rw [List.all_cons, Bool.and_eq_true] at hs
    have hc := of_decide_eq_true hs.1
    rw [utf16, List.flatMap_cons, ← utf16, ih hs.2, utf16Units, if_pos (by omega)]
    rfl

theorem asciiMembers_map (l : List (Text × Doc)) :
    asciiMembers l = l.map fun m => (m.1, asciiQuote m.1 ++ ':'.toNat :: asciiDumps m.2) := by
  induction l with
  | nil => rfl
  | cons m l ih => rw [asciiMembers, ih]; rfl

theorem sort_asciiMembers {l : List (Text × Doc)} (hl : Flat l) :
    (asciiMembers l).insertionSort (fun a b => a.1 ≤ b.1) = asciiMembers l := by
  have hs := hl.sorted
  rw [List.pairwise_map] at hs
  have hp : l.Pairwise fun a b => a.1 < b.1 := hs.imp_of_mem fun {a b} ha hb h => by
    rwa [utf16_ascii (hl.names a ha), utf16_ascii (hl.names b hb)] at h
  rw [asciiMembers_map]
  refine List.Pairwise.insertionSort_eq ?_
  rw [List.pairwise_map]
  exact hp.imp fun h => le_of_lt h

theorem name_asciiQuote {k s : Text} (hk : k.all isPaired) :
    name (asciiQuote k ++ ':'.toNat :: s) = some (k, skip s) := by
  refine name_eq.mpr ⟨k.flatMap asciiEscape ++ '"'.toNat :: ':'.toNat :: s, ':'.toNat :: s, s, ?_, string_asciiQuote hk _,
    skip_cons rfl, rfl⟩
  simp [asciiQuote]

theorem value_ascii {v : Doc} {r : Text} {n : Nat} (hv : Simple v) (hr : Ends r) :
    value h (n + 1) (asciiDumps v ++ r) = .ok (v, r) := by
  cases v with
  | int i =>
    obtain ⟨d, u, hd, he | he⟩ := decimal_cons i
    · rw [asciiDumps, he, List.cons_append]
      refine value_scalar ⟨?_, ?_, ?_⟩ (scalar_decimal he hr) <;> rintro rfl <;> cases hd
    · rw [asciiDumps, he, List.cons_append]
      exact value_scalar (by decide) (scalar_decimal he hr)
  | str s =>
    refine value_ok.mpr ⟨'"'.toNat, s.flatMap asciiEscape ++ '"'.toNat :: r, ?_, .inl ⟨rfl, s, string_asciiQuote hv r, rfl⟩⟩
    simp [asciiDumps, asciiQuote]
  | _ => exact hv.elim

/-- Such a text begins with no blank. -/
theorem skip_ascii {v : Doc} {r : Text} (hv : Simple v) : skip (asciiDumps v ++ r) = asciiDumps v ++ r := by
  cases v with
  | int i =>
    obtain ⟨d, u, hd, he | he⟩ := decimal_cons i
    · rw [asciiDumps, he, List.cons_append]
      refine skip_cons ?_
      simp [isDigit] at hd
      simp [isBlank]
      omega
    · rw [asciiDumps, he, List.cons_append]
      exact skip_cons rfl
  | str s => exact skip_cons rfl
  | _ => exact hv.elim

/-- The texts of the members, one after another, are read as the members. -/
theorem members_ascii : ∀ {l : List (Text × Doc)} {r : Text} {n : Nat}, l ≠ [] →
    (∀ m ∈ l, m.1.all (· < 0x80)) → (∀ m ∈ l, Simple m.2) → l.length < n →
    members h n (commas ((asciiMembers l).map (·.2)) ++ '}'.toNat :: r) = .ok (l, r)
  | [], _, _, hl, _, _, _ => absurd rfl hl
  | _ :: _, _, 0, _, _, _, hn => absurd hn (Nat.not_lt_zero _)
  | (k, v) :: l, r, n + 1, _, hk, hv, hn => by
    have hs := hv _ List.mem_cons_self
    have hkey := paired_ascii (hk _ List.mem_cons_self)
    obtain ⟨m, rfl⟩ : ∃ m, n = m + 1 := ⟨n - 1, by simp at hn; omega⟩
    cases l with
    | nil =>
      refine members_ok.mpr ⟨k, v, asciiDumps v ++ '}'.toNat :: r, '}'.toNat :: r, ?_,
        value_ascii hs (.cons (.inr (.inl rfl))), .inl ⟨rfl, rfl⟩⟩
      simp only [asciiMembers, List.map_cons, List.map_nil, commas, List.append_assoc, List.cons_append]
      rw [name_asciiQuote hkey, skip_ascii hs]
    | cons w l =>
      have hrec := members_ascii (l := w :: l) (r := r) (n := m + 1) (List.cons_ne_nil w l)
        (fun x hx => hk x (List.mem_cons_of_mem _ hx)) (fun x hx => hv x (List.mem_cons_of_mem _ hx))
        (by simp at hn ⊢; omega)
      have hne : (asciiMembers (w :: l)).map (·.2) ≠ [] := by rw [asciiMembers_map]; simp
      have hskip : skip (commas ((asciiMembers (w :: l)).map (·.2)) ++ '}'.toNat :: r) =
          commas ((asciiMembers (w :: l)).map (·.2)) ++ '}'.toNat :: r := by
        rw [asciiMembers_map]
        cases l <;> exact skip_cons rfl
      refine members_ok.mpr ⟨k, v,
        asciiDumps v ++ ','.toNat :: (commas ((asciiMembers (w :: l)).map (·.2)) ++ '}'.toNat :: r), _, ?_,
        value_ascii hs (.cons (.inl rfl)), .inr ⟨_, w :: l, rfl, ?_, rfl⟩⟩
      · show name (commas ((asciiQuote k ++ ':'.toNat :: asciiDumps v) :: (asciiMembers (w :: l)).map (·.2)) ++ _) = _
        rw [commas_cons _ hne]
        simp only [List.append_assoc, List.cons_append]
        rw [name_asciiQuote hkey, skip_ascii hs]
      · rw [hskip]
        exact hrec

theorem length_commas {ts : List Text} (ht : ∀ t ∈ ts, t ≠ []) : ts.length ≤ (commas ts).length := by
  induction ts with
  | nil => exact Nat.le_refl 0
  | cons t l ih =>
    have hl := ih fun u hu => ht u (List.mem_cons_of_mem t hu)
    have h1 := List.length_pos_of_ne_nil (ht t List.mem_cons_self)
    cases l with
    | nil => exact h1
    | cons u l =>
      rw [commas_cons t (List.cons_ne_nil u l), List.length_append]
      simp only [List.length_cons] at hl ⊢
      omega

theorem value_object {e : ε} {l : List (Text × Doc)} {r : Text} (hl : Flat l) :
    value (plainHooks e) (2 * (asciiDumps (.obj l) ++ r).length + 1) (skip (asciiDumps (.obj l) ++ r)) = .ok (.obj l, r) := by
  rw [asciiDumps, sort_asciiMembers hl, List.cons_append, skip_cons rfl, List.append_assoc]
  refine value_ok.mpr ⟨_, _, rfl, ?_⟩
  cases l with
  | nil => exact .inr (.inl ⟨rfl, rfl, plainHooks_keeps e [] List.Pairwise.nil⟩)
  | cons m l =>
    refine .inr (.inr (.inl ⟨rfl, ?_, m :: l, ?_, plainHooks_keeps e _ hl.sorted⟩))
    · rw [asciiMembers_map]
      cases l <;> rfl
    · have hskip : skip (commas ((asciiMembers (m :: l)).map (·.2)) ++ (['}'.toNat] ++ r)) =
          commas ((asciiMembers (m :: l)).map (·.2)) ++ '}'.toNat :: r := by
        rw [asciiMembers_map]
        cases l <;> exact skip_cons rfl
      rw [hskip]
      refine members_ascii (List.cons_ne_nil m l) hl.names hl.values ?_
      have := @length_commas ((asciiMembers (m :: l)).map (·.2)) fun t ht => by
        rw [asciiMembers_map] at ht
        obtain ⟨x, hx, rfl⟩ := List.mem_map.mp ht
        obtain ⟨y, -, rfl⟩ := List.mem_map.mp hx
        simp [asciiQuote]
      have hlen : ((asciiMembers (m :: l)).map (·.2)).length = (m :: l).length := by
        rw [asciiMembers_map, List.length_map, List.length_map]
      simp only [List.length_cons, List.length_append] at this hlen ⊢
      omega

/-- The text of the object, and blanks after it. -/
theorem loads_ascii {e : ε} {l : List (Text × Doc)} {r : Text} (hl : Flat l) (hr : skip r = []) :
    loads (plainHooks e) (asciiDumps (.obj l) ++ r) = .ok (.obj l) := by
  rw [loads, value_object hl]
  show (if skip r = [] then _ else _) = _
  rw [if_pos hr]

/-- No proper beginning of the text of an object is read at all. -/
theorem ascii_torn {e : ε} {l : List (Text × Doc)} {p : Text} (hl : Flat l) (hpre : p <+: asciiDumps (.obj l))
    (hne : p ≠ asciiDumps (.obj l)) (v : Doc) : loads (plainHooks e) p ≠ .ok v := by
  intro hr
  obtain ⟨q, hq⟩ := hpre
  have hv := @value_object _ e l [] hl
  rw [List.append_nil] at hv
  cases p with
  | nil => cases hr
  | cons d p =>
    have hd : d = '{'.toNat := by
      rw [asciiDumps] at hq
      exact (List.cons.inj hq).1
    subst hd
    have hskip : skip (asciiDumps (.obj l)) = asciiDumps (.obj l) := by
      rw [asciiDumps]
      exact skip_cons rfl
    have hlen : 2 * ('{'.toNat :: p).length < 2 * (asciiDumps (.obj l)).length + 1 := by
      rw [← hq, List.length_append]
      omega
    -- what is read of the beginning is read of the whole text too, with the rest left over
    rw [loads_depth hlen, skip_cons rfl] at hr
    split at hr
    · cases hr
    · next w r hw =>
      have ha := (read_append _).1 _ _ _ hw (.inl ⟨_, rfl, .inr (.inl rfl)⟩) q
      rw [hskip] at hv
      rw [hq, hv] at ha
      obtain ⟨-, hrq⟩ := Prod.mk.inj (Except.ok.inj ha)
      have hq' : q = [] := (List.append_eq_nil_iff.mp hrq.symm).2
      subst hq'
      exact hne (by rw [← hq, List.append_nil])

/-! ### What is written is ASCII -/

theorem asciiUnit_scalar {u : Nat} (hu : u < 0x10000) : (asciiUnit u).all isScalar := by
  have hx : ∀ n < 16, isScalar (hexChar n) := by decide
  simp [asciiUnit, hx (u / 0x1000) (by omega), hx (u / 0x100 % 16) (by omega), hx (u / 16 % 16) (by omega),
    hx (u % 16) (by omega)]
  decide

theorem asciiQuote_scalar {s : Text} (hs : s.all isPaired) : (asciiQuote s).all isScalar := by
  have he : (s.flatMap asciiEscape).all isScalar := by
    rw [List.all_flatMap]
    refine List.all_eq_true.mpr fun c hc => ?_
    have hc := List.all_eq_true.mp hs c hc
    simp [isPaired] at hc
    unfold asciiEscape utf16Units
    split_ifs with h1 h2
    · have hq := quote_scalar (s := [c]) (by simp [isScalar]; omega)
      simp only [quote, List.flatMap_cons, List.flatMap_nil, List.append_nil, List.all_cons, List.all_append,
        Bool.and_eq_true] at hq
      exact hq.2.1
    · simp [asciiUnit_scalar h2]
    · simp [asciiUnit_scalar (show 0xd800 + (c - 0x10000) / 0x400 < 0x10000 by omega),
        asciiUnit_scalar (show 0xdc00 + (c - 0x10000) % 0x400 < 0x10000 by omega)]
  simp only [asciiQuote, List.all_cons, List.all_append, he, Bool.true_and]
  decide

theorem simple_scalar {v : Doc} (hv : Simple v) : (asciiDumps v).all isScalar := by
  cases v with
  | int i => exact decimal_scalar i
  | str s => exact asciiQuote_scalar hv
  | _ => exact hv.elim

theorem ascii_scalar {l : List (Text × Doc)} (hl : Flat l) : (asciiDumps (.obj l)).all isScalar := by
  have hc := @commas_scalar ((asciiMembers l).map (·.2)) fun t ht => by
    rw [asciiMembers_map] at ht
    obtain ⟨x, hx, rfl⟩ := List.mem_map.mp ht
    obtain ⟨m, hm, rfl⟩ := List.mem_map.mp hx
    have hk := asciiQuote_scalar (paired_ascii (hl.names m hm))
    have hv := simple_scalar (hl.values m hm)
    simp only [List.all_append, List.all_cons, hk, hv]
    decide
  rw [asciiDumps, sort_asciiMembers hl]
  simp only [List.all_cons, List.all_append, hc]
  decide

/-! ### Bytes -/

/-- `json.loads` of the bytes of a text that starts with two ASCII characters: they are UTF-8. -/
def loadsBytes (b : List UInt8) : Option Doc := do
  let t ← decode b
  (loads (plainHooks ()) t).toOption

/-- The text of an object, sent with or without a newline, of which so many bytes have come. -/
theorem loadsBytes_take {l : List (Text × Doc)} {r : Text} (hl : Flat l) (hr : r = [] ∨ r = ['\n'.toNat]) (n : Nat) :
    loadsBytes ((encode (asciiDumps (.obj l) ++ r)).take n) =
      if (encode (asciiDumps (.obj l))).length ≤ n then some (.obj l) else none := by
  have hs := ascii_scalar hl
  have hencode : encode (asciiDumps (.obj l) ++ r) = encode (asciiDumps (.obj l)) ++ encode r := List.flatMap_append
  by_cases hn : (encode (asciiDumps (.obj l))).length ≤ n
  · rw [if_pos hn, hencode, List.take_append, List.take_of_length_le hn]
    have hrest : ∃ u, (encode r).take (n - (encode (asciiDumps (.obj l))).length) = encode u ∧ (u = [] ∨ u = ['\n'.toNat]) := by
      rcases hr with rfl | rfl
      · exact ⟨[], List.take_nil, .inl rfl⟩
      · have hone : encode ['\n'.toNat] = [10] := by decide
        cases n - (encode (asciiDumps (.obj l))).length with
        | zero => exact ⟨[], rfl, .inl rfl⟩
        | succ k => exact ⟨['\n'.toNat], by rw [hone, List.take_succ_cons, List.take_nil], .inr rfl⟩
    obtain ⟨u, hu, hblank⟩ := hrest
    have hall : (asciiDumps (.obj l) ++ u).all isScalar := by
      rw [List.all_append, hs]
      rcases hblank with rfl | rfl <;> decide
    have hskip : skip u = [] := by rcases hblank with rfl | rfl <;> decide
    have hjoin : encode (asciiDumps (.obj l)) ++ encode u = encode (asciiDumps (.obj l) ++ u) := List.flatMap_append.symm
    rw [hu, hjoin, loadsBytes, decode_encode hall]
    show (loads (plainHooks ()) (asciiDumps (.obj l) ++ u)).toOption = _
    rw [loads_ascii hl hskip]
    rfl
  · rw [if_neg hn, hencode, List.take_append_of_le_length (by omega), loadsBytes]
    cases hd : decode ((encode (asciiDumps (.obj l))).take n) with
    | none => rfl
    | some t =>
      have hpre := decode_torn hs (List.take_prefix n _) hd
      have hne : t ≠ asciiDumps (.obj l) := by
        intro he
        have hlen := congrArg List.length (encode_of_decode hd)
        rw [he, List.length_take] at hlen
        omega
      show (loads (plainHooks ()) t).toOption = none
      cases hv : loads (plainHooks ()) t with
      | error e => rfl
      | ok v => exact absurd hv (ascii_torn hl hpre hne v)

end BettingHelper.Lib.Json
