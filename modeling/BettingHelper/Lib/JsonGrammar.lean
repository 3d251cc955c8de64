/-
  BettingHelper.Lib.JsonGrammar — the JSON texts of RFC 8259, as a grammar.

  Nothing here reads a text from left to right: a text is in the language when it can be
  taken apart, and what it denotes is said along with it. Two rules are the ones strict
  readers add: no object repeats a member name, and every number has a value (`num`).
  `Bad` is the language of texts that go wrong at a string: what stands before is as the
  grammar asks, then come two quotes with something between them that is no string.

  Proved for the tokens of `Lib.Json`:
  - `units_iff`: the string scanner takes exactly the strings of the grammar.
  - `matchNumber_sound` / `matchNumber_text`: the number scanner takes a number of the
    grammar, and all of it where nothing follows that could belong to it.
-/

import BettingHelper.Lib.JsonText

namespace BettingHelper.Lib.Json

variable {F : Type}

/-! ## The grammar -/

def Blanks (b : Text) : Prop := ∀ c ∈ b, isBlank c = true

/-- What stands between the quotes of a string, and the code units it stands for. -/
inductive Chars : Text → Text → Prop
  | nil : Chars [] []
  | unescaped {c : Nat} {s u : Text} : 0x20 ≤ c → c ≠ '"'.toNat → c ≠ '\\'.toNat → Chars s u → Chars (c :: s) (c :: u)
  | escaped {e c : Nat} {s u : Text} : unescape e = some c → Chars s u → Chars ('\\'.toNat :: e :: s) (c :: u)
  | unicode {h₁ h₂ h₃ h₄ c : Nat} {s u : Text} : hex4 h₁ h₂ h₃ h₄ = some c → Chars s u →
      Chars ('\\'.toNat :: 'u'.toNat :: h₁ :: h₂ :: h₃ :: h₄ :: s) (c :: u)

def quoted (s : Text) : Text := '"'.toNat :: (s ++ ['"'.toNat])

theorem quoted_append (s r : Text) : quoted s ++ r = '"'.toNat :: (s ++ '"'.toNat :: r) := by simp [quoted]

def Digits (s : Text) : Prop := s ≠ [] ∧ ∀ c ∈ s, isDigit c = true

/-- `int [ frac ] [ exp ]`, the minus apart. -/
structure Literal.Valid (l : Literal) : Prop where
  whole : l.whole = ['0'.toNat] ∨ Digits l.whole ∧ l.whole.head? ≠ some '0'.toNat
  fraction : l.fraction = [] ∨ ∃ ds, Digits ds ∧ l.fraction = '.'.toNat :: ds
  exponent : l.exponent = [] ∨ ∃ e sign ds, (e = 'e'.toNat ∨ e = 'E'.toNat) ∧
    (sign = [] ∨ sign = ['+'.toNat] ∨ sign = ['-'.toNat]) ∧ Digits ds ∧ l.exponent = e :: (sign ++ ds)

def Literal.text (l : Literal) : Text :=
  (if l.negative then ['-'.toNat] else []) ++ (l.whole ++ (l.fraction ++ l.exponent))

/-- The name of a member and its colon, blanks around both. -/
inductive Label : Text → Text → Prop
  | mk {b s k c : Text} : Blanks b → Chars s k → Blanks c → Label (b ++ (quoted s ++ (c ++ [':'.toNat]))) k

section Grammar

variable (num : Literal → Option F)

mutual

inductive Denotes : Text → Value F → Prop
  | null : Denotes (text "null") .null
  | yes : Denotes (text "true") (.bool true)
  | no : Denotes (text "false") (.bool false)
  | number {l : Literal} {x : F} : l.Valid → num l = some x → Denotes l.text (.float x)
  | string {s u : Text} : Chars s u → Denotes (quoted s) (.str u)
  | empty {b : Text} : Blanks b → Denotes ('['.toNat :: (b ++ [']'.toNat])) (.arr [])
  | array {s : Text} {l : List (Value F)} : Items s l → Denotes ('['.toNat :: (s ++ [']'.toNat])) (.arr l)
  | vacant {b : Text} : Blanks b → Denotes ('{'.toNat :: (b ++ ['}'.toNat])) (.obj [])
  | object {s : Text} {l : List (Text × Value F)} : Members s l → (l.map (·.1)).Nodup →
      Denotes ('{'.toNat :: (s ++ ['}'.toNat])) (.obj l)

/-- A value, blanks around it. -/
inductive Padded : Text → Value F → Prop
  | mk {b t c : Text} {v : Value F} : Blanks b → Denotes t v → Blanks c → Padded (b ++ (t ++ c)) v

inductive Items : Text → List (Value F) → Prop
  | one {t : Text} {v : Value F} : Padded t v → Items t [v]
  | more {t s : Text} {v : Value F} {l : List (Value F)} : Padded t v → Items s l → Items (t ++ ','.toNat :: s) (v :: l)

inductive Members : Text → List (Text × Value F) → Prop
  | one {n k t : Text} {v : Value F} : Label n k → Padded t v → Members (n ++ t) [(k, v)]
  | more {n k t s : Text} {v : Value F} {l : List (Text × Value F)} : Label n k → Padded t v → Members s l →
      Members (n ++ (t ++ ','.toNat :: s)) ((k, v) :: l)

end

/-- What ends at the next quote that no backslash stands before. -/
inductive Quotable : Text → Prop
  | nil : Quotable []
  | plain {c : Nat} {s : Text} : c ≠ '"'.toNat → c ≠ '\\'.toNat → Quotable s → Quotable (c :: s)
  | escaped {e : Nat} {s : Text} : Quotable s → Quotable ('\\'.toNat :: e :: s)

/-- Two quotes, told by the backslashes between them, and no string. -/
inductive BadString : Text → Prop
  | mk {s : Text} : Quotable s → (¬∃ u, Chars s u) → BadString (quoted s)

mutual

/-- A text that starts as a value would, up to two quotes that hold no string. -/
inductive Bad : Text → Prop
  | string {b s r : Text} : Blanks b → BadString s → Bad (b ++ (s ++ r))
  | array {b s : Text} : Blanks b → BadItems s → Bad (b ++ '['.toNat :: s)
  | object {b s : Text} : Blanks b → BadMembers [] s → Bad (b ++ '{'.toNat :: s)

inductive BadItems : Text → Prop
  | here {s : Text} : Bad s → BadItems s
  | later {t s : Text} {v : Value F} : Padded num t v → BadItems s → BadItems (t ++ ','.toNat :: s)

/-- The same of an object whose members so far have the names given, no two alike. -/
inductive BadMembers : List Text → Text → Prop
  | name {seen : List Text} {b s r : Text} : Blanks b → BadString s → BadMembers seen (b ++ (s ++ r))
  | here {seen : List Text} {n k s : Text} : Label n k → k ∉ seen → Bad s → BadMembers seen (n ++ s)
  | later {seen : List Text} {n k t s : Text} {v : Value F} : Label n k → k ∉ seen → Padded num t v →
      BadMembers (k :: seen) s → BadMembers seen (n ++ (t ++ ','.toNat :: s))

end

end Grammar

/-! ## Names -/

mutual

/-- No object has two members of one name. -/
def Distinct : Value F → Prop
  | .arr l => DistinctItems l
  | .obj l => (l.map (·.1)).Nodup ∧ DistinctMembers l
  | _ => True

def DistinctItems : List (Value F) → Prop
  | [] => True
  | v :: l => Distinct v ∧ DistinctItems l

def DistinctMembers : List (Text × Value F) → Prop
  | [] => True
  | (_, v) :: l => Distinct v ∧ DistinctMembers l

end

section Names

variable {num : Literal → Option F}

mutual

theorem Denotes.distinct {t : Text} {v : Value F} : Denotes num t v → Distinct v
  | .null => trivial
  | .yes => trivial
  | .no => trivial
  | .number _ _ => trivial
  | .string _ => trivial
  | .empty _ => trivial
  | .array hi => hi.distinct
  | .vacant _ => ⟨List.nodup_nil, trivial⟩
  | .object hm hn => ⟨hn, hm.distinct⟩

theorem Padded.distinct {t : Text} {v : Value F} : Padded num t v → Distinct v
  | .mk _ ht _ => ht.distinct

theorem Items.distinct {t : Text} {l : List (Value F)} : Items num t l → DistinctItems l
  | .one hp => ⟨hp.distinct, trivial⟩
  | .more hp hi => ⟨hp.distinct, hi.distinct⟩

theorem Members.distinct {t : Text} {l : List (Text × Value F)} : Members num t l → DistinctMembers l
  | .one _ hp => ⟨hp.distinct, trivial⟩
  | .more _ hp hm => ⟨hp.distinct, hm.distinct⟩

end

theorem Members.padded {t : Text} {l : List (Text × Value F)} {k : Text} {v : Value F} :
    Members num t l → (k, v) ∈ l → ∃ s, Padded num s v
  | .one _ hp, hm => by
    obtain rfl : v = _ := (Prod.mk.inj (List.mem_singleton.mp hm)).2
    exact ⟨_, hp⟩
  | .more _ hp hl, hm => by
    rcases List.mem_cons.mp hm with he | hm
    · obtain rfl : v = _ := (Prod.mk.inj he).2
      exact ⟨_, hp⟩
    · exact hl.padded hm

theorem Padded.object {t : Text} {l : List (Text × Value F)} {k : Text} {v : Value F} (h : Padded num t (.obj l)) (hm : (k, v) ∈ l) :
    ∃ s, Padded num s v := by
  obtain ⟨-, ht, -⟩ := h
  cases ht with
  | vacant => cases hm
  | object hl => exact hl.padded hm

theorem Padded.float {t : Text} {x : F} (h : Padded num t (.float x)) : ∃ l, num l = some x := by
  obtain ⟨-, ht, -⟩ := h
  cases ht with
  | number _ hx => exact ⟨_, hx⟩

end Names

/-! ## Blanks -/

theorem takeWhile_all {p : Nat → Bool} (s : Text) : ∀ c ∈ s.takeWhile p, p c = true := List.all_eq_true.mp (List.all_takeWhile ..)

theorem skip_blanks {b : Text} (hb : Blanks b) (s : Text) : skip (b ++ s) = skip s := by
  induction b with
  | nil => rfl
  | cons c b ih =>
    rw [List.cons_append, skip, List.dropWhile_cons_of_pos (hb c List.mem_cons_self)]
    exact ih fun d hd => hb d (List.mem_cons_of_mem _ hd)

theorem skip_split (s : Text) : ∃ b, Blanks b ∧ s = b ++ skip s :=
  ⟨s.takeWhile isBlank, takeWhile_all s, (List.takeWhile_append_dropWhile ..).symm⟩

theorem skip_skip (s : Text) : skip (skip s) = skip s := by
  obtain ⟨b, hb, hs⟩ := skip_split s
  have := skip_blanks hb (skip s)
  rw [← hs] at this
  exact this.symm

theorem blanks_of_skip {s : Text} (hs : skip s = []) : Blanks s := by
  obtain ⟨b, hb, he⟩ := skip_split s
  rw [hs, List.append_nil] at he
  rw [he]
  exact hb

/-! ## Strings -/

theorem units_sound {s u r : Text} (h : units s = some (u, r)) : ∃ q, Chars q u ∧ s = q ++ '"'.toNat :: r := by
  fun_induction units s generalizing u r with
  | case2 s =>
    cases h
    exact ⟨[], .nil, rfl⟩
  | case5 h₁ h₂ h₃ h₄ s c hx hne ih =>
    obtain ⟨⟨l, r⟩, hr, he⟩ := Option.map_eq_some_iff.mp h
    cases he
    obtain ⟨q, hq, rfl⟩ := ih hr
    exact ⟨_, .unicode hx hq, rfl⟩
  | case8 e s he c hx hne ih =>
    obtain ⟨⟨l, r⟩, hr, hl⟩ := Option.map_eq_some_iff.mp h
    cases hl
    obtain ⟨q, hq, rfl⟩ := ih hr
    exact ⟨_, .escaped hx hq, rfl⟩
  | case10 c s hq hb hc ih =>
    obtain ⟨⟨l, r⟩, hr, hl⟩ := Option.map_eq_some_iff.mp h
    cases hl
    obtain ⟨q, hs, rfl⟩ := ih hr
    exact ⟨_, .unescaped (by omega) hq hb hs, rfl⟩
  | _ => cases h

theorem units_chars {q u : Text} (h : Chars q u) (r : Text) : units (q ++ '"'.toNat :: r) = some (u, r) := by
  induction h with
  | nil => rw [List.nil_append, units.eq_def]; rfl
  | unescaped hc hq hb _ ih =>
    rw [List.cons_append, units.eq_def]
    simp only [hq, hb, if_false, Nat.not_lt.mpr hc, ih, Option.map_some]
  | @escaped e c s u he _ ih =>
    have hu : e ≠ 'u'.toNat := by
      rintro rfl
      cases he
    have hb : ('\\'.toNat : Nat) ≠ '"'.toNat := by decide
    simp only [List.cons_append]
    rw [units.eq_def]
    simp only [hb, hu, he, ih, if_false, if_true, Option.map_some]
  | unicode hx _ ih =>
    have hb : ('\\'.toNat : Nat) ≠ '"'.toNat := by decide
    simp only [List.cons_append]
    rw [units.eq_def]
    simp only [hb, hx, ih, if_false, if_true, Option.map_some]

theorem units_iff {s u r : Text} : units s = some (u, r) ↔ ∃ q, Chars q u ∧ s = q ++ '"'.toNat :: r := by
  constructor
  · exact units_sound
  · rintro ⟨q, hq, rfl⟩
    exact units_chars hq r

theorem hexDigit_some {c x : Nat} (h : hexDigit c = some x) : c ≠ '"'.toNat ∧ c ≠ '\\'.toNat := by
  constructor <;> rintro rfl <;> cases h

theorem Chars.quotable {s u : Text} (h : Chars s u) : Quotable s := by
  induction h with
  | nil => exact .nil
  | unescaped _ hq hb _ ih => exact .plain hq hb ih
  | escaped _ _ ih => exact .escaped ih
  | unicode hx _ ih =>
    simp only [hex4, Option.bind_eq_bind, Option.bind_eq_some_iff] at hx
    obtain ⟨a, ha, b, hb, c, hc, d, hd, -⟩ := hx
    obtain ⟨ha, ha'⟩ := hexDigit_some ha
    obtain ⟨hb, hb'⟩ := hexDigit_some hb
    obtain ⟨hc, hc'⟩ := hexDigit_some hc
    obtain ⟨hd, hd'⟩ := hexDigit_some hd
    exact .escaped (.plain ha ha' (.plain hb hb' (.plain hc hc' (.plain hd hd' ih))))

/-! ## Numbers -/

theorem matchSign_sound {s r : Text} {b : Bool} (h : matchSign s = (b, r)) :
    s = (if b then ['-'.toNat] else []) ++ r := by
  unfold matchSign at h
  split at h
  · split_ifs at h with hc
    · cases h
      rw [hc]
      rfl
    · cases h
      rfl
  · cases h
    rfl

theorem takeWhile_digits {s : Text} (h : s.takeWhile isDigit ≠ []) : Digits (s.takeWhile isDigit) :=
  ⟨h, takeWhile_all s⟩

theorem matchWhole_sound {s w r : Text} (h : matchWhole s = some (w, r)) :
    s = w ++ r ∧ (w = ['0'.toNat] ∨ Digits w ∧ w.head? ≠ some '0'.toNat) := by
  unfold matchWhole at h
  split at h
  · next c t =>
    split_ifs at h with h0 hd
    · cases h
      exact ⟨rfl, .inl (by rw [h0])⟩
    · cases h
      have hw : (c :: t).takeWhile isDigit = c :: t.takeWhile isDigit := List.takeWhile_cons_of_pos hd
      refine ⟨(List.takeWhile_append_dropWhile ..).symm, .inr ⟨takeWhile_digits (by rw [hw]; simp), ?_⟩⟩
      rw [hw]
      exact fun he => h0 (Option.some.inj he)
  · cases h

theorem matchFraction_sound {s f r : Text} (h : matchFraction s = (f, r)) :
    s = f ++ r ∧ (f = [] ∨ ∃ ds, Digits ds ∧ f = '.'.toNat :: ds) := by
  unfold matchFraction at h
  split at h
  · next c t =>
    split_ifs at h with hc
    · cases h
      refine ⟨by rw [List.cons_append, List.takeWhile_append_dropWhile], .inr ⟨_, takeWhile_digits hc.2, by rw [hc.1]⟩⟩
    · cases h
      exact ⟨rfl, .inl rfl⟩
  · cases h
    exact ⟨rfl, .inl rfl⟩

theorem matchExponent_sound {s x r : Text} (h : matchExponent s = (x, r)) : s = x ++ r ∧ (x = [] ∨
    ∃ e sign ds, (e = 'e'.toNat ∨ e = 'E'.toNat) ∧ (sign = [] ∨ sign = ['+'.toNat] ∨ sign = ['-'.toNat]) ∧ Digits ds ∧
      x = e :: (sign ++ ds)) := by
  unfold matchExponent at h
  split at h
  · next e c t =>
    split_ifs at h with he hs hd
    · cases h
      refine ⟨by simp, .inr ⟨e, [c], _, he, ?_, takeWhile_digits hs.2, rfl⟩⟩
      rcases hs.1 with rfl | rfl
      · exact .inr (.inl rfl)
      · exact .inr (.inr rfl)
    · cases h
      have hw : (c :: t).takeWhile isDigit ≠ [] := by rw [List.takeWhile_cons_of_pos hd]; simp
      exact ⟨by simp, .inr ⟨e, [], _, he, .inl rfl, takeWhile_digits hw, rfl⟩⟩
    · cases h
      exact ⟨rfl, .inl rfl⟩
    · cases h
      exact ⟨rfl, .inl rfl⟩
  · cases h
    exact ⟨rfl, .inl rfl⟩

theorem matchNumber_sound {s r : Text} {l : Literal} (h : matchNumber s = some (l, r)) : l.Valid ∧ s = l.text ++ r := by
  obtain ⟨s₁, s₂, s₃, hs, hw, hf, he⟩ := matchNumber_eq.mp h
  obtain ⟨h1, hv₁⟩ := matchWhole_sound hw
  obtain ⟨h2, hv₂⟩ := matchFraction_sound hf
  obtain ⟨h3, hv₃⟩ := matchExponent_sound he
  refine ⟨⟨hv₁, hv₂, hv₃⟩, ?_⟩
  rw [matchSign_sound hs, h1, h2, h3, Literal.text]
  simp only [List.append_assoc]

/-- Nothing that could belong to a number. -/
def Stops (r : Text) : Prop := ∀ c ∈ r.head?, ¬isDigit c ∧ c ≠ '.'.toNat ∧ c ≠ 'e'.toNat ∧ c ≠ 'E'.toNat

theorem matchExponent_text {x r : Text} (hr : Stops r) (hx : x = [] ∨
    ∃ e sign ds, (e = 'e'.toNat ∨ e = 'E'.toNat) ∧ (sign = [] ∨ sign = ['+'.toNat] ∨ sign = ['-'.toNat]) ∧ Digits ds ∧
      x = e :: (sign ++ ds)) : matchExponent (x ++ r) = (x, r) := by
  rcases hx with rfl | ⟨e, sign, ds, he, hs, ⟨hn, hd⟩, rfl⟩
  · match r with
    | [] => rfl
    | [c] => rfl
    | c :: d :: r =>
      have hc := hr c rfl
      rw [List.nil_append, matchExponent, if_neg (not_or.mpr hc.2.2)]
  · obtain ⟨h1, h2⟩ := spanDigits hd fun c hc => (hr c hc).1
    have hsign : ∀ c, (c = '+'.toNat ∨ c = '-'.toNat) → matchExponent (e :: c :: (ds ++ r)) = (e :: c :: ds, r) := by
      intro c hc
      rw [matchExponent, if_pos he, h1, h2, if_pos ⟨hc, hn⟩]
    rcases hs with rfl | rfl | rfl
    · obtain ⟨d, t, rfl⟩ := List.exists_cons_of_ne_nil hn
      have hdig := hd d List.mem_cons_self
      have hns : ¬((d = '+'.toNat ∨ d = '-'.toNat) ∧ (t ++ r).takeWhile isDigit ≠ []) := by
        rintro ⟨rfl | rfl, -⟩ <;> cases hdig
      simp only [List.nil_append, List.cons_append] at h1 h2 ⊢
      rw [matchExponent, if_pos he, if_neg hns, if_pos hdig, h1, h2]
    · exact hsign _ (.inl rfl)
    · exact hsign _ (.inr rfl)

theorem Literal.Valid.stops {l : Literal} (hl : l.Valid) {r : Text} (hr : Stops r) :
    (∀ c ∈ (l.exponent ++ r).head?, ¬isDigit c ∧ c ≠ '.'.toNat) ∧
      ∀ c ∈ (l.fraction ++ (l.exponent ++ r)).head?, ¬isDigit c := by
  have hx : ∀ c ∈ (l.exponent ++ r).head?, ¬isDigit c ∧ c ≠ '.'.toNat := by
    intro c hc
    rcases hl.exponent with he | ⟨e, sign, ds, he, -, -, hx⟩
    · rw [he, List.nil_append] at hc
      exact ⟨(hr c hc).1, (hr c hc).2.1⟩
    · rw [hx] at hc
      cases hc
      rcases he with rfl | rfl <;> decide
  refine ⟨hx, fun c hc => ?_⟩
  rcases hl.fraction with hf | ⟨ds, -, hf⟩
  · rw [hf, List.nil_append] at hc
    exact (hx c hc).1
  · rw [hf] at hc
    cases hc
    decide

/-- A number is read whole. -/
theorem matchNumber_text {l : Literal} {r : Text} (hl : l.Valid) (hr : Stops r) : matchNumber (l.text ++ r) = some (l, r) := by
  obtain ⟨hx, hf⟩ := hl.stops hr
  have hne : l.whole ≠ [] := by
    rcases hl.whole with h | h
    · rw [h]; simp
    · exact h.1.1
  obtain ⟨c, t, hc⟩ := List.exists_cons_of_ne_nil hne
  have hdig : isDigit c := by
    rcases hl.whole with h | h
    · rw [h] at hc
      cases hc
      rfl
    · exact h.1.2 c (by rw [hc]; exact List.mem_cons_self)
  refine matchNumber_eq.mpr ⟨l.whole ++ (l.fraction ++ (l.exponent ++ r)), l.fraction ++ (l.exponent ++ r),
    l.exponent ++ r, ?_, ?_, ?_, matchExponent_text hr hl.exponent⟩
  · rw [Literal.text]
    cases l.negative with
    | true => simp [matchSign]
    | false =>
      have hm : c ≠ '-'.toNat := by
        rintro rfl
        cases hdig
      simp only [Bool.false_eq_true, if_false, List.nil_append, List.append_assoc, hc, List.cons_append]
      rw [matchSign, if_neg hm]
  · rcases hl.whole with h | ⟨hd, h⟩
    · rw [h]
      rfl
    · obtain ⟨h1, h2⟩ := spanDigits hd.2 hf
      rw [hc] at h h1 h2 ⊢
      rw [List.cons_append] at h1 h2 ⊢
      rw [matchWhole, if_neg fun h0 => h (by rw [h0]; rfl), if_pos hdig, h1, h2]
  · rcases hl.fraction with h | ⟨ds, ⟨hn, hd⟩, h⟩
    · rw [h, List.nil_append]
      cases hs : l.exponent ++ r with
      | nil => rfl
      | cons d s =>
        rw [hs] at hx
        rw [matchFraction, if_neg fun h0 => (hx d rfl).2 h0.1]
    · obtain ⟨h1, h2⟩ := spanDigits hd fun c hc => (hx c hc).1
      rw [h, List.cons_append, matchFraction, h1, h2, if_pos ⟨rfl, hn⟩]

end BettingHelper.Lib.Json
