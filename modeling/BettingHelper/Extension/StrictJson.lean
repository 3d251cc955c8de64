/-
  BettingHelper.Extension.StrictJson — `StrictJsonParser` of the extension's canonical.ts.

  A text is its UTF-16 code units. The parser's offset is the text that is left, and the
  depth it may reach is bounded by twice the length of the text, which is never used up
  (`parse_depth`). A string literal is found by its closing quote and handed to
  `JSON.parse`, whose own error is not one of the parser's two.

  Proved, for every text and every reading `num` of number literals:
  - `parse_ok_iff`: a value is returned exactly for a JSON text of the grammar, no member
    name twice in an object and every number finite, and it is what the text denotes.
  - `parse_syntaxError_iff`: the error of `JSON.parse` comes out exactly where the text,
    in order so far, has two quotes with no string between them.
-/

import BettingHelper.Lib.JsonGrammar

namespace BettingHelper.Extension.StrictJson

open Lib.Json

inductive Fault where
  | error (message : String)
  /-- What `JSON.parse` throws. -/
  | syntaxError
  deriving DecidableEq, Repr

def malformed : Fault := .error "MALFORMED_UTF8_OR_JSON"

def duplicate : Fault := .error "DUPLICATE_JSON_KEY"

/-- `JSON.parse` of a string literal. -/
def jsonParse (literal : Text) : Option Text :=
  match literal with
  | c :: s =>
    if c = '"'.toNat then
      match units s with
      | some (u, []) => some u
      | _ => none
    else none
  | [] => none

/-- The characters up to the closing quote, it included, and the rest. -/
def scan : Bool → Text → Option (Text × Text)
  | _, [] => none
  | escaped, c :: s =>
    if escaped then (scan false s).map fun (l, r) => (c :: l, r)
    else if c = '\\'.toNat then (scan true s).map fun (l, r) => (c :: l, r)
    else if c = '"'.toNat then some ([c], s)
    else (scan false s).map fun (l, r) => (c :: l, r)

/-- The opening quote is read. -/
def string (s : Text) : Except Fault (Text × Text) :=
  match scan false s with
  | none => .error malformed
  | some (l, r) =>
    match jsonParse ('"'.toNat :: l) with
    | none => .error .syntaxError
    | some u => .ok (u, r)

section Parser

variable {F : Type}

def literal (token : Text) (v : Value F) (s : Text) : Except Fault (Value F × Text) :=
  match after token s with
  | none => .error malformed
  | some r => .ok (v, r)

variable (num : Literal → Option F)

/-- `num` is `Number` of the match, where that is finite. -/
def number (s : Text) : Except Fault (Value F × Text) :=
  match matchNumber s with
  | none => .error malformed
  | some (l, r) =>
    match num l with
    | none => .error malformed
    | some x => .ok (.float x, r)

mutual

def value : Nat → Text → Except Fault (Value F × Text)
  | 0, _ => .error malformed
  | n + 1, s =>
    match skip s with
    | [] => number num []
    | c :: r =>
      if c = '{'.toNat then
        match after ['}'.toNat] (skip r) with
        | some r => .ok (.obj [], r)
        | none =>
          match members n [] r with
          | .error e => .error e
          | .ok (l, r) => .ok (.obj l, r)
      else if c = '['.toNat then
        match after [']'.toNat] (skip r) with
        | some r => .ok (.arr [], r)
        | none =>
          match items n r with
          | .error e => .error e
          | .ok (l, r) => .ok (.arr l, r)
      else if c = '"'.toNat then
        match string r with
        | .error e => .error e
        | .ok (u, r) => .ok (.str u, r)
      else if c = 't'.toNat then literal (text "true") (.bool true) (c :: r)
      else if c = 'f'.toNat then literal (text "false") (.bool false) (c :: r)
      else if c = 'n'.toNat then literal (text "null") .null (c :: r)
      else number num (c :: r)

/-- The loop of `object`, `keys` being the names it has read. -/
def members : Nat → List Text → Text → Except Fault (List (Text × Value F) × Text)
  | 0, _, _ => .error malformed
  | n + 1, keys, s =>
    match after ['"'.toNat] (skip s) with
    | none => .error malformed
    | some r =>
      match string r with
      | .error e => .error e
      | .ok (key, r) =>
        if key ∈ keys then .error duplicate
        else
          match after [':'.toNat] (skip r) with
          | none => .error malformed
          | some r =>
            match value n r with
            | .error e => .error e
            | .ok (v, r) =>
              match skip r with
              | [] => .error malformed
              | d :: r =>
                if d = '}'.toNat then .ok ([(key, v)], r)
                else if d = ','.toNat then
                  match members n (key :: keys) r with
                  | .error e => .error e
                  | .ok (l, r) => .ok ((key, v) :: l, r)
                else .error malformed

/-- The loop of `array`. -/
def items : Nat → Text → Except Fault (List (Value F) × Text)
  | 0, _ => .error malformed
  | n + 1, s =>
    match value n s with
    | .error e => .error e
    | .ok (v, r) =>
      match skip r with
      | [] => .error malformed
      | d :: r =>
        if d = ']'.toNat then .ok ([v], r)
        else if d = ','.toNat then
          match items n r with
          | .error e => .error e
          | .ok (l, r) => .ok (v :: l, r)
        else .error malformed

end

def parse (source : Text) : Except Fault (Value F) :=
  match value num (2 * source.length + 1) source with
  | .error e => .error e
  | .ok (v, r) => if skip r = [] then .ok v else .error malformed

end Parser

/-! ## Strings -/

theorem scan_sound {b : Bool} {s l r : Text} (h : scan b s = some (l, r)) :
    ∃ q, l = q ++ ['"'.toNat] ∧ s = q ++ '"'.toNat :: r ∧ (b = false → Quotable q) ∧
      (b = true → ∃ e t, q = e :: t ∧ Quotable t) := by
  fun_induction scan b s generalizing l r with
  | case1 b => cases h
  | case2 c s ih =>
    obtain ⟨⟨l, r⟩, hr, he⟩ := Option.map_eq_some_iff.mp h
    cases he
    obtain ⟨q, rfl, rfl, hq, -⟩ := ih hr
    exact ⟨c :: q, rfl, rfl, nofun, fun _ => ⟨c, q, rfl, hq rfl⟩⟩
  | case3 b s hb ih =>
    obtain ⟨⟨l, r⟩, hr, he⟩ := Option.map_eq_some_iff.mp h
    cases he
    obtain ⟨q, rfl, rfl, -, hq⟩ := ih hr
    obtain ⟨e, t, rfl, ht⟩ := hq rfl
    exact ⟨_, rfl, rfl, fun _ => .escaped ht, fun hn => absurd hn hb⟩
  | case4 b s hb =>
    cases h
    exact ⟨[], rfl, rfl, fun _ => .nil, fun hn => absurd hn hb⟩
  | case5 b c s hb h1 h2 ih =>
    obtain ⟨⟨l, r⟩, hr, he⟩ := Option.map_eq_some_iff.mp h
    cases he
    obtain ⟨q, rfl, rfl, hq, -⟩ := ih hr
    exact ⟨c :: q, rfl, rfl, fun _ => .plain h2 h1 (hq rfl), fun hn => absurd hn hb⟩

theorem scan_quotable {q : Text} (h : Quotable q) (r : Text) :
    scan false (q ++ '"'.toNat :: r) = some (q ++ ['"'.toNat], r) := by
  induction h with
  | nil => rfl
  | plain hq hb _ ih =>
    rw [List.cons_append, scan, if_neg (by decide), if_neg hb, if_neg hq, ih]
    rfl
  | escaped _ ih =>
    simp only [List.cons_append]
    rw [scan, if_neg (by decide), if_pos rfl, scan, if_pos rfl, ih]
    rfl

theorem jsonParse_iff {q u : Text} : jsonParse ('"'.toNat :: (q ++ ['"'.toNat])) = some u ↔ Chars q u := by
  simp only [jsonParse, if_true]
  constructor
  · intro h
    split at h
    · next hu =>
      cases h
      obtain ⟨p, hp, he⟩ := units_sound hu
      rw [List.append_inj_left' he rfl]
      exact hp
    · cases h
  · intro h
    rw [units_chars h []]

theorem string_ok {s u r : Text} : string s = .ok (u, r) ↔ ∃ q, Chars q u ∧ s = q ++ '"'.toNat :: r := by
  constructor
  · intro h
    unfold string at h
    split at h
    · cases h
    · next l r hs =>
      obtain ⟨q, rfl, rfl, -⟩ := scan_sound hs
      split at h
      · cases h
      · next hj =>
        cases h
        exact ⟨q, jsonParse_iff.mp hj, rfl⟩
  · rintro ⟨q, hq, rfl⟩
    simp only [string, scan_quotable hq.quotable, jsonParse_iff.mpr hq]

theorem string_fault {s : Text} {e : String} (h : string s = .error (.error e)) :
    .error e = malformed ∨ .error e = duplicate := by
  unfold string at h
  split at h
  · cases h
    exact .inl rfl
  · split at h
    · cases h
    · cases h

theorem string_syntaxError {s : Text} :
    string s = .error .syntaxError ↔ ∃ q r, Quotable q ∧ (¬∃ u, Chars q u) ∧ s = q ++ '"'.toNat :: r := by
  constructor
  · intro h
    unfold string at h
    split at h
    · cases h
    · next l r hs =>
      obtain ⟨q, rfl, rfl, hq, -⟩ := scan_sound hs
      split at h
      · next hj =>
        refine ⟨q, r, hq rfl, ?_, rfl⟩
        rintro ⟨u, hu⟩
        rw [jsonParse_iff.mpr hu] at hj
        cases hj
      · cases h
  · rintro ⟨q, r, hq, hn, rfl⟩
    have hj : jsonParse ('"'.toNat :: (q ++ ['"'.toNat])) = none :=
      Option.eq_none_iff_forall_ne_some.mpr fun u hu => hn ⟨u, jsonParse_iff.mp hu⟩
    simp only [string, scan_quotable hq, hj]

/-! ## What is read is in the grammar -/

section Sound

variable {F : Type} {num : Literal → Option F}

/-- What a result says of the text it came from. -/
def Told (num : Literal → Option F) (s : Text) : Except Fault (Value F × Text) → Prop
  | .ok (v, r) => ∃ b t, Blanks b ∧ Denotes num t v ∧ s = b ++ (t ++ r)
  | .error .syntaxError => Bad num s
  | .error (.error e) => .error e = malformed ∨ .error e = duplicate

def ToldItems (num : Literal → Option F) (s : Text) : Except Fault (List (Value F) × Text) → Prop
  | .ok (l, r) => ∃ t, Items num t l ∧ s = t ++ ']'.toNat :: r
  | .error .syntaxError => BadItems num s
  | .error (.error e) => .error e = malformed ∨ .error e = duplicate

def ToldMembers (num : Literal → Option F) (keys : List Text) (s : Text) : Except Fault (List (Text × Value F) × Text) → Prop
  | .ok (l, r) => ∃ t, Members num t l ∧ s = t ++ '}'.toNat :: r ∧ (l.map (·.1)).Nodup ∧ ∀ k ∈ l.map (·.1), k ∉ keys
  | .error .syntaxError => BadMembers num keys s
  | .error (.error e) => .error e = malformed ∨ .error e = duplicate

theorem literal_told {w s b : Text} {v : Value F} (hb : Blanks b) (hw : Denotes num w v) : Told num (b ++ s) (literal w v s) := by
  unfold literal
  split
  · exact .inl rfl
  · next r hr =>
    rw [after_eq.mp hr]
    exact ⟨b, w, hb, hw, rfl⟩

theorem number_told {s b : Text} (hb : Blanks b) : Told num (b ++ s) (number num s) := by
  unfold number
  split
  · exact .inl rfl
  · next l r hm =>
    split
    · exact .inl rfl
    · next x hx =>
      obtain ⟨hl, rfl⟩ := matchNumber_sound hm
      exact ⟨b, l.text, hb, .number hl hx, rfl⟩

theorem after_skip {c : Nat} {s r : Text} (h : after [c] (skip s) = some r) : ∃ b, Blanks b ∧ s = b ++ c :: r := by
  obtain ⟨b, hb, hs⟩ := skip_split s
  rw [after_eq.mp h] at hs
  exact ⟨b, hb, hs⟩

/-- A value and the delimiter it ends at. -/
theorem padded_of {b t r w s : Text} {v : Value F} {d : Nat} (hb : Blanks b) (ht : Denotes num t v)
    (hs : s = b ++ (t ++ r)) (hd : skip r = d :: w) : ∃ p, Padded num p v ∧ s = p ++ d :: w := by
  obtain ⟨c, hc, hr⟩ := skip_split r
  rw [hd] at hr
  refine ⟨b ++ (t ++ c), .mk hb ht hc, ?_⟩
  rw [hs, hr]
  simp only [List.append_assoc]

theorem value_told {n : Nat} (hm : ∀ s, ToldMembers num [] s (members num n [] s)) (hi : ∀ s, ToldItems num s (items num n s))
    (s : Text) : Told num s (value num (n + 1) s) := by
  obtain ⟨b, hb, hs⟩ := skip_split s
  rw [value]
  split
  · next hc =>
    rw [hs, hc]
    exact number_told hb
  · next c r hc =>
    rw [hc] at hs
    subst hs
    split_ifs with h1 h2 h3 h4 h5 h6
    · subst h1
      split
      · next ha =>
        obtain ⟨d, hd, rfl⟩ := after_skip ha
        exact ⟨b, _, hb, .vacant hd, by simp⟩
      · have := hm r
        split
        · next e he =>
          rw [he] at this
          cases e with
          | syntaxError => exact .object hb this
          | error e => exact this
        · next l r he =>
          rw [he] at this
          obtain ⟨t, ht, rfl, hn, -⟩ := this
          exact ⟨b, _, hb, .object ht hn, by simp⟩
    · subst h2
      split
      · next ha =>
        obtain ⟨d, hd, rfl⟩ := after_skip ha
        exact ⟨b, _, hb, .empty hd, by simp⟩
      · have := hi r
        split
        · next e he =>
          rw [he] at this
          cases e with
          | syntaxError => exact .array hb this
          | error e => exact this
        · next l r he =>
          rw [he] at this
          obtain ⟨t, ht, rfl⟩ := this
          exact ⟨b, _, hb, .array ht, by simp⟩
    · subst h3
      split
      · next e he =>
        cases e with
        | syntaxError =>
          obtain ⟨q, r, hq, hn, rfl⟩ := string_syntaxError.mp he
          rw [← quoted_append]
          exact .string hb (.mk hq hn)
        | error e => exact string_fault he
      · next u r he =>
        obtain ⟨q, hq, rfl⟩ := string_ok.mp he
        exact ⟨b, _, hb, .string hq, by simp [quoted]⟩
    · exact literal_told hb .yes
    · exact literal_told hb .no
    · exact literal_told hb .null
    · exact number_told hb

theorem items_told {n : Nat} (hv : ∀ s, Told num s (value num n s)) (hi : ∀ s, ToldItems num s (items num n s)) (s : Text) :
    ToldItems num s (items num (n + 1) s) := by
  have := hv s
  rw [items]
  split
  · next e he =>
    rw [he] at this
    cases e with
    | syntaxError => exact .here this
    | error e => exact this
  · next v r he =>
    rw [he] at this
    obtain ⟨b, t, hb, ht, hs⟩ := this
    split
    · exact .inl rfl
    · next d w hd =>
      obtain ⟨p, hp, rfl⟩ := padded_of hb ht hs hd
      split_ifs with h1 h2
      · subst h1
        exact ⟨p, .one hp, rfl⟩
      · subst h2
        have := hi w
        split
        · next e he =>
          rw [he] at this
          cases e with
          | syntaxError => exact .later hp this
          | error e => exact this
        · next l r he =>
          rw [he] at this
          obtain ⟨t, ht, rfl⟩ := this
          exact ⟨_, .more hp ht, by simp⟩
      · exact .inl rfl

theorem members_told {n : Nat} (hv : ∀ s, Told num s (value num n s))
    (hm : ∀ keys s, ToldMembers num keys s (members num n keys s)) (keys : List Text) (s : Text) :
    ToldMembers num keys s (members num (n + 1) keys s) := by
  rw [members]
  split
  · exact .inl rfl
  · next r ha =>
    obtain ⟨b, hb, rfl⟩ := after_skip ha
    split
    · next e he =>
      cases e with
      | syntaxError =>
        obtain ⟨q, r, hq, hn, rfl⟩ := string_syntaxError.mp he
        rw [← quoted_append]
        exact .name hb (.mk hq hn)
      | error e => exact string_fault he
    · next k r he =>
      obtain ⟨q, hq, rfl⟩ := string_ok.mp he
      split_ifs with hk
      · exact .inr rfl
      · split
        · exact .inl rfl
        · next r ha =>
          obtain ⟨c, hc, rfl⟩ := after_skip ha
          have hl := Label.mk hb hq hc
          have hs : ∀ w, b ++ '"'.toNat :: (q ++ '"'.toNat :: (c ++ ':'.toNat :: w)) =
              (b ++ (quoted q ++ (c ++ [':'.toNat]))) ++ w := by
            intro w
            simp [quoted]
          rw [hs]
          generalize b ++ (quoted q ++ (c ++ [':'.toNat])) = label at hl
          have := hv r
          split
          · next e he =>
            rw [he] at this
            cases e with
            | syntaxError => exact .here hl hk this
            | error e => exact this
          · next v r he =>
            rw [he] at this
            obtain ⟨b, t, hb, ht, hs⟩ := this
            split
            · exact .inl rfl
            · next d w hd =>
              obtain ⟨p, hp, rfl⟩ := padded_of hb ht hs hd
              split_ifs with h1 h2
              · subst h1
                exact ⟨_, .one hl hp, by simp, by simp, by simpa using hk⟩
              · subst h2
                have := hm (k :: keys) w
                split
                · next e he =>
                  rw [he] at this
                  cases e with
                  | syntaxError => exact .later hl hk hp this
                  | error e => exact this
                · next l r he =>
                  rw [he] at this
                  obtain ⟨t, ht, rfl, hn, hf⟩ := this
                  refine ⟨_, .more hl hp ht, by simp, List.nodup_cons.mpr ⟨fun hx => ?_, hn⟩, fun j hj => ?_⟩
                  · exact hf k hx List.mem_cons_self
                  · rcases List.mem_cons.mp hj with rfl | hj
                    · exact hk
                    · exact fun hx => hf j hj (List.mem_cons_of_mem _ hx)
              · exact .inl rfl

theorem told (n : Nat) : (∀ s, Told num s (value num n s)) ∧ (∀ keys s, ToldMembers num keys s (members num n keys s)) ∧
    ∀ s, ToldItems num s (items num n s) := by
  induction n with
  | zero => exact ⟨fun _ => .inl rfl, fun _ _ => .inl rfl, fun _ => .inl rfl⟩
  | succ n ih =>
    obtain ⟨hv, hm, hi⟩ := ih
    exact ⟨value_told (hm []) hi, members_told hv hm, items_told hv hi⟩

end Sound

/-! ## What is in the grammar is read -/

section Complete

variable {F : Type} {num : Literal → Option F}

/-- What a value starts with: no blank, and no closing bracket. -/
def Opens (c : Nat) : Prop := isBlank c = false ∧ c ≠ ']'.toNat ∧ c ≠ '}'.toNat

theorem skip_opens {b u : Text} {c : Nat} (hb : Blanks b) (hc : isBlank c = false) : skip (b ++ c :: u) = c :: u := by
  rw [skip_blanks hb, skip_cons hc]

/-- Blanks, and then the start of a value. -/
def Starts (s : Text) : Prop := ∃ b c u, Blanks b ∧ Opens c ∧ s = b ++ c :: u

theorem Starts.append {s : Text} (h : Starts s) (r : Text) : Starts (s ++ r) := by
  obtain ⟨b, c, u, hb, hc, rfl⟩ := h
  exact ⟨b, c, u ++ r, hb, hc, by simp⟩

theorem Starts.after {s : Text} (h : Starts s) : after [']'.toNat] (skip s) = none ∧ after ['}'.toNat] (skip s) = none := by
  obtain ⟨b, c, u, hb, hc, rfl⟩ := h
  rw [skip_opens hb hc.1]
  exact ⟨after_none hc.2.1, after_none hc.2.2⟩

theorem isDigit_opens {c : Nat} (hc : isDigit c) : Opens c := by
  refine ⟨?_, ?_, ?_⟩
  · by_contra hb
    simp only [isBlank, Bool.not_eq_false, Bool.or_eq_true, decide_eq_true_eq] at hb
    rcases hb with ((rfl | rfl) | rfl) | rfl <;> cases hc
  · rintro rfl
    cases hc
  · rintro rfl
    cases hc

/-- The head of a number is the minus or a digit. -/
theorem text_head {l : Literal} (hl : l.Valid) : ∃ c u, l.text = c :: u ∧ (c = '-'.toNat ∨ isDigit c) := by
  cases hn : l.negative with
  | true => exact ⟨'-'.toNat, _, by rw [Literal.text, hn]; rfl, .inl rfl⟩
  | false =>
    have hd : ∃ c u, l.whole = c :: u ∧ isDigit c := by
      rcases hl.whole with h | ⟨⟨hne, hd⟩, -⟩
      · exact ⟨_, _, h, rfl⟩
      · obtain ⟨c, u, hc⟩ := List.exists_cons_of_ne_nil hne
        exact ⟨c, u, hc, hd c (by rw [hc]; exact List.mem_cons_self)⟩
    obtain ⟨c, u, hw, hc⟩ := hd
    exact ⟨c, _, by rw [Literal.text, hn, hw]; rfl, .inr hc⟩

theorem denotes_head {t : Text} {v : Value F} (h : Denotes num t v) : ∃ c u, t = c :: u ∧ Opens c := by
  have opens : ∀ c ∈ ['n'.toNat, 't'.toNat, 'f'.toNat, '-'.toNat, '"'.toNat, '['.toNat, '{'.toNat], Opens c := by
    simp only [Opens]
    decide
  cases h with
  | null => exact ⟨'n'.toNat, text "ull", rfl, opens _ (by decide)⟩
  | yes => exact ⟨'t'.toNat, text "rue", rfl, opens _ (by decide)⟩
  | no => exact ⟨'f'.toNat, text "alse", rfl, opens _ (by decide)⟩
  | number hl =>
    obtain ⟨c, u, ht, hc⟩ := text_head hl
    refine ⟨c, u, ht, ?_⟩
    rcases hc with rfl | hc
    · exact opens _ (by decide)
    · exact isDigit_opens hc
  | string => exact ⟨_, _, rfl, opens _ (by decide)⟩
  | empty => exact ⟨_, _, rfl, opens _ (by decide)⟩
  | array => exact ⟨_, _, rfl, opens _ (by decide)⟩
  | vacant => exact ⟨_, _, rfl, opens _ (by decide)⟩
  | object => exact ⟨_, _, rfl, opens _ (by decide)⟩

theorem padded_starts {t : Text} {v : Value F} (h : Padded num t v) : Starts t := by
  obtain ⟨hb, ht, -⟩ := h
  obtain ⟨c, u, rfl, hc⟩ := denotes_head ht
  exact ⟨_, c, _, hb, hc, rfl⟩

theorem items_starts {t : Text} {l : List (Value F)} (h : Items num t l) : Starts t := by
  cases h with
  | one hp => exact padded_starts hp
  | more hp => exact (padded_starts hp).append _

theorem label_starts {n k : Text} (h : Label n k) : Starts n := by
  obtain ⟨hb, -, -⟩ := h
  exact ⟨_, '"'.toNat, _, hb, by simp only [Opens]; decide, rfl⟩

theorem members_starts {t : Text} {l : List (Text × Value F)} (h : Members num t l) : Starts t := by
  cases h with
  | one hl => exact (label_starts hl).append _
  | more hl => exact (label_starts hl).append _

theorem badString_starts {b s : Text} (hb : Blanks b) (h : BadString s) (r : Text) : Starts (b ++ (s ++ r)) := by
  obtain ⟨-, -⟩ := h
  exact ⟨b, '"'.toNat, _, hb, by simp only [Opens]; decide, by rw [quoted_append]⟩

theorem bad_starts {s : Text} (h : Bad num s) : Starts s := by
  cases h with
  | string hb hs => exact badString_starts hb hs _
  | array hb => exact ⟨_, _, _, hb, by simp only [Opens]; decide, rfl⟩
  | object hb => exact ⟨_, _, _, hb, by simp only [Opens]; decide, rfl⟩

theorem badItems_starts {s : Text} (h : BadItems num s) : Starts s := by
  cases h with
  | here hb => exact bad_starts hb
  | later hp => exact (padded_starts hp).append _

theorem badMembers_starts {keys : List Text} {s : Text} (h : BadMembers num keys s) : Starts s := by
  cases h with
  | name hb hs => exact badString_starts hb hs _
  | here hl => exact (label_starts hl).append _
  | later hl => exact (label_starts hl).append _

theorem stops_of_blanks {c r : Text} (hc : Blanks c) (hr : Stops r) : Stops (c ++ r) := by
  cases c with
  | nil => exact hr
  | cons d c =>
    intro e he
    cases he
    have := hc d List.mem_cons_self
    simp only [isBlank, Bool.or_eq_true, decide_eq_true_eq] at this
    rcases this with ((rfl | rfl) | rfl) | rfl <;> decide

theorem stops_cons {d : Nat} {r : Text} (hd : d = ','.toNat ∨ d = ']'.toNat ∨ d = '}'.toNat) : Stops (d :: r) := by
  intro e he
  cases he
  rcases hd with rfl | rfl | rfl <;> decide

theorem after_cons {c : Nat} {r : Text} : after [c] (c :: r) = some r := after_eq.mpr rfl

theorem literal_reads {w r : Text} {v : Value F} : literal w v (w ++ r) = .ok (v, r) := by
  rw [literal, after_eq.mpr rfl]

/-- The numbers are what is left when no other value starts. -/
theorem value_number {n : Nat} {s w : Text} {c : Nat} (hs : skip s = c :: w) (hc : c = '-'.toNat ∨ isDigit c) :
    value num (n + 1) s = number num (c :: w) := by
  have hne : ∀ d ∈ ['{'.toNat, '['.toNat, '"'.toNat, 't'.toNat, 'f'.toNat, 'n'.toNat], c ≠ d := by
    intro d hd
    rintro rfl
    rcases hc with rfl | hc
    · revert hd
      decide
    · revert hc
      have : ∀ e ∈ ['{'.toNat, '['.toNat, '"'.toNat, 't'.toNat, 'f'.toNat, 'n'.toNat], isDigit e ≠ true := by decide
      exact this c hd
  rw [value, hs]
  simp only
  rw [if_neg (hne _ (by decide)), if_neg (hne _ (by decide)), if_neg (hne _ (by decide)), if_neg (hne _ (by decide)),
    if_neg (hne _ (by decide)), if_neg (hne _ (by decide))]

theorem value_object {n : Nat} {b s : Text} (hb : Blanks b) (hs : Starts s) : value num (n + 1) (b ++ '{'.toNat :: s) =
    match members num n [] s with
    | .error e => .error e
    | .ok (l, r) => .ok (.obj l, r) := by
  rw [value, skip_opens hb (by decide)]
  simp only [if_true, hs.after.2]

theorem value_array {n : Nat} {b s : Text} (hb : Blanks b) (hs : Starts s) : value num (n + 1) (b ++ '['.toNat :: s) =
    match items num n s with
    | .error e => .error e
    | .ok (l, r) => .ok (.arr l, r) := by
  rw [value, skip_opens hb (by decide)]
  simp only
  rw [if_neg (by decide), if_pos trivial, hs.after.1]

theorem value_string {n : Nat} {b s : Text} (hb : Blanks b) : value num (n + 1) (b ++ '"'.toNat :: s) =
    match string s with
    | .error e => .error e
    | .ok (u, r) => .ok (.str u, r) := by
  rw [value, skip_opens hb (by decide)]
  simp only
  rw [if_neg (by decide), if_neg (by decide), if_pos trivial]

theorem value_reads {n : Nat}
    (hi : ∀ t l r, Items num t l → 2 * t.length + 1 ≤ n → items num n (t ++ ']'.toNat :: r) = .ok (l, r))
    (hm : ∀ t l r, Members num t l → (l.map (·.1)).Nodup → 2 * t.length + 1 ≤ n →
      members num n [] (t ++ '}'.toNat :: r) = .ok (l, r))
    {b t r : Text} {v : Value F} (hb : Blanks b) (ht : Denotes num t v) (hr : Stops r) (hn : 2 * t.length ≤ n + 1) :
    value num (n + 1) (b ++ (t ++ r)) = .ok (v, r) := by
  have scalar : ∀ c u, t = c :: u → isBlank c = false → skip (b ++ (t ++ r)) = t ++ r := by
    rintro c u rfl hc
    exact skip_opens hb hc
  cases ht with
  | null =>
    have hs : skip (b ++ (text "null" ++ r)) = 'n'.toNat :: (text "ull" ++ r) := skip_opens hb rfl
    rw [value, hs]
    simp only
    rw [if_neg (by decide), if_neg (by decide), if_neg (by decide), if_neg (by decide), if_neg (by decide), if_pos trivial]
    exact literal_reads
  | yes =>
    have hs : skip (b ++ (text "true" ++ r)) = 't'.toNat :: (text "rue" ++ r) := skip_opens hb rfl
    rw [value, hs]
    simp only
    rw [if_neg (by decide), if_neg (by decide), if_neg (by decide), if_pos trivial]
    exact literal_reads
  | no =>
    have hs : skip (b ++ (text "false" ++ r)) = 'f'.toNat :: (text "alse" ++ r) := skip_opens hb rfl
    rw [value, hs]
    simp only
    rw [if_neg (by decide), if_neg (by decide), if_neg (by decide), if_neg (by decide), if_pos trivial]
    exact literal_reads
  | @number l x hl hx =>
    obtain ⟨c, u, ht, hc⟩ := text_head hl
    have ho : Opens c := by
      rcases hc with rfl | hc
      · simp only [Opens]
        decide
      · exact isDigit_opens hc
    have hs := scalar c u ht ho.1
    rw [ht, List.cons_append] at hs
    rw [ht, List.cons_append, value_number hs hc, ← List.cons_append, ← ht, number, matchNumber_text hl hr]
    simp only [hx]
  | string hs =>
    rw [quoted_append, value_string hb, string_ok.mpr ⟨_, hs, rfl⟩]
  | @empty d hd =>
    rw [value, scalar _ _ rfl rfl]
    simp only [List.cons_append, List.append_assoc, List.nil_append]
    rw [if_neg (by decide), if_pos trivial, skip_opens hd (by decide), after_cons]
  | @vacant d hd =>
    rw [value, scalar _ _ rfl rfl]
    simp only [List.cons_append, List.append_assoc, List.nil_append]
    rw [if_pos trivial, skip_opens hd (by decide), after_cons]
  | @array s l hs =>
    have hl : 2 * s.length + 1 ≤ n := by
      simp at hn
      omega
    simp only [List.cons_append, List.append_assoc, List.nil_append]
    rw [value_array hb ((items_starts hs).append _), hi s l r hs hl]
  | @object s l hs hk =>
    have hl : 2 * s.length + 1 ≤ n := by
      simp at hn
      omega
    simp only [List.cons_append, List.append_assoc, List.nil_append]
    rw [value_object hb ((members_starts hs).append _), hm s l r hs hk hl]

/-- A padded value is read up to its delimiter. -/
theorem padded_reads {n : Nat} (hv : ∀ {b t r : Text} {v : Value F}, Blanks b → Denotes num t v → Stops r → 2 * t.length ≤ n →
    value num n (b ++ (t ++ r)) = .ok (v, r)) {p w : Text} {v : Value F} {d : Nat} (hp : Padded num p v)
    (hd : d = ','.toNat ∨ d = ']'.toNat ∨ d = '}'.toNat) (hn : 2 * p.length ≤ n) :
    ∃ r, value num n (p ++ d :: w) = .ok (v, r) ∧ skip r = d :: w := by
  obtain ⟨hb, ht, hc⟩ := hp
  have hblank : isBlank d = false := by rcases hd with rfl | rfl | rfl <;> rfl
  refine ⟨_, ?_, skip_opens hc hblank⟩
  simp only [List.append_assoc]
  simp only [List.length_append] at hn
  exact hv hb ht (stops_of_blanks hc (stops_cons hd)) (by omega)

/-- A name and its colon are read, the name being new. -/
theorem members_label {n : Nat} {keys : List Text} {p k w : Text} (hl : Label p k) (hk : k ∉ keys) :
    members num (n + 1) keys (p ++ w) =
      match value num n w with
      | .error e => .error e
      | .ok (v, r) =>
        match skip r with
        | [] => .error malformed
        | d :: r =>
          if d = '}'.toNat then .ok ([(k, v)], r)
          else if d = ','.toNat then
            match members num n (k :: keys) r with
            | .error e => .error e
            | .ok (l, r) => .ok ((k, v) :: l, r)
          else .error malformed := by
  cases hl with
  | @mk b s k c hb hs hc =>
    have hcolon : after [':'.toNat] (skip (c ++ ':'.toNat :: w)) = some w := by
      rw [skip_opens hc (by decide), after_cons]
    simp only [List.append_assoc, List.cons_append, List.nil_append]
    rw [members, quoted_append, skip_opens hb (by decide), after_cons]
    simp only
    rw [string_ok.mpr ⟨s, hs, rfl⟩]
    simp only
    rw [if_neg hk, hcolon]

theorem reads (n : Nat) :
    (∀ {b t r : Text} {v : Value F}, Blanks b → Denotes num t v → Stops r → 2 * t.length ≤ n →
      value num n (b ++ (t ++ r)) = .ok (v, r)) ∧
    (∀ t l r, Items num t l → 2 * t.length + 1 ≤ n → items num n (t ++ ']'.toNat :: r) = .ok (l, r)) ∧
    ∀ t l r keys, Members num t l → (l.map (·.1)).Nodup → (∀ k ∈ l.map (·.1), k ∉ keys) → 2 * t.length + 1 ≤ n →
      members num n keys (t ++ '}'.toNat :: r) = .ok (l, r) := by
  induction n with
  | zero =>
    refine ⟨?_, ?_, ?_⟩
    · intro b t r v hb ht hr hn
      obtain ⟨c, u, rfl, -⟩ := denotes_head ht
      simp at hn
    · intro t l r ht hn
      omega
    · intro t l r keys ht hk hf hn
      omega
  | succ n ih =>
    obtain ⟨hv, hi, hm⟩ := ih
    refine ⟨?_, ?_, ?_⟩
    · intro b t r v hb ht hr hn
      exact value_reads hi (fun t l r ht hk hn => hm t l r [] ht hk (by simp) hn) hb ht hr hn
    · intro t l r ht hn
      cases ht with
      | one hp =>
        obtain ⟨w, hw, hd⟩ := padded_reads hv hp (.inr (.inl rfl)) (by omega)
        rw [items, hw]
        simp only [hd, if_true]
      | more hp ht =>
        simp only [List.length_append, List.length_cons] at hn
        obtain ⟨w, hw, hd⟩ := padded_reads hv hp (.inl rfl) (by omega)
        simp only [List.append_assoc, List.cons_append]
        rw [items, hw]
        simp only [hd]
        rw [if_neg (by decide), if_pos trivial, hi _ _ _ ht (by omega)]
    · intro t l r keys ht hk hf hn
      cases ht with
      | one hl hp =>
        simp only [List.length_append] at hn
        obtain ⟨w, hw, hd⟩ := padded_reads hv hp (.inr (.inr rfl)) (by omega)
        rw [List.append_assoc, members_label hl (hf _ (by simp)), hw]
        simp only [hd, if_true]
      | more hl hp ht =>
        simp only [List.length_append, List.length_cons] at hn
        simp only [List.map_cons, List.nodup_cons] at hk
        obtain ⟨w, hw, hd⟩ := padded_reads hv hp (.inl rfl) (by omega)
        simp only [List.append_assoc, List.cons_append]
        rw [members_label hl (hf _ (by simp)), hw]
        simp only [hd]
        rw [if_neg (by decide), if_pos trivial, hm _ _ _ _ ht hk.2 ?_ (by omega)]
        intro j hj hx
        rcases List.mem_cons.mp hx with rfl | hx
        · exact hk.1 hj
        · exact hf j (List.mem_cons_of_mem _ hj) hx

theorem badString_reads {s r : Text} (h : BadString s) : ∃ q, s = quoted q ∧ string (q ++ '"'.toNat :: r) = .error .syntaxError := by
  obtain ⟨hq, hn⟩ := h
  exact ⟨_, rfl, string_syntaxError.mpr ⟨_, r, hq, hn, rfl⟩⟩

/-- Two quotes with no string between them stop the parser, when it gets there. -/
theorem bad_reads (n : Nat) : (∀ s, Bad num s → 2 * s.length ≤ n → value num n s = .error .syntaxError) ∧
    (∀ s, BadItems num s → 2 * s.length + 1 ≤ n → items num n s = .error .syntaxError) ∧
    ∀ s keys, BadMembers num keys s → 2 * s.length + 1 ≤ n → members num n keys s = .error .syntaxError := by
  induction n with
  | zero =>
    refine ⟨?_, ?_, ?_⟩
    · intro s hs hn
      obtain ⟨b, c, u, -, -, rfl⟩ := bad_starts hs
      simp at hn
    · intro s hs hn
      omega
    · intro s keys hs hn
      omega
  | succ n ih =>
    obtain ⟨hv, hi, hm⟩ := ih
    obtain ⟨hread, -, -⟩ := @reads F num n
    refine ⟨?_, ?_, ?_⟩
    · intro s hs hn
      cases hs with
      | @string b s r hb hs =>
        obtain ⟨q, rfl, he⟩ := badString_reads (r := r) hs
        rw [quoted_append, value_string hb, he]
      | array hb hs =>
        simp only [List.length_append, List.length_cons] at hn
        rw [value_array hb (badItems_starts hs), hi _ hs (by omega)]
      | object hb hs =>
        simp only [List.length_append, List.length_cons] at hn
        rw [value_object hb (badMembers_starts hs), hm _ _ hs (by omega)]
    · intro s hs hn
      cases hs with
      | here hs => rw [items, hv _ hs (by omega)]
      | later hp hs =>
        simp only [List.length_append, List.length_cons] at hn
        obtain ⟨w, hw, hd⟩ := padded_reads hread hp (.inl rfl) (by omega)
        rw [items, hw]
        simp only [hd]
        rw [if_neg (by decide), if_pos trivial, hi _ hs (by omega)]
    · intro s keys hs hn
      cases hs with
      | @name _ b s r hb hs =>
        obtain ⟨q, rfl, he⟩ := badString_reads (r := r) hs
        rw [members, quoted_append, skip_opens hb (by decide), after_cons]
        simp only
        rw [he]
      | here hl hk hs =>
        simp only [List.length_append] at hn
        rw [members_label hl hk, hv _ hs (by omega)]
      | later hl hk hp hs =>
        simp only [List.length_append, List.length_cons] at hn
        obtain ⟨w, hw, hd⟩ := padded_reads hread hp (.inl rfl) (by omega)
        rw [members_label hl hk, hw]
        simp only [hd]
        rw [if_neg (by decide), if_pos trivial, hm _ _ hs (by omega)]

end Complete

/-! ## Depth -/

section Depth

variable {F : Type} {num : Literal → Option F}

theorem string_length {s u r : Text} (h : string s = .ok (u, r)) : r.length < s.length := by
  obtain ⟨q, -, rfl⟩ := string_ok.mp h
  simp only [List.length_append, List.length_cons]
  omega

theorem after_length {w s r : Text} (h : after w (skip s) = some r) : r.length + w.length ≤ s.length := by
  have hl := skip_length s
  rw [after_eq.mp h, List.length_append] at hl
  omega

theorem value_length {n : Nat} {s r : Text} {v : Value F} (h : value num n s = .ok (v, r)) : r.length < s.length := by
  have ht := (@told F num n).1 s
  rw [h] at ht
  obtain ⟨b, t, -, ht, rfl⟩ := ht
  obtain ⟨c, u, rfl, -⟩ := denotes_head ht
  simp only [List.length_append, List.length_cons]
  omega

/-- More depth than twice the length of the text changes nothing. -/
theorem depth (n : Nat) : (∀ m s, 2 * s.length < n → n ≤ m → value num n s = value num m s) ∧
    (∀ m keys s, 2 * s.length + 1 < n → n ≤ m → members num n keys s = members num m keys s) ∧
    ∀ m s, 2 * s.length + 1 < n → n ≤ m → items num n s = items num m s := by
  induction n with
  | zero => refine ⟨?_, ?_, ?_⟩ <;> intros <;> omega
  | succ n ih =>
    obtain ⟨hv, hm, hi⟩ := ih
    refine ⟨?_, ?_, ?_⟩
    · intro m s hs hle
      obtain ⟨m, rfl⟩ : ∃ k, m = k + 1 := ⟨m - 1, by omega⟩
      rw [value, value]
      cases hc : skip s with
      | nil => rfl
      | cons c r =>
        have hl := skip_length s
        rw [hc, List.length_cons] at hl
        simp only
        rw [hm m [] r (by omega) (by omega), hi m r (by omega) (by omega)]
    · intro m keys s hs hle
      obtain ⟨m, rfl⟩ : ∃ k, m = k + 1 := ⟨m - 1, by omega⟩
      rw [members, members]
      cases ha : after ['"'.toNat] (skip s) with
      | none => rfl
      | some r₁ =>
        have h1 := after_length ha
        simp only
        cases hq : string r₁ with
        | error e => rfl
        | ok p =>
          obtain ⟨k, r₂⟩ := p
          have h2 := string_length hq
          simp only
          split_ifs
          · rfl
          · cases ha : after [':'.toNat] (skip r₂) with
            | none => rfl
            | some r₃ =>
              have h3 := after_length ha
              simp only
              rw [hv m r₃ (by omega) (by omega)]
              cases hr : value num m r₃ with
              | error e => rfl
              | ok p =>
                obtain ⟨v, r₄⟩ := p
                have h4 := value_length hr
                simp only
                cases hd : skip r₄ with
                | nil => rfl
                | cons d w =>
                  have h5 := skip_length r₄
                  rw [hd, List.length_cons] at h5
                  simp only
                  rw [hm m (k :: keys) w (by omega) (by omega)]
    · intro m s hs hle
      obtain ⟨m, rfl⟩ : ∃ k, m = k + 1 := ⟨m - 1, by omega⟩
      rw [items, items, hv m s (by omega) (by omega)]
      cases hr : value num m s with
      | error e => rfl
      | ok p =>
        obtain ⟨v, r⟩ := p
        have h1 := value_length hr
        simp only
        cases hd : skip r with
        | nil => rfl
        | cons d w =>
          have h2 := skip_length r
          rw [hd, List.length_cons] at h2
          simp only
          rw [hi m w (by omega) (by omega)]

end Depth

/-! ## The parser -/

section Parse

variable {F : Type} (num : Literal → Option F)

theorem parse_depth (source : Text) {n : Nat} (hn : 2 * source.length < n) : parse num source =
    match value num n source with
    | .error e => .error e
    | .ok (v, r) => if skip r = [] then .ok v else .error malformed := by
  rw [parse, (depth _).1 n source (by omega) (by omega)]

theorem parse_ok_iff (source : Text) (v : Value F) : parse num source = .ok v ↔ Padded num source v := by
  constructor
  · intro h
    have ht := (@told F num (2 * source.length + 1)).1 source
    unfold parse at h
    split at h
    · cases h
    · next w r hr =>
      rw [hr] at ht
      split_ifs at h with hs
      cases h
      obtain ⟨b, t, hb, ht, rfl⟩ := ht
      exact .mk hb ht (blanks_of_skip hs)
  · intro h
    cases h with
    | @mk b t c v hb ht hc =>
      have hs : skip c = [] := by
        rw [← List.append_nil c, skip_blanks hc]
        rfl
      have hl : 2 * t.length ≤ 2 * (b ++ (t ++ c)).length + 1 := by
        simp only [List.length_append]
        omega
      have hr : Stops c := by
        rw [← List.append_nil c]
        exact stops_of_blanks hc fun _ h => by cases h
      unfold parse
      rw [(reads _).1 hb ht hr hl]
      simp only [hs, if_true]

theorem parse_syntaxError_iff (source : Text) : parse num source = .error .syntaxError ↔ Bad num source := by
  constructor
  · intro h
    have ht := (@told F num (2 * source.length + 1)).1 source
    unfold parse at h
    split at h
    · next e he =>
      cases h
      rw [he] at ht
      exact ht
    · split_ifs at h
      cases h
  · intro h
    unfold parse
    rw [(bad_reads _).1 source h (by omega)]

/-- The errors of the parser itself. -/
theorem parse_fault {source : Text} {e : Fault} (h : parse num source = .error e) :
    e = malformed ∨ e = duplicate ∨ e = .syntaxError := by
  have ht := (@told F num (2 * source.length + 1)).1 source
  unfold parse at h
  split at h
  · next f hf =>
    cases h
    rw [hf] at ht
    cases e with
    | syntaxError => exact .inr (.inr rfl)
    | error m => exact ht.imp id .inl
  · split_ifs at h
    cases h
    exact .inl rfl

/-- What is promised of the parser: exactly the JSON texts, and only its own two errors. -/
def Strict (source : Text) : Prop :=
  (∀ v, parse num source = .ok v ↔ Padded num source v) ∧
    ∀ e, parse num source = .error e → e = .error "MALFORMED_UTF8_OR_JSON" ∨ e = .error "DUPLICATE_JSON_KEY"

/-- `"\x"` is closed and no string: `JSON.parse` throws, and nothing catches it. -/
theorem escape_thrown : ¬Strict (F := Literal) some (text "\"\\x\"") := by
  intro h
  have hp : parse (F := Literal) some (text "\"\\x\"") = .error .syntaxError := by
    refine (parse_syntaxError_iff _ _).mpr (.string (b := []) (r := []) (by intro c hc; cases hc) (.mk (s := text "\\x") ?_ ?_))
    · exact .escaped .nil
    · rintro ⟨u, hu⟩
      cases hu with
      | unescaped _ _ hb => exact hb rfl
      | escaped he => cases he
  rcases h.2 _ hp with h | h <;> cases h

theorem strict_iff (source : Text) : Strict num source ↔ ¬Bad num source := by
  constructor
  · intro hs hb
    rcases hs.2 _ ((parse_syntaxError_iff num source).mpr hb) with h | h <;> cases h
  · intro hb
    refine ⟨fun v => parse_ok_iff num source v, fun e he => ?_⟩
    rcases parse_fault num he with h | h | rfl
    · exact .inl h
    · exact .inr h
    · exact absurd ((parse_syntaxError_iff num source).mp he) hb

end Parse

end BettingHelper.Extension.StrictJson
