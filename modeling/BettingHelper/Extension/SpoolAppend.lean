/-
  BettingHelper.Extension.SpoolAppend — what an append leaves behind can be read, or not.

  An append measures the bytes it is given and stores what they denote; a snapshot
  measures the canonical bytes of what is stored and refuses an entry that is larger than
  its record says.

  Proved, for every `validateRaw` and every input that is committed:
  - `append_readable_iff`: the next snapshot is accepted exactly when the canonical bytes
    of the observation are no more than the bytes that were given.
-/

import Mathlib
import BettingHelper.Extension.SpoolCache

namespace BettingHelper.Extension.Spool

open Lib.Json (Text Value text natText isDecimal digitsValue padLeft Literal utf16 encode)

variable {F : Type} {P : Platform F} {digest : List UInt8 → Text} {c : SpoolOptions F}

/-! ## Object literals -/

theorem lookup_literal (l : List (String × Js F)) (k : String) :
    (l.map fun m => (text m.1, m.2)).lookup (text k) = l.lookup k := by
  induction l with
  | nil => rfl
  | cons m l ih =>
    obtain ⟨j, v⟩ := m
    rw [List.map_cons, List.lookup_cons, List.lookup_cons, ih]
    by_cases h : k = j
    · subst h
      simp
    · rw [beq_eq_false_iff_ne.mpr h, beq_eq_false_iff_ne.mpr fun ht => h (Lib.Json.text_inj ht)]

theorem get_literal (l : List (String × Js F)) (k : String) : (literalObject l).get k = some ((l.lookup k).getD .undefined) := by
  rw [literalObject, Js.get, lookup_literal]

theorem sortedKeys_literal (l : List (String × Js F)) :
    (literalObject l).sortedKeys = some ((l.map fun m => text m.1).insertionSort (· ≤ ·)) := by
  rw [literalObject, Js.sortedKeys, List.map_map]
  rfl

theorem literal_proper {l : List (String × Js F)} (hn : (l.map (·.1)).Nodup)
    (hl : Js.ProperMembers (l.map fun m => (text m.1, m.2))) : (literalObject l).Proper := by
  refine ⟨?_, hl⟩
  rw [List.map_map]
  have := hn.map fun a b h => Lib.Json.text_inj h
  rwa [List.map_map] at this

/-! ## Setting a member -/

theorem lookup_setMember (l : List (Text × Js F)) (k j : Text) (w : Js F) (hk : hasOwn l k = true) :
    (l.map fun m => if m.1 = k then (m.1, w) else m).lookup j = if j = k then some w else l.lookup j := by
  have other : ∀ l : List (Text × Js F), j ≠ k → (l.map fun m => if m.1 = k then (m.1, w) else m).lookup j = l.lookup j := by
    intro l hj
    induction l with
    | nil => rfl
    | cons m l ih =>
      rw [List.map_cons]
      split_ifs with hm
      · rw [List.lookup_cons, ih, List.lookup_cons, beq_eq_false_iff_ne.mpr (by rw [hm]; exact hj)]
      · rw [List.lookup_cons, ih, List.lookup_cons]
  by_cases hj : j = k
  · subst hj
    rw [if_pos rfl]
    induction l with
    | nil => cases hk
    | cons m l ih =>
      rw [List.map_cons]
      split_ifs with hm
      · rw [List.lookup_cons, beq_iff_eq.mpr hm.symm]
      · rw [List.lookup_cons, beq_eq_false_iff_ne.mpr fun h => hm h.symm]
        refine ih ?_
        rw [hasOwn, List.lookup_cons, beq_eq_false_iff_ne.mpr fun h => hm h.symm] at hk
        exact hk
  · rw [if_neg hj]
    exact other l hj

/-- An object that has the member. -/
def Has (v : Js F) (k : String) : Prop := ∃ r l, v = .object r l ∧ hasOwn l (text k) = true

theorem get_setMember {v : Js F} {k : String} (h : Has v k) (w : Js F) (j : String) :
    (setMember v k w).get j = if j = k then some w else v.get j := by
  obtain ⟨r, l, rfl, hk⟩ := h
  rw [setMember, if_pos hk, Js.get, lookup_setMember l _ _ w hk]
  by_cases hj : j = k
  · rw [if_pos (congrArg text hj), if_pos hj]
    rfl
  · rw [if_neg fun h => hj (Lib.Json.text_inj h), if_neg hj, Js.get]

theorem has_setMember {v : Js F} {k j : String} (h : Has v k) (hj : Has v j) (w : Js F) : Has (setMember v k w) j := by
  obtain ⟨r, l, rfl, hk⟩ := h
  obtain ⟨_, _, he, hj⟩ := hj
  cases he
  refine ⟨r, _, by rw [setMember, if_pos hk], ?_⟩
  rw [hasOwn, lookup_setMember l _ _ w hk]
  split_ifs
  · rfl
  · exact hj

theorem sortedKeys_setMember {v : Js F} {k : String} (h : Has v k) (w : Js F) : (setMember v k w).sortedKeys = v.sortedKeys := by
  obtain ⟨r, l, rfl, hk⟩ := h
  rw [setMember, if_pos hk, Js.sortedKeys, Js.sortedKeys, List.map_map]
  congr 2
  refine List.map_congr_left fun m _ => ?_
  simp only [Function.comp_apply]
  split_ifs <;> rfl

theorem has_of_sortedKeys {v : Js F} {l : List (String × Js F)} (h : v.sortedKeys = (literalObject l).sortedKeys) {k : String}
    (hk : k ∈ l.map (·.1)) : Has v k := by
  rw [sortedKeys_literal] at h
  cases v with
  | object r m =>
    refine ⟨r, m, rfl, ?_⟩
    have hmem : text k ∈ m.map (·.1) := by
      rw [← List.mem_insertionSort (r := (· ≤ ·)), Option.some.inj h, List.mem_insertionSort]
      obtain ⟨a, ha, rfl⟩ := List.mem_map.mp hk
      exact List.mem_map.mpr ⟨a, ha, rfl⟩
    obtain ⟨a, ha, he⟩ := List.mem_map.mp hmem
    rw [hasOwn, ← he]
    cases hl : m.lookup a.1 with
    | some _ => rfl
    | none => exact absurd (List.lookup_eq_none_iff.mp hl a ha) (by simp)
  | _ => cases h

/-! ## Decimals -/

theorem decimalOf_natText {n : Nat} (hn : (n : Int) ≤ maximum) : decimalOf P (.string (natText n)) = some (n : Int) := by
  simp only [decimalOf, Js.toStr, Option.bind_eq_bind, Option.bind_some, Lib.Json.isDecimal_natText, toBigInt,
    Lib.Json.digitsValue_natText, guard, hn, if_true]
  rfl

theorem decimalOf_string {s : Text} {n : Int} (h : decimalOf P (.string s) = some n) :
    s = natText n.toNat ∧ 0 ≤ n ∧ n ≤ maximum := by
  simp only [decimalOf, Js.toStr, Option.bind_eq_bind, Option.bind_some, Option.bind_eq_some_iff, Option.guard_eq_some',
    exists_const] at h
  obtain ⟨hd, hle, he⟩ := h
  obtain rfl := Option.some.inj he
  have hb : toBigInt P (.string s) s = (digitsValue s : Nat) := rfl
  rw [hb] at hle ⊢
  exact ⟨by rw [Int.toNat_natCast, Lib.Json.natText_digitsValue hd], by omega, hle⟩

/-! ## The content hash of a record -/

/-- The registry leaves a spool record's own hash out of what is hashed. -/
def SelfHashed (registry : CanonicalRegistry) : Prop :=
  ∃ d, registry.domains.filter (fun d => d.artifactType = text "SpoolRecord") = [d] ∧
    d.excludedJsonPointers = [text "/content_hash"]

theorem pointerKey_contentHash : pointerKey (text "/content_hash") = some (text "content_hash") := by
  simp only [text]
  repeat rw [String.toList_ofList]
  decide

theorem filter_literal (l : List (String × Js F)) :
    (l.map fun m => (text m.1, m.2)).filter (fun m => m.1 ∉ [text "content_hash"]) =
      (l.filter fun m => m.1 ≠ "content_hash").map fun m => (text m.1, m.2) := by
  rw [List.filter_map]
  congr 1
  refine List.filter_congr fun m _ => ?_
  simp only [Function.comp_apply, List.mem_singleton, Lib.Json.text_eq_iff]

theorem record_hash {registry : CanonicalRegistry} (hr : SelfHashed registry) (committedAt : Text)
    (sequence rawId rawHash previous : Js F) (cursorHash : Text) (size : Nat) (h h' : Text) :
    canonicalContentHash P digest registry (text "SpoolRecord")
        (record c committedAt sequence rawId rawHash previous cursorHash size h) =
      canonicalContentHash P digest registry (text "SpoolRecord")
        (record c committedAt sequence rawId rawHash previous cursorHash size h') := by
  obtain ⟨d, hd, hx⟩ := hr
  have hkeys : ∀ h : Text, ∀ l : List (String × Js F), l.lookup "content_hash" = some (.string h) →
      excludedKeys [text "/content_hash"] (l.map fun m => (text m.1, m.2)) = some [text "content_hash"] := by
    intro h l hl
    simp only [excludedKeys, List.mapM_cons, List.mapM_nil, pointerKey_contentHash, hasOwn, lookup_literal, hl, List.all_cons,
      List.all_nil, Option.bind_eq_bind, Option.bind_some, Option.pure_def, Option.isSome_some, Bool.and_true, if_true]
  unfold canonicalContentHash record literalObject canonicalPreimage canonicalMemberBytes
  simp only [hd, hx]
  rw [hkeys h _ (by rfl), hkeys h' _ (by rfl)]
  simp only [filter_literal]
  rfl

/-! ## Members of what is parsed -/

theorem ofMembers_mem {l : List (Text × Value F)} {k : Text} {v : Js F} : ∀ {n : Nat}, (k, v) ∈ (Js.ofMembers n l).1 →
    ∃ m w, (k, w) ∈ l ∧ v = (Js.ofValue m w).1 := by
  induction l with
  | nil =>
    intro n h
    cases h
  | cons a l ih =>
    intro n h
    obtain ⟨j, w⟩ := a
    rcases List.mem_cons.mp h with he | h
    · cases he
      exact ⟨n, w, List.mem_cons_self, rfl⟩
    · obtain ⟨m, w, hw, he⟩ := ih h
      exact ⟨m, w, List.mem_cons_of_mem _ hw, he⟩

/-- A parsed member is itself: no number that is read is NaN. -/
theorem parsed_refl {bytes : List UInt8} {raw v : Js F} {k : String} (h : parseStrictJson P bytes = some raw)
    (hv : raw.get k = some v) : v.strictEq P v = true := by
  obtain ⟨source, value, -, hp, rfl, -⟩ := parseStrictJson_some h
  have hp := (StrictJson.parse_ok_iff _ _ _).mp hp
  cases value with
  | obj l =>
    obtain rfl := Option.some.inj hv
    cases hl : (Js.ofMembers 1 l).1.lookup (text k) with
    | none => rfl
    | some u =>
      obtain ⟨m, w, hw, rfl⟩ := ofMembers_mem (Js.lookup_some_mem hl)
      rw [Option.getD_some]
      cases w with
      | float x =>
        obtain ⟨s, hs⟩ := hp.object hw
        obtain ⟨lit, hx⟩ := hs.float
        exact P.number_eq lit x hx
      | _ => simp [Js.ofValue, Js.strictEq]
  | null => cases hv
  | _ =>
    obtain rfl := Option.some.inj hv
    rfl

/-! ## The entries that are there -/

theorem checkAll_append {registry : CanonicalRegistry} (l m : List (Js F)) : ∀ (index : Nat) (previous : Js F) (bytes : Int),
    checkAll P digest c registry index previous bytes (l ++ m) =
      (checkAll P digest c registry index previous bytes l).bind fun r =>
        checkAll P digest c registry (index + l.length) r.1 r.2 m := by
  induction l with
  | nil =>
    intro index previous bytes
    rfl
  | cons entry l ih =>
    intro index previous bytes
    rw [List.cons_append, checkAll, checkAll]
    cases checkEntry P c index previous entry with
    | none => rfl
    | some p =>
      obtain ⟨row, raw, size⟩ := p
      simp only [Option.bind_eq_bind, Option.bind_some]
      cases verifyEntry P digest c registry previous row raw with
      | none => rfl
      | some _ =>
        simp only [Option.bind_some]
        rw [ih, List.length_cons, Nat.add_right_comm, ← Nat.add_assoc]

theorem checkAll_one {registry : CanonicalRegistry} {index : Nat} {previous entry row raw : Js F} {bytes size : Int}
    (h : checkEntry P c index previous entry = some (row, raw, size)) :
    checkAll P digest c registry index previous bytes [entry] =
      (verifyEntry P digest c registry previous row raw).map fun _ => ((row.get "cursor_hash").getD .undefined, bytes + size) := by
  rw [checkAll, h]
  simp only [Option.bind_eq_bind, Option.bind_some]
  cases verifyEntry P digest c registry previous row raw with
  | none => rfl
  | some _ => rfl

/-- The checks go on from a string, and stand at the sequence they are at. -/
theorem checkAll_string {registry : CanonicalRegistry} (l : List (Js F)) : ∀ {index : Nat} {t : Text} {bytes : Int}
    {r : Js F × Int}, checkAll P digest c registry index (.string t) bytes l = some r → ∃ u, r.1 = .string u := by
  induction l with
  | nil =>
    intro index t bytes r h
    cases h
    exact ⟨t, rfl⟩
  | cons entry l ih =>
    intro index t bytes r h
    simp only [checkAll, Option.bind_eq_bind, Option.bind_eq_some_iff] at h
    obtain ⟨⟨row, raw, size⟩, -, u, hv, h⟩ := h
    obtain ⟨s, hs⟩ := verifyEntry_cursor hv
    simp only [hs, Option.getD_some] at h
    exact ih h

def sequenceOf (entry : Js F) : Option (Js F) :=
  ((entry.get "spool_record").bind fun row => row.get "position").bind fun position => position.get "sequence"

theorem checkAll_sequence {registry : CanonicalRegistry} (l : List (Js F)) : ∀ {index : Nat} {previous : Js F} {bytes : Int}
    {r : Js F × Int}, checkAll P digest c registry index previous bytes l = some r →
    ∀ entry ∈ l, ∃ i < index + l.length, sequenceOf entry = some (.string (natText (i + 1))) := by
  induction l with
  | nil =>
    intro index previous bytes r h entry he
    cases he
  | cons e l ih =>
    intro index previous bytes r h entry he
    simp only [checkAll, Option.bind_eq_bind, Option.bind_eq_some_iff] at h
    obtain ⟨⟨row, raw, size⟩, hc, u, -, h⟩ := h
    rcases List.mem_cons.mp he with rfl | he
    · have hc := (checkEntry_iff P c).mp hc
      obtain ⟨position, hp, ⟨sequence, hs, ht, -⟩, -⟩ := hc.position
      obtain rfl := strictEq_string ht
      refine ⟨index, by simp, ?_⟩
      rw [sequenceOf, hc.row_eq, Option.bind_some, hp, Option.bind_some, hs]
    · obtain ⟨i, hi, hs⟩ := ih h entry he
      exact ⟨i, by rw [List.length_cons]; omega, hs⟩

/-- A new row with a greater sequence goes behind the rows that are there. -/
theorem addRow_end {rows new : List (Row F)} {row : Row F} {n : Nat} (hn : n < 10 ^ 19)
    (hk : row.key = key c (natText n)) (hrows : ∀ r ∈ rows, ∃ i < n, r.key = key c (natText i)) (h : addRow rows row = some new) :
    new = rows ++ [row] := by
  have hlt : ∀ r ∈ rows, decide (r.key < row.key) = true := by
    intro r hr
    obtain ⟨i, hi, he⟩ := hrows r hr
    rw [decide_eq_true_iff, he, hk]
    have : padLeft 19 (natText i) < padLeft 19 (natText n) := Lib.Json.padLeft_lt hi hn
    exact List.Lex.cons (List.Lex.cons (List.Lex.cons (List.Lex.rel this)))
  unfold addRow at h
  split_ifs at h
  obtain rfl := Option.some.inj h
  rw [List.takeWhile_eq_self_iff.mpr hlt, List.dropWhile_eq_nil_iff.mpr hlt]

/-! ## A commit -/

/-- What an append has seen and written, once it has committed. -/
structure Commit (P : Platform F) (digest : List UInt8 → Text) (c : SpoolOptions F) (registry : CanonicalRegistry)
    (cache : Cache F) (committedAt : Text) (bytes : List UInt8) (db db' : Database F) (raw : Js F) where
  length_le : bytes.length ≤ 65536
  parsed : parseStrictJson P bytes = some raw
  bound : boundTo P c raw = some ()
  sequence : Text
  sequence_eq : raw.get "sequence" = some (.string sequence)
  rawId : Js F
  id_eq : raw.get "raw_observation_id" = some rawId
  rawHash : Text
  rawHash_eq : raw.get "content_hash" = some (.string rawHash)
  hash_eq : canonicalContentHash P digest registry (text "RawObservation") raw = some rawHash
  accepted : (snapshot P digest c registry cache db).1 = true
  next : Int
  next_eq : (stateOf c db).get "next_sequence" = some (.string sequence)
  next_value : decimalOf P (.string sequence) = some next
  next_ne : next ≠ maximum
  used : Int
  used_eq : ((stateOf c db).get "normal_bytes_used").bind (decimalOf P) = some used
  used_le : used + bytes.length ≤ limit c
  previous : Js F
  previous_eq : (stateOf c db).get "last_cursor_hash" = some previous
  cursorHash : Text
  cursor_eq : cursor P digest c registry raw previous = some cursorHash
  hash : Text
  record_eq : canonicalContentHash P digest registry (text "SpoolRecord") (record c committedAt (.string sequence) rawId
    (.string rawHash) previous cursorHash bytes.length (List.replicate 64 '0'.toNat)) = some hash
  rows_eq : addRow db.rows ⟨key c sequence, entryOf (record c committedAt (.string sequence) rawId (.string rawHash) previous
    cursorHash bytes.length hash) raw⟩ = some db'.rows
  state_eq : db'.state = nextState (stateOf c db) next (used + bytes.length) cursorHash

theorem validated_some {registry : CanonicalRegistry} {bytes given : List UInt8} {raw : Js F}
    (h : validated P digest c registry bytes given = some raw) : bytes.length ≤ 65536 ∧ parseStrictJson P bytes = some raw ∧
      boundTo P c raw = some () ∧ ∃ t, raw.get "content_hash" = some (.string t) ∧
        canonicalContentHash P digest registry (text "RawObservation") raw = some t := by
  simp only [validated, Option.bind_eq_bind, Option.bind_eq_some_iff, Option.guard_eq_some', exists_const] at h
  obtain ⟨-, hlen, raw', hparse, -, u, hbound, -, -, -, -, -, x, hx, y, hy, hxy, he⟩ := h
  obtain rfl := Option.some.inj he
  obtain rfl := strictEq_string hxy
  exact ⟨hlen, hparse, hbound, y, hx, hy⟩

theorem write_some {indexes : List (Js F) → Js F → Bool} {db db' : Database F} {previous next sequence entry : Js F}
    (h : write P c indexes db previous next sequence entry = some db') : ∃ s, sequence = .string s ∧ db'.state = next ∧
      addRow db.rows ⟨key c s, entry⟩ = some db'.rows := by
  cases sequence with
  | string s =>
    simp only [write, Option.bind_eq_bind, Option.bind_some, Option.bind_eq_some_iff, Option.guard_eq_some', exists_const] at h
    obtain ⟨-, -, rows, hrows, he⟩ := h
    obtain rfl := Option.some.inj he
    exact ⟨s, rfl, rfl, hrows⟩
  | _ =>
    simp only [write, Option.bind_eq_bind, Option.bind_none, Option.bind_eq_some_iff] at h
    obtain ⟨-, -, -, -, h⟩ := h
    cases h

theorem hashedRecord_some {registry : CanonicalRegistry} {committedAt : Text} {raw sequence previous r : Js F} {cursorHash : Text}
    {size : Nat} (h : hashedRecord P digest c registry committedAt raw sequence previous cursorHash size = some r) :
    ∃ rawId rawHash hash, raw.get "raw_observation_id" = some rawId ∧ raw.get "content_hash" = some rawHash ∧
      canonicalContentHash P digest registry (text "SpoolRecord") (record c committedAt sequence rawId rawHash previous cursorHash
        size (List.replicate 64 '0'.toNat)) = some hash ∧
      r = record c committedAt sequence rawId rawHash previous cursorHash size hash := by
  simp only [hashedRecord, Option.bind_eq_bind, Option.bind_eq_some_iff] at h
  obtain ⟨rawId, hid, rawHash, hrh, hash, hrec, he⟩ := h
  exact ⟨rawId, rawHash, hash, hid, hrh, hrec, (Option.some.inj he).symm⟩

theorem append_commit {indexes : List (Js F) → Js F → Bool} {registry : CanonicalRegistry} {cache : Cache F} {committedAt : Text}
    {bytes given : List UInt8} {db db' : Database F} {r : Js F}
    (h : append P digest c indexes registry cache committedAt bytes given db = some (.committed r db')) :
    ∃ raw, Nonempty (Commit P digest c registry cache committedAt bytes db db' raw) := by
  simp only [append, Option.bind_eq_bind, Option.bind_eq_some_iff, Option.guard_eq_some', exists_const] at h
  obtain ⟨raw, hvalid, sequence, hseq, hsnap, v, hv, next, hnext, m, hm, h⟩ := h
  obtain ⟨hlen, hparse, hbound, t, ht, hht⟩ := validated_some hvalid
  split_ifs at h with hlt
  · obtain ⟨_, -, he⟩ := Option.map_eq_some_iff.mp h
    cases he
  · simp only [appendNext, Option.bind_eq_bind, Option.bind_eq_some_iff, Option.guard_eq_some', exists_const] at h
    obtain ⟨w, hw, hsw, hne, z, hz, used, hused, hle, previous, hprev, cursorHash, hcur, record', hrec, db₁, hwrite, he⟩ := h
    obtain ⟨s, rfl, hstate, hrows⟩ := write_some hwrite
    obtain ⟨rawId, rawHash, hash, hid, hrh, hh, rfl⟩ := hashedRecord_some hrec
    cases Option.some.inj he
    rw [hv] at hw
    obtain rfl := Option.some.inj hw
    rw [ht] at hrh
    obtain rfl := Option.some.inj hrh
    have hvs : v = .string s := by
      cases v <;> simp_all [Js.strictEq]
    subst hvs
    exact ⟨raw, ⟨⟨hlen, hparse, hbound, s, hseq, rawId, hid, t, ht, hht, hsnap, next, hv, hnext, hne, used,
      by rw [hz]; exact hused, hle, previous, hprev, cursorHash, hcur, hash, hh, hrows, hstate⟩⟩⟩

/-! ## The next snapshot -/

theorem isText_self (t : Text) : isText P (.string t) t = true := by simp [isText, Js.strictEq]

theorem generationKey_same : (generationKey c).same P (generationKey c) = some true := by
  simp [generationKey, literalObject, Js.same, Js.stringify, Js.stringifyMembers]

theorem keyed_iff {row : Row F} : keyed c row = some () ↔ ∃ s, sequenceOf row.entry = some (.string s) ∧ row.key = key c s := by
  simp only [keyed, sequenceOf, Option.bind_eq_bind, Option.bind_eq_some_iff]
  constructor
  · rintro ⟨record, hr, position, hp, sequence, hs, h⟩
    cases sequence with
    | string s => exact ⟨s, ⟨position, ⟨record, hr, hp⟩, hs⟩, by simpa using h⟩
    | _ => cases h
  · rintro ⟨s, ⟨position, ⟨record, hr, hp⟩, hs⟩, hk⟩
    exact ⟨record, hr, position, hp, .string s, hs, by simpa using hk⟩

theorem sortedKeys_state {state : Js F} (h : checkState P c state = some ()) : state.sortedKeys = (initial c).sortedKeys := by
  simp only [checkState, Option.bind_eq_bind, Option.bind_eq_some_iff, Option.guard_eq_some', exists_const, Bool.and_eq_true,
    decide_eq_true_iff] at h
  exact h.1.2

theorem stateOf_has {state : Js F} {k : String} (h : Has state k) (rows : List (Row F)) : stateOf c ⟨state, rows⟩ = state := by
  obtain ⟨r, l, rfl, -⟩ := h
  rfl

/-- The state after a commit, member by member. -/
structure Moved (state state' : Js F) (next used : Int) (cursorHash : Text) : Prop where
  keys : state'.sortedKeys = state.sortedKeys
  next : state'.get "next_sequence" = some (.string (natText (next + 1).toNat))
  last : state'.get "last_cursor_hash" = some (.string cursorHash)
  used : state'.get "normal_bytes_used" = some (.string (natText used.toNat))
  other : ∀ j, j ≠ "next_sequence" → j ≠ "last_cursor_hash" → j ≠ "normal_bytes_used" → state'.get j = state.get j

theorem nextState_moved {state : Js F} (h : checkState P c state = some ()) (next used : Int) (cursorHash : Text) :
    Moved state (nextState state next used cursorHash) next used cursorHash ∧
      Has (nextState state next used cursorHash) "next_sequence" := by
  have has : ∀ k ∈ ["next_sequence", "last_cursor_hash", "normal_bytes_used"], Has state k := by
    intro k hk
    refine has_of_sortedKeys (sortedKeys_state h) ?_
    simp only [List.map_cons, List.map_nil]
    revert k
    decide
  have h1 := has "next_sequence" (by decide)
  have h2 := has_setMember h1 (has "last_cursor_hash" (by decide)) (.string (natText (next + 1).toNat))
  have h3 := has_setMember h1 (has "normal_bytes_used" (by decide)) (.string (natText (next + 1).toNat))
  have h4 := has_setMember h2 h3 (.string cursorHash)
  unfold nextState
  refine ⟨⟨?_, ?_, ?_, ?_, ?_⟩, ?_⟩
  · rw [sortedKeys_setMember h4, sortedKeys_setMember h2, sortedKeys_setMember h1]
  · rw [get_setMember h4, if_neg (by decide), get_setMember h2, if_neg (by decide), get_setMember h1, if_pos rfl]
  · rw [get_setMember h4, if_neg (by decide), get_setMember h2, if_pos rfl]
  · rw [get_setMember h4, if_pos rfl]
  · intro j hj hk hl
    rw [get_setMember h4, if_neg hl, get_setMember h2, if_neg hk, get_setMember h1, if_neg hj]
  · exact has_setMember h4 (has_setMember h2 (has_setMember h1 h1 _) _) _

theorem checkState_moved {state state' : Js F} {next used : Int} {cursorHash : Text} (hm : Moved state state' next used cursorHash) :
    checkState P c state' = checkState P c state := by
  unfold checkState
  rw [hm.keys, hm.other "storage_schema_version" (by decide) (by decide) (by decide),
    hm.other "producer_id" (by decide) (by decide) (by decide), hm.other "stream_id" (by decide) (by decide) (by decide),
    hm.other "active_generation" (by decide) (by decide) (by decide), hm.other "ack_generation" (by decide) (by decide) (by decide),
    hm.other "generation_state" (by decide) (by decide) (by decide),
    hm.other "terminal_reserve_bytes_used" (by decide) (by decide) (by decide)]

section Next

variable {registry : CanonicalRegistry} {cache : Cache F} {committedAt : Text} {bytes : List UInt8} {db db' : Database F}
  {raw : Js F} (k : Commit P digest c registry cache committedAt bytes db db' raw)

def Commit.row : Js F :=
  record c committedAt (.string k.sequence) k.rawId (.string k.rawHash) k.previous k.cursorHash bytes.length k.hash

/-- Everything but the hashes and the size is in order. -/
theorem Commit.checked {n : Nat} {t : Text} (hseq : k.sequence = natText (n + 1)) (hprev : k.previous = .string t) :
    Checked P c n (.string t) (entryOf k.row raw) k.row raw bytes.length where
  row_eq := get_literal _ _
  raw_eq := get_literal _ _
  bound := k.bound
  position := ⟨_, get_literal _ _, ⟨_, get_literal _ _, by rw [← hseq]; exact isText_self _, _, k.sequence_eq, isText_self _⟩, _,
    get_literal _ _, generationKey_same⟩
  size_eq := by
    have hlen := k.length_le
    have hle : (bytes.length : Int) ≤ maximum := by
      unfold maximum
      omega
    have hs : k.row.get "payload_size_bytes" = some (.string (natText bytes.length)) := get_literal _ _
    rw [hs]
    exact decimalOf_natText hle
  size_le := by
    have hlen := k.length_le
    omega
  keys := by
    rw [entryOf, sortedKeys_literal]
    simp only [List.map_cons, List.map_nil, text]
    repeat rw [String.toList_ofList]
    decide
  version := ⟨_, get_literal _ _, isText_self _⟩
  previous_eq := ⟨_, get_literal _ _, by rw [hprev]; exact isText_self _⟩
  id_eq := ⟨_, _, get_literal _ _, k.id_eq, parsed_refl k.parsed k.id_eq⟩
  hash_eq := ⟨_, _, get_literal _ _, k.rawHash_eq, isText_self _⟩

/-- What is left is the size. -/
theorem Commit.verified (hr : SelfHashed registry) {t : Text} (hprev : k.previous = .string t) :
    verifyEntry P digest c registry (.string t) k.row raw = some () ↔
      ∃ canonical, raw.canonicalBytes P = some canonical ∧ canonical.length ≤ bytes.length := by
  have hlen := k.length_le
  have hle : (bytes.length : Int) ≤ maximum := by
    unfold maximum
    omega
  have hcur := k.cursor_eq
  rw [hprev] at hcur
  have hrec : canonicalContentHash P digest registry (text "SpoolRecord") k.row = some k.hash := by
    rw [← k.record_eq]
    exact record_hash hr ..
  have hsize : k.row.get "payload_size_bytes" = some (.string (natText bytes.length)) := get_literal _ _
  have hch : k.row.get "cursor_hash" = some (.string k.cursorHash) := get_literal _ _
  have hco : k.row.get "content_hash" = some (.string k.hash) := get_literal _ _
  simp only [verifyEntry, hsize, decimalOf_natText hle, hcur, hrec, hch, hco, k.rawHash_eq, k.hash_eq, isText_self,
    Option.bind_eq_bind, Option.bind_some, Option.bind_eq_some_iff, Option.guard_eq_some', exists_const, Int.ofNat_le, and_true]

theorem Commit.sequenceOf_entry : sequenceOf (entryOf k.row raw) = some (.string k.sequence) := by
  have hrow : (entryOf k.row raw).get "spool_record" = some k.row := get_literal _ _
  have hposition : k.row.get "position" =
      some (literalObject [("generation_key", generationKey c), ("sequence", .string k.sequence)]) := get_literal _ _
  rw [sequenceOf, hrow, Option.bind_some, hposition, Option.bind_some, get_literal]
  rfl

/-- The entry is a value. -/
theorem Commit.proper {t : Text} (hprev : k.previous = .string t) : (entryOf k.row raw).Proper := by
  have hraw := parseStrictJson_proper k.parsed
  have hid := get_proper hraw k.id_eq
  have hprevious : k.previous.Proper := by
    rw [hprev]
    trivial
  have hstream : (literalObject [("browser_run_id", .string c.browserRunId), ("producer_id", .string c.producerId),
      ("stream_id", .string c.streamId)] : Js F).Proper := literal_proper (by simp) ⟨trivial, trivial, trivial, trivial⟩
  have hkey : (generationKey c : Js F).Proper := literal_proper (by simp) ⟨hstream, trivial, trivial⟩
  have hposition : (literalObject [("generation_key", generationKey c), ("sequence", .string k.sequence)] : Js F).Proper :=
    literal_proper (by simp) ⟨hkey, trivial, trivial⟩
  have hrow : k.row.Proper := literal_proper (by simp) ⟨trivial, trivial, trivial, trivial, trivial, hposition, hid, trivial,
    hprevious, trivial, trivial, trivial, trivial, trivial, trivial, trivial⟩
  exact literal_proper (by simp) ⟨trivial, hrow, hraw, trivial⟩

theorem ackHash_append {entries : List (Js F)} {ack : Int} (hle : ack ≤ entries.length) (entry : Js F) (h0 : 0 ≤ ack) :
    ackHash (entries ++ [entry]) ack = ackHash entries ack := by
  unfold ackHash
  split_ifs with h
  · rfl
  · rw [List.getElem?_append_left (by omega)]

theorem decimalOf_nonneg {v : Js F} {n : Int} (h : decimalOf P v = some n) : 0 ≤ n := by
  simp only [decimalOf, Option.bind_eq_bind, Option.bind_eq_some_iff, Option.guard_eq_some', exists_const] at h
  obtain ⟨s, -, -, -, he⟩ := h
  obtain rfl := Option.some.inj he
  omega

end Next

/-- The bytes are no fewer than the canonical bytes of what they denote. -/
def Covers (P : Platform F) (bytes : List UInt8) : Prop :=
  ∃ raw canonical, parseStrictJson P bytes = some raw ∧ raw.canonicalBytes P = some canonical ∧ canonical.length ≤ bytes.length

/-- The counters after a commit, the entries having passed. -/
theorem checkCounters_moved {state state' : Js F} {entries : List (Js F)} {entry previous : Js F} {bytes size next : Int}
    {cursorHash : Text} (hm : Moved state state' next (bytes + size) cursorHash)
    (h : checkCounters P state entries previous bytes = some ()) (hnext : next = entries.length + 1) (hmax : next < maximum)
    (hsize : 0 ≤ bytes + size) (hused : bytes + size ≤ maximum) :
    checkCounters P state' (entries ++ [entry]) (.string cursorHash) (bytes + size) = some () := by
  have hn : decimalOf P (.string (natText (next + 1).toNat)) = some (next + 1) := by
    have := decimalOf_natText (P := P) (n := (next + 1).toNat) (by omega)
    rwa [Int.toNat_of_nonneg (by omega)] at this
  have hu : decimalOf P (.string (natText (bytes + size).toNat)) = some (bytes + size) := by
    have := decimalOf_natText (P := P) (n := (bytes + size).toNat) (by omega)
    rwa [Int.toNat_of_nonneg hsize] at this
  simp only [checkCounters, Option.bind_eq_bind, Option.bind_eq_some_iff, Option.guard_eq_some', exists_const] at h
  obtain ⟨a, ha, ack, hack, -, -, -, -, -, -, -, -, -, -, -, -, -, hle, b, hb, e, he, heq⟩ := h
  have hlen : ((entries ++ [entry]).length : Int) = entries.length + 1 := by
    rw [List.length_append, List.length_singleton]
    omega
  have hah := ackHash_append hle entry (decimalOf_nonneg hack)
  simp only [checkCounters, hm.next, hm.last, hm.used, hm.other "ack_sequence" (by decide) (by decide) (by decide),
    hm.other "ack_cursor_hash" (by decide) (by decide) (by decide), ha, hack, hn, hu, hb, hah, he, heq, hlen,
    Option.bind_eq_bind, Option.bind_some, Option.bind_eq_some_iff, Option.guard_eq_some', exists_const, and_true]
  refine ⟨by omega, isText_self cursorHash, trivial, by omega⟩

theorem append_readable_iff {indexes : List (Js F) → Js F → Bool} {registry : CanonicalRegistry} {cache cache' : Cache F}
    {committedAt : Text} {bytes given : List UInt8} {db db' : Database F} {r : Js F} (hr : SelfHashed registry)
    (hdb : db.Proper) (hc : Reached P digest c cache) (hc' : Reached P digest c cache')
    (h : append P digest c indexes registry cache committedAt bytes given db = some (.committed r db')) :
    (snapshot P digest c registry cache' db').1 = true ↔ Covers P bytes := by
  obtain ⟨raw, ⟨k⟩⟩ := append_commit h
  have hread := (snapshot_iff hc.sound hdb).mp k.accepted
  obtain ⟨previous, used, hall, hcount⟩ := hread.entries
  obtain ⟨u, rfl⟩ : ∃ u, previous = .string u := checkAll_string _ hall
  have hcount' := hcount
  simp only [checkCounters, Option.bind_eq_bind, Option.bind_eq_some_iff, Option.guard_eq_some', exists_const] at hcount'
  obtain ⟨-, -, -, -, v, hv, n, hn, hnext, w, hw, hwu, x, hx, y, hy, rfl, -⟩ := hcount'
  -- the state's counters are the ones the entries give
  have hprev : k.previous = .string u := by
    have := k.previous_eq
    rw [hw] at this
    obtain rfl := Option.some.inj this
    exact strictEq_string hwu
  have hnext : k.next = (db.rows.length : Int) + 1 := by
    have := k.next_eq
    rw [hv] at this
    obtain rfl := Option.some.inj this
    have := k.next_value
    rw [hn] at this
    rw [← Option.some.inj this, hnext, List.length_map]
  have hused : k.used = y := by
    have := k.used_eq
    rw [hx, Option.bind_some, hy] at this
    exact (Option.some.inj this).symm
  obtain ⟨hseq, -, hmax⟩ := decimalOf_string k.next_value
  have hseq : k.sequence = natText (db.rows.length + 1) := by
    rw [hseq, hnext]
    congr 1
  have hlt : k.next < maximum := by
    have := k.next_ne
    omega
  have hrows : db'.rows = db.rows ++ [⟨key c k.sequence, entryOf k.row raw⟩] := by
    refine addRow_end (n := db.rows.length + 1) ?_ (by rw [hseq]) ?_ k.rows_eq
    · rw [hnext] at hmax
      unfold maximum at hmax
      omega
    · intro row hrow
      obtain ⟨s, hs, hk⟩ := keyed_iff.mp (hread.keyed row hrow)
      obtain ⟨i, hi, he⟩ := checkAll_sequence _ hall row.entry (List.mem_map_of_mem hrow)
      rw [hs] at he
      cases he
      rw [List.length_map] at hi
      exact ⟨i + 1, by omega, hk⟩
  obtain ⟨hmoved, hhas⟩ := nextState_moved hread.state k.next (k.used + bytes.length) k.cursorHash
  have hstate : stateOf c db' = nextState (stateOf c db) k.next (k.used + bytes.length) k.cursorHash := by
    rw [← k.state_eq] at hhas ⊢
    exact stateOf_has hhas db'.rows
  rw [← hstate] at hmoved
  have hdb' : db'.Proper := by
    intro row hrow
    rw [hrows] at hrow
    rcases List.mem_append.mp hrow with hrow | hrow
    · exact hdb row hrow
    · rw [List.mem_singleton.mp hrow]
      exact k.proper hprev
  have hcheck := (checkEntry_iff P c).mpr (k.checked hseq hprev)
  have hentries : checkAll P digest c registry 0 (.string H0) 0 (db'.rows.map (·.entry)) =
      (verifyEntry P digest c registry (.string u) k.row raw).map fun _ => (.string k.cursorHash, y + bytes.length) := by
    rw [hrows, List.map_append, checkAll_append, hall, Option.bind_some, Nat.zero_add, List.length_map, List.map_singleton]
    have hch : k.row.get "cursor_hash" = some (.string k.cursorHash) := get_literal _ _
    refine (checkAll_one hcheck).trans ?_
    rw [hch]
    rfl
  have hver := k.verified hr hprev
  rw [snapshot_iff hc'.sound hdb']
  constructor
  · intro hread'
    obtain ⟨_, _, hall', -⟩ := hread'.entries
    rw [hentries] at hall'
    obtain ⟨_, hv', -⟩ := Option.map_eq_some_iff.mp hall'
    obtain ⟨canonical, hcan, hle⟩ := hver.mp hv'
    exact ⟨raw, canonical, k.parsed, hcan, hle⟩
  · rintro ⟨raw', canonical, hparse, hcan, hle⟩
    rw [k.parsed] at hparse
    cases Option.some.inj hparse
    have hv' := hver.mpr ⟨canonical, hcan, hle⟩
    refine ⟨hread.configured, ?_, by rw [checkState_moved hmoved]; exact hread.state, .string k.cursorHash, y + bytes.length,
      by rw [hentries, hv']; rfl, ?_⟩
    · intro row hrow
      rw [hrows] at hrow
      rcases List.mem_append.mp hrow with hrow | hrow
      · exact hread.keyed row hrow
      · rw [List.mem_singleton.mp hrow]
        exact keyed_iff.mpr ⟨k.sequence, k.sequenceOf_entry, rfl⟩
    · rw [hrows, List.map_append, List.map_singleton]
      have hy0 := decimalOf_nonneg hy
      have hlimit : limit c ≤ 133169152 := by
        have := hread.configured
        simp only [configured, Bool.and_eq_true, decide_eq_true_iff] at this
        exact this.2.2
      have hle := k.used_le
      rw [hused] at hmoved hle
      refine checkCounters_moved hmoved hcount ?_ hlt (by omega) ?_
      · rw [hnext, List.length_map]
      · unfold maximum
        omega

section Short

/-! ## A payload shorter than its canonical form

Numbers are integers here; `1e9` is one, of three characters for ten. -/

def wholeNumber (l : Literal) : Option Int :=
  match l.fraction, l.exponent with
  | [], [] => some l.int
  | [], _ :: ds => if isDecimal ds then some (l.int * 10 ^ digitsValue ds) else none
  | _, _ => none

def integers : Platform Int where
  eq a b := a = b
  finite _ := true
  numberText := Lib.Json.decimal
  integer := Int.toNat
  number := wholeNumber
  nfc _ := true
  comparable _ := false
  exoticText _ := none
  exoticJson _ := none
  exoticCanonical _ := none
  exoticUnicode _ := false
  text_eq x y h := by rw [of_decide_eq_true h]
  finite_eq _ _ _ := rfl
  integer_eq x y h := by rw [of_decide_eq_true h]
  number_eq _ x _ := decide_eq_true (Eq.refl x)

def smallId : Text := text "00000000-0000-0000-0000-000000000000"

def smallOptions : SpoolOptions Int where
  browserRunId := smallId
  producerId := smallId
  streamId := smallId
  generation := text "1"
  validateRaw _ := true
  normalByteLimit := none

def smallRegistry : CanonicalRegistry where
  domains :=
    [⟨text "RawObservation", [], [text "/content_hash"]⟩, ⟨text "SpoolRecord", [], [text "/content_hash"]⟩,
      ⟨text "CursorStep", [], []⟩]
  domainValidationClasses :=
    [⟨[text "CursorStep"], text "GOVERNED_NO_EXCLUSION"⟩,
      ⟨[text "RawObservation", text "SpoolRecord"], text "SCHEMA_GATED_SELF_HASH"⟩]
  schemaBindingGroups := [⟨[text "RawObservation", text "SpoolRecord"], [text "/content_hash"]⟩]

/-- A digest that never differs. -/
def zeros (_ : List UInt8) : Text := text "0"

def smallSource : Text :=
  text "\x7b\"context\":\x7b\"browser_run_id\":\"00000000-0000-0000-0000-000000000000\"\x7d,\"stream_id\":\"00000000-0000-0000-0000-000000000000\",\"generation\":\"1\",\"discovery_run_id\":\"00000000-0000-0000-0000-000000000000\",\"sequence\":\"1\",\"content_hash\":\"0\",\"n\":1e9\x7d"

def smallBytes : List UInt8 := encode smallSource

def smallValue : Value Int := .obj [
  (text "context", .obj [(text "browser_run_id", .str smallId)]), (text "stream_id", .str smallId),
  (text "generation", .str (text "1")), (text "discovery_run_id", .str smallId), (text "sequence", .str (text "1")),
  (text "content_hash", .str (text "0")), (text "n", .float 1000000000)]

def smallRaw : Js Int := (Js.ofValue 0 smallValue).1

theorem small_ascii : smallBytes = smallSource.map UInt8.ofNat := by
  refine Lib.Json.encode_ascii ?_
  simp only [smallSource, text]
  repeat rw [String.toList_ofList]
  decide +kernel

theorem small_length : smallBytes.length = 237 := by
  rw [small_ascii, List.length_map]
  simp only [smallSource, text]
  repeat rw [String.toList_ofList]
  decide +kernel

theorem small_parse : StrictJson.parse integers.number (utf16 smallSource) = .ok smallValue := by
  simp only [smallSource, smallValue, smallId, text]
  repeat rw [String.toList_ofList]
  decide +kernel

theorem small_raw : parseStrictJson integers smallBytes = some smallRaw := by
  have hd : Lib.Json.decode smallBytes = some smallSource := by
    refine Lib.Json.decode_encode ?_
    simp only [smallSource, text]
    repeat rw [String.toList_ofList]
    decide +kernel
  have hb : smallBytes.take 3 ≠ [0xef, 0xbb, 0xbf] := by
    rw [small_ascii]
    simp only [smallSource, text]
    repeat rw [String.toList_ofList]
    decide
  refine parseStrictJson_ok hb hd small_parse ?_
  simp only [smallValue, smallId, text]
  repeat rw [String.toList_ofList]
  decide

theorem small_validated : validated integers zeros smallOptions smallRegistry smallBytes smallBytes = some smallRaw := by
  have h : (validated integers zeros smallOptions smallRegistry smallBytes smallBytes).isSome = true := by
    simp only [validated, small_raw, small_length, smallRaw]
    simp only [smallOptions, smallRegistry, smallValue, smallId, text]
    repeat rw [String.toList_ofList]
    decide +kernel
  obtain ⟨raw, h⟩ := Option.isSome_iff_exists.mp h
  have hp := (validated_some h).2.1
  rw [small_raw] at hp
  rw [h, ← hp]

theorem small_selfHashed : SelfHashed smallRegistry := by
  refine ⟨⟨text "SpoolRecord", [], [text "/content_hash"]⟩, ?_, rfl⟩
  simp only [smallRegistry, text, String.reduceToList]
  rfl

/-- Whether the append commits and the next snapshot refuses. -/
def unread (o : Option (Appended Int)) : Bool :=
  match o with
  | some (.committed _ db) => !(snapshot integers zeros smallOptions smallRegistry .empty db).1
  | _ => false

theorem small_unread : unread (append integers zeros smallOptions (fun _ _ => true) smallRegistry .empty (text "") smallBytes
    smallBytes ⟨.undefined, []⟩) = true := by
  simp only [append, small_validated, small_length, Option.bind_eq_bind, Option.bind_some, smallRaw]
  simp only [smallOptions, smallRegistry, smallValue, smallId, text, String.reduceToList]
  decide +kernel

theorem unread_some {o : Option (Appended Int)} (h : unread o = true) :
    ∃ r db, o = some (.committed r db) ∧ (snapshot integers zeros smallOptions smallRegistry .empty db).1 = false := by
  match o, h with
  | some (.committed r db), h => exact ⟨r, db, rfl, by simpa [unread] using h⟩

theorem append_unreadable : ∃ r db, append integers zeros smallOptions (fun _ _ => true) smallRegistry .empty (text "") smallBytes
    smallBytes ⟨.undefined, []⟩ = some (.committed r db) ∧
    (snapshot integers zeros smallOptions smallRegistry .empty db).1 = false :=
  unread_some small_unread

theorem append_readable_iff_small : ∃ r db, append integers zeros smallOptions (fun _ _ => true) smallRegistry .empty (text "")
    smallBytes smallBytes ⟨.undefined, []⟩ = some (.committed r db) ∧
    ((snapshot integers zeros smallOptions smallRegistry .empty db).1 = true ↔ Covers integers smallBytes) := by
  obtain ⟨r, db, h, -⟩ := append_unreadable
  refine ⟨r, db, h, append_readable_iff ?_ ?_ .empty .empty h⟩
  · exact small_selfHashed
  · intro row hrow
    cases hrow
end Short

end BettingHelper.Extension.Spool
